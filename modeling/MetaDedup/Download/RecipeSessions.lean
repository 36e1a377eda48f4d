import MetaDedup.Download.RecipeOrder
import MetaDedup.Server.ShareFileMessages

/-! # Recipes of one session and another

A history of `FILE_RECIPE` and `DOWNLOAD` requests, processed one at a time. A recipe
file is named after the path of a file and the index of the server, not after the user,
and it stays when `restoreShareFile` returns with an error. -/

namespace MetaDedup.Download

open Foundation Wire Server Function

/-- A request of a user. The core and the socket are those at the time of the
download. -/
inductive RecipeRequest
  | fileRecipe (userID : Int) (name : List Byte) (recipe : RetrievedRecipeFile)
  | download (userID : Int) (name : List Byte) (core : MinDedupCore) (socket : Nat → Bool)
      (memory : RestoreMemory)

/-- The recipe files, and the recipe every user has uploaded under a name and not
downloaded since. -/
structure RecipeSessions where
  recipeFiles : RecipeFiles
  uploaded : Int × List Byte → Option RetrievedRecipeFile

namespace RecipeSessions

def start (recipeFiles : RecipeFiles) : RecipeSessions := ⟨recipeFiles, fun _ => none⟩

variable (removes : List Byte → List Byte → Bool)

def perform (sessions : RecipeSessions) : RecipeRequest → RecipeSessions
  | .fileRecipe userID name recipe =>
      ⟨sessions.recipeFiles.append name recipe.bytes,
        update sessions.uploaded (userID, name) (some recipe)⟩
  | .download userID name core socket memory =>
      ⟨(core.restoreShareFile socket memory removes sessions.recipeFiles userID
          (directoryEntry name)).recipeFiles,
        update sessions.uploaded (userID, name) none⟩

/-- A property of every request of a history and the state it is processed in. -/
def Along (property : RecipeSessions → RecipeRequest → Prop) :
    RecipeSessions → List RecipeRequest → Prop
  | _, [] => True
  | sessions, request :: requests =>
      property sessions request ∧ Along property (sessions.perform removes request) requests

/-- A download after an upload of the same user emits the head and the entries of that
recipe: what is sent is what restoring the recipe sends. -/
def UsesOwnRecipe (sessions : RecipeSessions) : RecipeRequest → Prop
  | .fileRecipe _ _ _ => True
  | .download userID name core socket memory =>
      ∀ recipe, sessions.uploaded (userID, name) = some recipe →
        (core.restoreShareFile socket memory removes sessions.recipeFiles userID
          (directoryEntry name)).sent =
        (Loop.outcome (core.store.restoreShares core.bufferNodes socket
          memory.shareContainerCache memory.shareFileBuffer recipe.head
          recipe.entries)).stream.sent

/-- A recipe is uploaded only when there is no file for its name. A file is downloaded
only when nobody else waits for the recipe in it, and the shell removes no other file. -/
def Separate (sessions : RecipeSessions) : RecipeRequest → Prop
  | .fileRecipe _ name _ => sessions.recipeFiles (directoryEntry name) = none
  | .download userID name _ _ _ =>
      (∀ other, removes (directoryEntry name) other = true → other = directoryEntry name) ∧
      ∀ session, session ≠ (userID, name) →
        directoryEntry session.2 = directoryEntry name → sessions.uploaded session = none

/-- Every recipe that waits for its download is alone in its file. -/
def Kept (sessions : RecipeSessions) : Prop :=
  ∀ session recipe, sessions.uploaded session = some recipe →
    sessions.recipeFiles (directoryEntry session.2) = some recipe.bytes

variable {removes} {sessions : RecipeSessions}

private theorem restoreShareFile_spares {core : MinDedupCore} {socket : Nat → Bool}
    {memory : RestoreMemory} {recipeFiles : RecipeFiles} {userID : Int}
    {name other : List Byte} (spared : removes name other = false) :
    (core.restoreShareFile socket memory removes recipeFiles userID name).recipeFiles other =
      recipeFiles other := by
  rcases core.restoreShareFile_recipeFiles socket memory removes recipeFiles userID name with
    kept | removed
  · rw [kept]
  · rw [removed, RecipeFiles.remove, spared]
    rfl

theorem Kept.perform (kept : sessions.Kept) {request : RecipeRequest}
    (separate : sessions.Separate removes request) :
    (sessions.perform removes request).Kept := by
  intro session recipe waiting
  cases request with
  | fileRecipe userID name uploaded =>
      have absent : sessions.recipeFiles (directoryEntry name) = none := separate
      by_cases own : session = (userID, name)
      · subst own
        change update sessions.uploaded (userID, name) (some uploaded)
          (userID, name) = some recipe at waiting
        rw [update_self] at waiting
        cases waiting
        refine (RecipeFiles.append_self _ _ _).trans ?_
        rw [absent]
        rfl
      · have earlier : sessions.uploaded session = some recipe :=
          (update_of_ne own _ _).symm.trans waiting
        have present := kept session recipe earlier
        have elsewhere : directoryEntry session.2 ≠ directoryEntry name := by
          intro same
          rw [same, absent] at present
          cases present
        exact (update_of_ne elsewhere _ _).trans present
  | download userID name core socket memory =>
      have own : session ≠ (userID, name) := by
        rintro rfl
        change update sessions.uploaded (userID, name) none (userID, name) =
          some recipe at waiting
        rw [update_self] at waiting
        cases waiting
      have earlier : sessions.uploaded session = some recipe :=
        (update_of_ne own _ _).symm.trans waiting
      have spared : removes (directoryEntry name) (directoryEntry session.2) = false := by
        apply Bool.eq_false_of_not_eq_true
        intro removed
        have free := separate.2 session own (separate.1 _ removed)
        cases earlier.symm.trans free
      exact (restoreShareFile_spares spared).trans (kept session recipe earlier)

theorem Kept.usesOwnRecipe (kept : sessions.Kept) (request : RecipeRequest) :
    sessions.UsesOwnRecipe removes request := by
  cases request with
  | fileRecipe userID name recipe => trivial
  | download userID name core socket memory =>
      intro recipe uploaded
      have present : sessions.recipeFiles (directoryEntry name) =
          some (recipe.bytes ++ []) := by
        rw [List.append_nil]
        exact kept (userID, name) recipe uploaded
      rw [core.restoreShareFile_of_recipe socket memory removes present userID]
      cases core.store.restoreShares core.bufferNodes socket memory.shareContainerCache
        memory.shareFileBuffer recipe.head recipe.entries with
      | error restoration => rfl
      | ok restoration => rfl

theorem Kept.along (kept : sessions.Kept) (requests : List RecipeRequest)
    (separate : sessions.Along removes (Separate removes) requests) :
    sessions.Along removes (UsesOwnRecipe removes) requests := by
  induction requests generalizing sessions with
  | nil => trivial
  | cons request requests induction =>
      exact ⟨kept.usesOwnRecipe request, induction (kept.perform separate.1) separate.2⟩

end RecipeSessions

/-! ## Histories of requests -/

/-- In every history whose requests are separate, a download uses the recipe its user has
just uploaded. -/
theorem download_uses_own_recipe (removes : List Byte → List Byte → Bool)
    (recipeFiles : RecipeFiles) (requests : List RecipeRequest)
    (separate : (RecipeSessions.start recipeFiles).Along removes
      (RecipeSessions.Separate removes) requests) :
    (RecipeSessions.start recipeFiles).Along removes
      (RecipeSessions.UsesOwnRecipe removes) requests := by
  apply RecipeSessions.Kept.along _ requests separate
  intro session recipe uploaded
  cases uploaded

/-- The sessions of two users with different names, one inside the other. -/
theorem download_uses_own_recipe_nested :
    (RecipeSessions.start fun _ => none).Along removesNamed
      (RecipeSessions.UsesOwnRecipe removesNamed)
      [.fileRecipe 1 [114] twoShareRecipe, .fileRecipe 2 [115] otherShareRecipe,
        .download 2 [115] twoShareCore (fun _ => true) clearedRestoreMemory,
        .download 1 [114] twoShareCore (fun _ => true) clearedRestoreMemory] := by
  apply download_uses_own_recipe removesNamed (fun _ => none)
  have alone (name other : List Byte) (removed : removesNamed name other = true) :
      other = name := (beq_iff_eq.mp removed).symm
  refine ⟨rfl, rfl, ⟨alone _, ?_⟩, ⟨alone _, ?_⟩, trivial⟩
  · rintro session different same
    have apart : session ≠ (1, [114]) := by
      rintro rfl
      exact absurd same (by decide)
    exact (update_of_ne different _ _).trans (update_of_ne apart _ _)
  · intro session different _
    by_cases second : session = (2, [115])
    · rw [second]
      rfl
    · exact (update_of_ne second _ _).trans ((update_of_ne second _ _).trans
        (update_of_ne different _ _))

/-! ## Recipes behind other recipes -/

variable {sessions : RecipeSessions}

private theorem fileSize_of_sent {head : ShareFileHead} {padding rest : List Byte}
    {payloads sent : List (List Byte)}
    (framed : sent = ((head.bytes padding ++ rest) :: payloads).map frame) :
    ((sent.headD []).drop msgHeadSize).take longSize =
      wordBytes longSize head.fileSize.toNat := by
  have size : (htonl (-5) ++
      htonl (BitVec.ofNat 32 (head.bytes padding ++ rest).length)).length = msgHeadSize := by
    rw [List.length_append, htonl_length, htonl_length]
    rfl
  rw [framed, List.map_cons, List.headD_cons, frame, List.drop_left' size,
    ShareFileHead.bytes, List.append_assoc, List.append_assoc,
    List.take_left' (wordBytes_length _ _)]

/-- A download from a file in which another recipe comes first sends the head of that
recipe. -/
theorem not_usesOwnRecipe {removes : List Byte → List Byte → Bool}
    {userID : Int} {name : List Byte} {core : MinDedupCore}
    {socket : Nat → Bool} {memory : RestoreMemory} {first own : RetrievedRecipeFile}
    {firstShares ownShares : List (List Byte)}
    (behind : sessions.recipeFiles (directoryEntry name) = some (first.bytes ++ own.bytes))
    (uploaded : sessions.uploaded (userID, name) = some own)
    (firstRestorable : List.Forall₂ (Restorable core.store core.bufferNodes) first.entries
      firstShares)
    (ownRestorable : List.Forall₂ (Restorable core.store core.bufferNodes) own.entries
      ownShares)
    (succeeds : ∀ call, socket call = true)
    (different : wordBytes longSize first.head.shareFileHead.fileSize.toNat ≠
      wordBytes longSize own.head.shareFileHead.fileSize.toNat) :
    ¬ sessions.UsesOwnRecipe removes (.download userID name core socket memory) := by
  intro uses
  have same := uses own uploaded
  rcases restoreShares_of_restorable memory.shareContainerCache firstRestorable succeeds
    memory.shareFileBuffer first.head with ⟨restored, padding, -, returns, sent⟩
  rcases restoreShares_of_restorable memory.shareContainerCache ownRestorable succeeds
    memory.shareFileBuffer own.head with ⟨expected, ownPadding, -, ownReturns, ownSent⟩
  rw [core.restoreShareFile_of_recipe socket memory removes behind userID, returns,
    ownReturns] at same
  apply different
  rw [← fileSize_of_sent sent, ← fileSize_of_sent ownSent]
  exact congrArg (fun sent => ((sent.headD []).drop msgHeadSize).take longSize) same

private theorem oneShareRecipe_restorable :
    List.Forall₂ (Restorable twoShareCore.store twoShareCore.bufferNodes)
      oneShareRecipe.entries [[7]] :=
  .cons ⟨byteShareValue 0, [7, 9], rfl, rfl, rfl⟩ .nil

private theorem otherShareRecipe_restorable :
    List.Forall₂ (Restorable twoShareCore.store twoShareCore.bufferNodes)
      otherShareRecipe.entries [[9]] :=
  .cons ⟨byteShareValue 1, [7, 9], rfl, rfl, rfl⟩ .nil

private theorem not_usesOwnRecipe_appended (userID : Int)
    (left : sessions.recipeFiles (directoryEntry [114]) = some oneShareRecipe.bytes) :
    ¬ (sessions.perform removesNamed
      (.fileRecipe userID [114] otherShareRecipe)).UsesOwnRecipe removesNamed
      (.download userID [114] twoShareCore (fun _ => true) clearedRestoreMemory) := by
  apply not_usesOwnRecipe _ _ oneShareRecipe_restorable otherShareRecipe_restorable
    (fun _ => rfl) (by decide)
  · have grown := sessions.recipeFiles.append_self [114] otherShareRecipe.bytes
    rw [left, Option.getD_some] at grown
    exact grown
  · exact update_self _ _ _

/-- User 1 uploads a recipe, but the download fails because the share is not there; the
next download of user 1 gets the old recipe. And user 2 gets the recipe that user 1 has
uploaded under the same name. -/
theorem download_uses_other_recipe :
    ¬ (RecipeSessions.start fun _ => none).Along removesNamed
      (RecipeSessions.UsesOwnRecipe removesNamed)
      [.fileRecipe 1 [114] oneShareRecipe,
        .download 1 [114] .empty (fun _ => true) clearedRestoreMemory,
        .fileRecipe 1 [114] otherShareRecipe,
        .download 1 [114] twoShareCore (fun _ => true) clearedRestoreMemory] ∧
    ¬ (RecipeSessions.start fun _ => none).Along removesNamed
      (RecipeSessions.UsesOwnRecipe removesNamed)
      [.fileRecipe 1 [114] oneShareRecipe, .fileRecipe 2 [114] otherShareRecipe,
        .download 2 [114] twoShareCore (fun _ => true) clearedRestoreMemory] := by
  have written : RecipeFiles.append (fun _ => none) [114] oneShareRecipe.bytes
      (directoryEntry [114]) = some oneShareRecipe.bytes := by
    rw [RecipeFiles.append_self, Option.getD_none, List.nil_append]
  constructor
  · intro uses
    apply not_usesOwnRecipe_appended 1 _ uses.2.2.2.1
    have stays := MinDedupCore.restoreShareFile_of_recipe .empty (fun _ => true)
      clearedRestoreMemory removesNamed (written.trans (by rw [List.append_nil])) 1
    rw [RecipeSessions.perform, RecipeSessions.perform, RecipeSessions.start, stays]
    exact written
  · intro uses
    exact not_usesOwnRecipe_appended 2 written uses.2.2.1

end MetaDedup.Download
