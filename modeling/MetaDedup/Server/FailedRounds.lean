import MetaDedup.Server.ContainerGrowth
import MetaDedup.Server.DedupIntegrity
import MetaDedup.Server.IndexUpdates
import MetaDedup.Server.InodeIndex
import MetaDedup.Server.RecipeWindow
import MetaDedup.Server.Stages

/-! # Rounds that fail at a share

When a share does not match its fingerprint, `secondStageDedup` returns 0 and leaves what
it has done so far as it is: the version in the inode index, the head that announces all
shares of the round, and the entries up to the share. What was stored before is only safe
when the round has put all this where nothing refers to it. -/

namespace MetaDedup.Server

open Foundation Relation

/-! ## The share that does not match -/

/-- The size of the data sent for some shares; duplicates are not sent. -/
def sentSize (intraUserDupStatList : Nat → Bool) : Nat → List ShareMDEntry → Nat
  | _, [] => 0
  | numOfShares, entry :: rest =>
      (if intraUserDupStatList numOfShares then 0 else entry.shareSize) +
        sentSize intraUserDupStatList (numOfShares + 1) rest

def MismatchAt (generateHash : List Byte → Fingerprint) (intraUserDupStatList : Nat → Bool)
    (shareDataBuffer : Buffer Byte) (entries : List ShareMDEntry) (position : Nat) : Prop :=
  ∃ entry, entries[position]? = some entry ∧ intraUserDupStatList position = false ∧
    generateHash ((shareDataBuffer.advance (sentSize intraUserDupStatList 0
      (entries.take position))).slice 0 entry.shareSize) ≠ entry.shareFP

namespace DedupCursor

variable {generateHash : List Byte → Fingerprint}
variable {userID : Int} {intraUserDupStatList : Nat → Bool} {shareDataBuffer : Buffer Byte}

variable {cursor : DedupCursor} {entry : ShareMDEntry}

private theorem placeEntry_counters {next : DedupCursor}
    (placed : cursor.placeEntry generateHash userID intraUserDupStatList shareDataBuffer
      entry = .ok next) :
    next.shares.numOfShares = cursor.shares.numOfShares + 1 ∧
      next.shares.shareDataBufferOffset = cursor.shares.shareDataBufferOffset +
        if intraUserDupStatList cursor.shares.numOfShares then 0 else entry.shareSize := by
  rcases placeEntry_eq_ok placed with ⟨shares, taken, rfl⟩
  have passes := cursor.shares.placeShare_passes generateHash userID intraUserDupStatList
    shareDataBuffer entry
  rw [taken] at passes
  cases passes with
  | skips flagged =>
      rw [if_pos flagged]
      exact ⟨rfl, rfl⟩
  | takes unflagged same numOfShares offset adds =>
      rw [if_neg (Bool.eq_false_iff.mp unflagged)]
      exact ⟨numOfShares, offset⟩

private theorem placeEntry_mismatch (sent : intraUserDupStatList cursor.shares.numOfShares = false)
    (differs : generateHash ((shareDataBuffer.advance
      cursor.shares.shareDataBufferOffset).slice 0 entry.shareSize) ≠ entry.shareFP) :
    cursor.placeEntry generateHash userID intraUserDupStatList shareDataBuffer entry =
      .error cursor := by
  rw [placeEntry, ShareCursor.placeShare, if_neg (by rw [sent]; exact Bool.false_ne_true)]
  simp only [if_pos differs]

/-- The loop stops at a share that does not match, or before it. -/
theorem placeEntries_mismatch {entries : List ShareMDEntry} {position : Nat}
    (listed : entries[position]? = some entry)
    (sent : intraUserDupStatList (cursor.shares.numOfShares + position) = false)
    (differs : generateHash ((shareDataBuffer.advance
      (cursor.shares.shareDataBufferOffset + sentSize intraUserDupStatList
        cursor.shares.numOfShares (entries.take position))).slice 0 entry.shareSize) ≠
          entry.shareFP) :
    ∃ stopped, entries.foldlM
      (placeEntry generateHash userID intraUserDupStatList shareDataBuffer) cursor =
        .error stopped := by
  induction entries generalizing position cursor with
  | nil => cases listed
  | cons first rest induction =>
      rw [List.foldlM_cons]
      cases position with
      | zero =>
          cases listed
          rw [List.take_zero, sentSize, Nat.add_zero] at differs
          rw [placeEntry_mismatch sent differs]
          exact ⟨cursor, rfl⟩
      | succ position =>
          cases placed : cursor.placeEntry generateHash userID intraUserDupStatList
              shareDataBuffer first with
          | error stopped => exact ⟨stopped, rfl⟩
          | ok next =>
              rcases placeEntry_counters placed with ⟨numOfShares, offset⟩
              have later : rest[position]? = some entry := listed
              have stops : ∃ stopped, rest.foldlM (placeEntry generateHash userID
                  intraUserDupStatList shareDataBuffer) next = .error stopped := by
                apply induction later
                · rw [numOfShares, Nat.add_assoc, Nat.add_comm 1]
                  exact sent
                · rw [List.take_succ_cons, sentSize, ← Nat.add_assoc] at differs
                  rw [numOfShares, offset]
                  exact differs
              exact stops

/-- What the shares of a round leave alone in the recipe half and in the node. -/
structure SameNode (before cursor : DedupCursor) : Prop where
  recipes : cursor.recipes = before.recipes
  recipeFileName : cursor.recipe.recipeFileName = before.recipe.recipeFileName
  userID : cursor.shares.buffer.userID = before.shares.buffer.userID

theorem SameNode.trans {first second third : DedupCursor} (early : SameNode first second)
    (late : SameNode second third) : SameNode first third where
  recipes := late.recipes.trans early.recipes
  recipeFileName := late.recipeFileName.trans early.recipeFileName
  userID := late.userID.trans early.userID

private theorem placeEntry_sameNode (cursor : DedupCursor) (entry : ShareMDEntry) :
    SameNode cursor (Loop.outcome (cursor.placeEntry generateHash userID
      intraUserDupStatList shareDataBuffer entry)) := by
  have same := cursor.shares.placeShare_userID generateHash userID intraUserDupStatList
    shareDataBuffer entry
  rw [placeEntry]
  cases placed : cursor.shares.placeShare generateHash userID intraUserDupStatList
      shareDataBuffer entry with
  | error shares =>
      rw [placed] at same
      exact ⟨rfl, rfl, same⟩
  | ok shares =>
      rw [placed] at same
      exact ⟨rfl, rfl, same⟩

private theorem placeEntries_sameNode (entries : List ShareMDEntry) (cursor : DedupCursor) :
    SameNode cursor (Loop.outcome (entries.foldlM
      (placeEntry generateHash userID intraUserDupStatList shareDataBuffer) cursor)) :=
  Loop.foldlM_outcome _ (SameNode cursor) entries
    (fun entry _ reached same => same.trans (placeEntry_sameNode reached entry)) cursor
    ⟨rfl, rfl, rfl⟩

/-- A file that continues an earlier round and has room in the buffer stops at a share
that does not match, and has changed nothing but the contents of the buffer. -/
theorem placeFile_mismatch {stray : List RecipeCell → FileRecipeHead}
    (first : cursor.shares.numOfShares = 0 ∧ cursor.shares.shareDataBufferOffset = 0)
    {file : FileShareMD} {position : Nat}
    (mismatch : MismatchAt generateHash intraUserDupStatList shareDataBuffer file.entries
      position)
    (continues : file.numOfPastSecrets ≠ 0)
    (room : ¬RecipeStore.Overflows cursor.recipe file) :
    ∃ stopped, cursor.placeFile generateHash stray userID intraUserDupStatList
        shareDataBuffer file = .error stopped ∧ SameNode cursor stopped := by
  rw [placeFile]
  cases formatFullFileName file.fullName with
  | none => exact ⟨cursor, rfl, rfl, rfl, rfl⟩
  | some fullFileName =>
      let placed := cursor.recipes.placeHead generateHash stray cursor.recipe fullFileName
        userID file
      let headed : DedupCursor := { cursor with recipes := placed.1, recipe := placed.2 }
      have heads : placed.1 = cursor.recipes ∧
          placed.2.recipeFileName = cursor.recipe.recipeFileName := by
        simp only [placed, RecipeStore.placeHead, if_neg continues]
        split <;> exact ⟨rfl, rfl⟩
      rcases mismatch with ⟨entry, listed, sent, differs⟩
      have stops : ∃ stopped, file.entries.foldlM (placeEntry generateHash userID
          intraUserDupStatList shareDataBuffer) headed = .error stopped := by
        apply placeEntries_mismatch listed
        · rw [first.1, Nat.zero_add]
          exact sent
        · rw [first.1, first.2, Nat.zero_add]
          exact differs
      rcases stops with ⟨stopped, failed⟩
      have same : SameNode headed (Loop.outcome (file.entries.foldlM (placeEntry generateHash
          userID intraUserDupStatList shareDataBuffer) headed)) :=
        placeEntries_sameNode _ _
      rw [failed] at same
      refine ⟨stopped, ?_, same.recipes.trans heads.1, same.recipeFileName.trans heads.2,
        same.userID⟩
      rw [RecipeStore.makeRoom, if_neg room]
      exact congrArg (· >>= fun (reached : DedupCursor) =>
        reached.onRecipe (reached.recipes.finishFile stray reached.recipe file)) failed

end DedupCursor

namespace DedupCore

variable {generateHash : List Byte → Fingerprint}
variable {stray : List RecipeCell → FileRecipeHead}

/-! ## Rounds that leave alone what was stored -/

variable {name : InternalFileName} {core : DedupCore} {userID : Int}
variable {expired : PerUserBufferNode → Bool} {intraUserDupStatList : Nat → Bool}
variable {shareDataBuffer : Buffer Byte}

def Unlisted (core : DedupCore) (name : InternalFileName) : Prop :=
  InodeIndex.AllVersions (fun place => place.recipeFileName ≠ name) core.recipes.inodeIndex

def recipeBufferOf (generateHash : List Byte → Fingerprint) (core : DedupCore)
    (userID : Int) : RecipeBuffer :=
  match findUserNode PerUserBufferNode.userID userID core.bufferNodes with
  | some found => found.target.recipe
  | none => (newBufferNode generateHash (core.shares, core.recipes) userID).2.recipe

/-- The round continues a file, and nothing in the inode index refers to the recipe buffer
it goes to. The buffer has room, and no node expires. -/
structure Harmless (generateHash : List Byte → Fingerprint) (core : DedupCore) (userID : Int)
    (file : FileShareMD) (expired : PerUserBufferNode → Bool) : Prop where
  continues : file.numOfPastSecrets ≠ 0
  unlisted : core.Unlisted (core.recipeBufferOf generateHash userID).recipeFileName
  room : ¬RecipeStore.Overflows (core.recipeBufferOf generateHash userID) file
  stays : ∀ node ∈ core.bufferNodes, expires userID expired node = false

def bufferedRecipe (nodes : List PerUserBufferNode) (reader : Int)
    (name : InternalFileName) : Option (List RecipeCell) :=
  (nodes.find? fun node => node.userID == reader).bind fun node =>
    if node.recipe.recipeFileName = name then some node.recipe.recipeFileBuffer else none

private theorem bufferedRecipe_setTarget (node : LinkedNode PerUserBufferNode)
    {target : PerUserBufferNode} (user : target.userID = node.target.userID)
    (recipeFileName : target.recipe.recipeFileName = node.target.recipe.recipeFileName)
    (reader : Int) (other : name ≠ node.target.recipe.recipeFileName) :
    bufferedRecipe (node.setTarget target).link reader name =
      bufferedRecipe node.link reader name := by
  rw [bufferedRecipe, bufferedRecipe, LinkedNode.link, LinkedNode.link, LinkedNode.setTarget,
    List.find?_append, List.find?_append, List.find?_cons, List.find?_cons, user]
  cases node.before.find? fun node => node.userID == reader with
  | some found => rfl
  | none =>
      cases node.target.userID == reader with
      | true =>
          simp only [Option.none_or, Option.bind_some, recipeFileName]
          rw [if_neg other.symm, if_neg other.symm]
      | false => rfl

private theorem bufferedRecipe_atEnd (nodes : List PerUserBufferNode) (node : PerUserBufferNode)
    (reader : Int) (other : name ≠ node.recipe.recipeFileName) :
    bufferedRecipe (LinkedNode.atEnd nodes node).link reader name =
      bufferedRecipe nodes reader name := by
  rw [bufferedRecipe, bufferedRecipe, LinkedNode.link, LinkedNode.atEnd, List.find?_append]
  cases nodes.find? fun node => node.userID == reader with
  | some found => rfl
  | none =>
      rw [Option.none_or, List.find?_singleton]
      cases node.userID == reader with
      | true =>
          simp only [if_true, Option.bind_some, Option.bind_none]
          rw [if_neg other.symm]
      | false => rfl

/-- What a failed round leaves alone of the recipes: the inode index, the recipe files, and
the buffers under other names. -/
structure SameRecipes (before after : DedupCore) (name : InternalFileName) : Prop where
  inodeIndex : after.recipes.inodeIndex = before.recipes.inodeIndex
  recipeFiles : after.recipes.recipeFiles = before.recipes.recipeFiles
  buffered : ∀ reader other, other ≠ name →
    after.readRecipeFileFromBuffer reader other = before.readRecipeFileFromBuffer reader other

private theorem findOrCreateBufferNode_stays (stray : List RecipeCell → FileRecipeHead)
    (stays : ∀ node ∈ core.bufferNodes, expires userID expired node = false) :
    let opened := core.findOrCreateBufferNode generateHash stray userID expired
    opened.2.target.recipe = core.recipeBufferOf generateHash userID ∧
      opened.1.2.inodeIndex = core.recipes.inodeIndex ∧
      opened.1.2.recipeFiles = core.recipes.recipeFiles ∧
      ∀ reader other, other ≠ opened.2.target.recipe.recipeFileName →
        bufferedRecipe opened.2.link reader other =
          bufferedRecipe core.bufferNodes reader other := by
  have walked : core.expire stray userID expired =
      ((core.shares, core.recipes), core.bufferNodes) :=
    expireNodes_of_none _ _ stays
  rw [findOrCreateBufferNode, walked, recipeBufferOf]
  cases located : findUserNode PerUserBufferNode.userID userID core.bufferNodes with
  | some found =>
      refine ⟨rfl, rfl, rfl, ?_⟩
      intro reader other _
      simp only
      rw [(findUserNode_some located).1]
  | none =>
      exact ⟨rfl, rfl, rfl, fun reader other different =>
        bufferedRecipe_atEnd core.bufferNodes _ reader different⟩

/-- The call stops in its first file, which has only written to the recipe buffer. -/
theorem secondStageDedup_mismatch {file : FileShareMD} {later : List FileShareMD}
    {position : Nat}
    (mismatch : MismatchAt generateHash intraUserDupStatList shareDataBuffer file.entries
      position)
    (harmless : core.Harmless generateHash userID file expired) :
    ∃ failed, core.secondStageDedup generateHash stray userID (file :: later)
        intraUserDupStatList shareDataBuffer expired = .error failed ∧
      core.SameRecipes failed (core.recipeBufferOf generateHash userID).recipeFileName := by
  rcases findOrCreateBufferNode_stays stray harmless.stays with
    ⟨recipe, inodeIndex, recipeFiles, linked⟩
  rw [secondStageDedup]
  generalize core.findOrCreateBufferNode generateHash stray userID expired = opened at *
  have room : ¬RecipeStore.Overflows (openCursor opened).recipe file := by
    rw [openCursor, recipe]
    exact harmless.room
  have stops : ∃ stopped, (openCursor opened).placeFile generateHash stray userID
      intraUserDupStatList shareDataBuffer file = .error stopped ∧
      DedupCursor.SameNode (openCursor opened) stopped :=
    DedupCursor.placeFile_mismatch ⟨rfl, rfl⟩ mismatch harmless.continues room
  rcases stops with ⟨stopped, fails, same⟩
  refine ⟨closeCursor opened stopped, ?_, ?_, ?_, ?_⟩
  · rw [List.foldlM_cons, fails]
    rfl
  · exact (congrArg RecipeStore.inodeIndex same.recipes).trans inodeIndex
  · exact (congrArg RecipeStore.recipeFiles same.recipes).trans recipeFiles
  · intro reader other different
    rw [← recipe] at different
    have user : (⟨stopped.shares.buffer, stopped.recipe⟩ : PerUserBufferNode).userID =
        opened.2.target.userID := same.userID
    have written : bufferedRecipe
        (opened.2.setTarget ⟨stopped.shares.buffer, stopped.recipe⟩).link reader other =
        bufferedRecipe opened.2.link reader other :=
      bufferedRecipe_setTarget opened.2 user same.recipeFileName reader different
    exact written.trans (linked reader other different)

/-! ## What can be restored afterwards -/

/-- Every version that could be restored is restored with the same messages. -/
def KeepsRestorable (generateHash : List Byte → Fingerprint)
    (stray : List RecipeCell → FileRecipeHead) (before after : DedupCore) : Prop :=
  ∀ strayEntry socket memory userID fullFileName age,
    (before.restoreShareFile generateHash stray strayEntry socket memory userID fullFileName
      age).1 = true →
    after.restoreShareFile generateHash stray strayEntry socket memory userID fullFileName age =
      before.restoreShareFile generateHash stray strayEntry socket memory userID fullFileName
        age

/-- No version refers to a recipe whose head announces more entries than are there. -/
def RecipesWhole (generateHash : List Byte → Fingerprint)
    (stray : List RecipeCell → FileRecipeHead) (core : DedupCore) : Prop :=
  ∀ userID fullFileName age place,
    core.findRecipe generateHash userID fullFileName age = some place →
    core.readRecipeFile userID place.recipeFileName ≠ none →
    core.readRecipe stray userID place ≠ none

variable {before after : DedupCore}

private theorem restoreEntries_grown (strayEntry : List RecipeCell → FileRecipeEntry)
    (socket : Nat → Bool) (memory : RestoreMemory)
    (grown : before.shares.Grown before.containers after.shares after.containers)
    (count : Nat) (window : RecipeWindow) {early late final : Restoration}
    (earlyFaithful : RecentCache.Faithful
      (before.shares.loadShareContainer before.containers) early.shareContainerCache)
    (lateFaithful : RecentCache.Faithful
      (after.shares.loadShareContainer after.containers) late.shareContainerCache)
    (same : late.stream = early.stream)
    (restores : before.restoreEntries strayEntry socket memory count window early =
      .ok final) :
    ∃ lateFinal, after.restoreEntries strayEntry socket memory count window late =
        .ok lateFinal ∧ lateFinal.stream = final.stream := by
  induction count generalizing window early late with
  | zero =>
      cases restores
      exact ⟨late, rfl, same⟩
  | succ count induction =>
      rw [restoreEntries] at restores ⊢
      cases refills : window.refill with
      | none =>
          rw [refills] at restores
          cases restores
      | some filled =>
          simp only [refills] at restores ⊢
          rcases Loop.bind_eq_ok_iff.mp restores with ⟨next, first, later⟩
          rcases grown.restoreShare socket memory.shareContainerCache earlyFaithful
            lateFaithful same first with ⟨lateNext, restored, stream, faithful, lateNextFaithful⟩
          rw [restored]
          exact induction _ faithful lateNextFaithful stream later

/-- A version that is restored from the same recipe gives the same messages. -/
theorem restoreShareFile_grown (strayEntry : List RecipeCell → FileRecipeEntry)
    (socket : Nat → Bool) (memory : RestoreMemory)
    (grown : before.shares.Grown before.containers after.shares after.containers)
    {fullFileName : List Byte} {age : Nat}
    (windows : (after.findRecipe generateHash userID fullFileName age).bind
        (after.openRecipe userID) =
      (before.findRecipe generateHash userID fullFileName age).bind
        (before.openRecipe userID))
    (succeeds : (before.restoreShareFile generateHash stray strayEntry socket memory userID
      fullFileName age).1 = true) :
    after.restoreShareFile generateHash stray strayEntry socket memory userID fullFileName age =
      before.restoreShareFile generateHash stray strayEntry socket memory userID fullFileName
        age := by
  rw [restoreShareFile] at succeeds ⊢
  rw [restoreShareFile, windows]
  cases opened : (before.findRecipe generateHash userID fullFileName age).bind
      (before.openRecipe userID) with
  | none => rfl
  | some window =>
      simp only [opened] at succeeds ⊢
      cases result : before.restoreWindow stray strayEntry socket memory window with
      | error stopped =>
          rw [result] at succeeds
          cases succeeds
      | ok final =>
          rw [restoreWindow] at result
          rcases Loop.bind_eq_ok_iff.mp result with ⟨restored, entries, finished⟩
          rcases restoreEntries_grown strayEntry socket memory grown _ _ .nil .nil rfl
            entries with ⟨late, lateEntries, stream⟩
          rcases ShareStore.finishRestore_of_stream_eq stream finished with
            ⟨lateFinal, lateFinished, same⟩
          have whole : after.restoreWindow stray strayEntry socket memory window =
              .ok lateFinal := by
            rw [restoreWindow]
            exact Loop.bind_eq_ok_iff.mpr ⟨late, lateEntries, lateFinished⟩
          simp only [whole, same]

section SameRecipes

variable {name : InternalFileName} (same : before.SameRecipes after name)
  (unlisted : before.Unlisted name)
include same

theorem SameRecipes.findRecipe (userID : Int) (fullFileName : List Byte) (age : Nat) :
    after.findRecipe generateHash userID fullFileName age =
      before.findRecipe generateHash userID fullFileName age := by
  rw [DedupCore.findRecipe, DedupCore.findRecipe, same.inodeIndex]

include unlisted

theorem SameRecipes.buffered_of_found {userID : Int} {fullFileName : List Byte} {age : Nat}
    {place : InodeFileEntry}
    (found : before.findRecipe generateHash userID fullFileName age = some place) :
    after.readRecipeFileFromBuffer userID place.recipeFileName =
      before.readRecipeFileFromBuffer userID place.recipeFileName := by
  apply same.buffered
  simp only [DedupCore.findRecipe, Option.bind_eq_bind, Option.bind_eq_some_iff,
    Option.ite_none_left_eq_some] at found
  rcases found with ⟨formatted, _, value, listed, _, version⟩
  exact unlisted _ value place listed (InodeIndexValue.version_mem version)

theorem SameRecipes.windows (userID : Int) (fullFileName : List Byte) (age : Nat) :
    (after.findRecipe generateHash userID fullFileName age).bind (after.openRecipe userID) =
      (before.findRecipe generateHash userID fullFileName age).bind
        (before.openRecipe userID) := by
  rw [same.findRecipe]
  cases found : before.findRecipe generateHash userID fullFileName age with
  | none => rfl
  | some place =>
      rw [Option.bind_some, Option.bind_some, openRecipe, openRecipe,
        same.buffered_of_found unlisted found, same.recipeFiles]

theorem SameRecipes.recipesWhole (whole : before.RecipesWhole generateHash stray) :
    after.RecipesWhole generateHash stray := by
  intro userID fullFileName age place found readable
  rw [same.findRecipe] at found
  have file : after.readRecipeFile userID place.recipeFileName =
      before.readRecipeFile userID place.recipeFileName := by
    rw [readRecipeFile, readRecipeFile, same.buffered_of_found unlisted found,
      same.recipeFiles]
  have complete := whole userID fullFileName age place found (file ▸ readable)
  rw [readRecipe, file]
  exact complete

end SameRecipes

/-! ## Every run -/

private theorem placed_of_reachable (reachable : ReflTransGen (Step generateHash stray) empty core)
    (left : core.shares.globalShareContainerName.drawn < 26 ^ fileNameValidLen) :
    core.shares.Placed core.containers := by
  have preserved : ShareStore.Preserved generateHash fun store buffers =>
      store.globalShareContainerName.drawn < 26 ^ fileNameValidLen →
        ShareStore.empty.Grown [] store buffers := ShareStore.grown_preserved .empty []
  have grown : core.Holds fun store buffers =>
      store.globalShareContainerName.drawn < 26 ^ fileNameValidLen →
        ShareStore.empty.Grown [] store buffers := by
    clear left
    induction reachable with
    | refl => exact fun _ => ShareStore.placed_empty.grown
    | tail _ step induction =>
        rcases step with ⟨call, sized, rfl⟩
        refine perform_preserved preserved ?_ induction sized
          (expiryMeets_of_forall (fun _ _ => trivial) _ call)
        intro stores node rest _ holds
        rw [flushBufferNodeIntoDisk]
        cases stores.2.flushRecipeBuffer stray node.recipe with
        | ok recipes => exact preserved.flush holds
        | error recipes =>
            -- The node is freed all the same, and its container is lost.
            intro left
            have grown := holds left
            refine ⟨grown.start, grown.placed.lose, grown.kept, ?_⟩
            intro name container loads
            cases loads
  exact (grown left).placed

private theorem grown_of_stays {package : List FileShareMD}
    (reachable : ReflTransGen (Step generateHash stray) empty core)
    (stays : ∀ node ∈ core.bufferNodes, expires userID expired node = false)
    (sized : ∀ file ∈ package, ∀ entry ∈ file.entries, entry.Sized) :
    (core.perform generateHash stray (.secondStage userID package intraUserDupStatList
      shareDataBuffer expired)).Holds fun store buffers =>
        store.globalShareContainerName.drawn < 26 ^ fileNameValidLen →
          core.shares.Grown core.containers store buffers := by
  have meets : core.ExpiryMeets stray (fun _ _ => False) (.secondStage userID package
      intraUserDupStatList shareDataBuffer expired) :=
    walkMeets_of_none _ _ _ stays
  exact perform_preserved (ShareStore.grown_preserved core.shares core.containers)
    (fun _ _ _ never => never.elim) (fun left => (placed_of_reachable reachable left).grown)
    sized meets

/-- In every run, a round that stops at a share of its first file does no damage if the
file continues an earlier round, nothing in the inode index refers to the recipe buffer it
goes to, the buffer has room, and no node expires. -/
theorem failed_round_harmless {core : DedupCore} {userID : Int} {file : FileShareMD}
    {later : List FileShareMD} {intraUserDupStatList : Nat → Bool}
    {shareDataBuffer : Buffer Byte} {expired : PerUserBufferNode → Bool} {position : Nat}
    (reachable : ReflTransGen (Step generateHash stray) empty core)
    (sized : ∀ listed ∈ file :: later, ∀ entry ∈ listed.entries, entry.Sized)
    (mismatch : MismatchAt generateHash intraUserDupStatList shareDataBuffer file.entries
      position)
    (harmless : core.Harmless generateHash userID file expired) :
    ∃ failed, core.secondStageDedup generateHash stray userID (file :: later)
        intraUserDupStatList shareDataBuffer expired = .error failed ∧
      (failed.shares.globalShareContainerName.drawn < 26 ^ fileNameValidLen →
        core.KeepsRestorable generateHash stray failed ∧
          (core.RecipesWhole generateHash stray → failed.RecipesWhole generateHash stray)) := by
  have mismatched : ∃ failed, core.secondStageDedup generateHash stray userID (file :: later)
        intraUserDupStatList shareDataBuffer expired = .error failed ∧
      core.SameRecipes failed (core.recipeBufferOf generateHash userID).recipeFileName :=
    secondStageDedup_mismatch mismatch harmless
  rcases mismatched with ⟨failed, fails, same⟩
  have shares : (core.perform generateHash stray (.secondStage userID (file :: later)
      intraUserDupStatList shareDataBuffer expired)).Holds fun store buffers =>
        store.globalShareContainerName.drawn < 26 ^ fileNameValidLen →
          core.shares.Grown core.containers store buffers :=
    grown_of_stays reachable harmless.stays sized
  rw [perform, fails, Loop.outcome_error] at shares
  refine ⟨failed, fails, fun left => ⟨?_, same.recipesWhole harmless.unlisted⟩⟩
  intro strayEntry socket memory reader fullFileName age succeeds
  exact restoreShareFile_grown strayEntry socket memory (shares left)
    (same.windows harmless.unlisted reader fullFileName age) succeeds

def interrupted : DedupCore :=
  (empty.perform paddingHash blankHead
    (oneShareCall 1 (oneShareRound [102] 0 0 2 7) 7 fun _ => false)).perform
      paddingHash blankHead (oneShareCall 2 (oneShareRound [103] 0 0 1 8) 8 fun _ => true)

private theorem interrupted_inodeIndex : interrupted.recipes.inodeIndex =
    addFileIntoInodeIndex paddingHash (addFileIntoInodeIndex paddingHash (fun _ => none)
      [47, 102] 1 ⟨.first, 0⟩) [47, 103] 2 ⟨.drawnName 1, 0⟩ := by
  rfl

def restoreNewest (core : DedupCore) : Bool × List (List Byte) :=
  core.restoreShareFile paddingHash blankHead (fun _ => ⟨paddingHash [], 0, 0⟩)
    (fun _ => true) clearedRestoreMemory 1 [102] 0

def sendWrongShare (core : DedupCore) (round : FileShareMD) : Except DedupCore DedupCore :=
  core.secondStageDedup paddingHash blankHead 1 [round] (fun _ => false) (fun _ => 8)
    fun _ => false

/-- The second share of the file is wrong. What was there of the file can be restored as
before. -/
theorem failed_round_harmless_interrupted :
    ∃ failed, interrupted.sendWrongShare (oneShareRound [102] 1 1 2 9) = .error failed ∧
      interrupted.restoreNewest.1 = true ∧
      failed.restoreNewest = interrupted.restoreNewest := by
  have reachable : ReflTransGen (Step paddingHash blankHead) empty interrupted :=
    .tail (.single ⟨_, by decide, rfl⟩) ⟨_, by decide, rfl⟩
  have listed : InodeIndex.AllVersions (fun place => place.recipeFileName ≠ .drawnName 2)
      interrupted.recipes.inodeIndex := by
    rw [interrupted_inodeIndex]
    apply addFileIntoInodeIndex_allVersions
    · apply addFileIntoInodeIndex_allVersions
      · intro inodeFP value place found
        cases found
      · decide +kernel
    · decide +kernel
  have harmless : interrupted.Harmless paddingHash 1 (oneShareRound [102] 1 1 2 9)
      fun _ => false :=
    ⟨by decide, listed, by decide +kernel, fun _ _ => Bool.and_false _⟩
  have mismatch : MismatchAt paddingHash (fun _ => false) (fun _ => 8)
      (oneShareRound [102] 1 1 2 9).entries 0 := ⟨_, rfl, rfl, by decide +kernel⟩
  have sized : ∀ listed ∈ [oneShareRound [102] 1 1 2 9], ∀ entry ∈ listed.entries,
      entry.Sized := by decide
  rcases failed_round_harmless reachable sized mismatch harmless with ⟨failed, fails, keeps⟩
  have left : (Loop.outcome (interrupted.sendWrongShare
      (oneShareRound [102] 1 1 2 9))).shares.globalShareContainerName.drawn <
        26 ^ fileNameValidLen := by decide +kernel
  rw [sendWrongShare, fails] at left
  have restorable : interrupted.restoreNewest.1 = true := by decide +kernel
  exact ⟨failed, fails, restorable, (keeps left).1 _ _ _ _ _ _ restorable⟩

def uploadedOnce : DedupCore :=
  empty.perform paddingHash blankHead
    (oneShareCall 1 (oneShareRound [102] 0 0 1 7) 7 fun _ => false)

/-- A new version of the file with a wrong share takes the place of the old one, and its
head announces a share that is not there. -/
theorem failed_round_hides_version :
    ReflTransGen (Step paddingHash blankHead) empty uploadedOnce ∧
      uploadedOnce.restoreNewest.1 = true ∧
      ∃ failed, uploadedOnce.sendWrongShare (oneShareRound [102] 0 0 1 9) = .error failed ∧
        failed.restoreNewest ≠ uploadedOnce.restoreNewest ∧
        ¬failed.RecipesWhole paddingHash blankHead := by
  refine ⟨.single ⟨_, by decide, rfl⟩, by decide +kernel, _, rfl, by decide +kernel, ?_⟩
  intro whole
  have found := whole 1 [102] 0 ⟨.first, 64⟩ (by decide +kernel) (by decide +kernel)
  exact found (by decide +kernel)

end DedupCore

end MetaDedup.Server
