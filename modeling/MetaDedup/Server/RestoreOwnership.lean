import MetaDedup.Server.DedupIntegrity
import MetaDedup.Server.RecipeFiles
import MetaDedup.Server.ReferenceCounts
import MetaDedup.Server.ShareFileMessages

/-! # Who gets which shares

`restoreShareFile` of `minDedupCore` sends the shares a recipe file names. The recipe
comes from the client, and the reference entries of the share index are not looked at. -/

namespace MetaDedup.Server

open Foundation Wire

/-! ## What a recipe file names -/

def recipeFileEntries : Nat → List Byte → Buffer Byte → List FileRecipeEntry
  | 0, _, _ => []
  | count + 1, file, recipeFileBuffer =>
      if file = [] then []
      else
        let recipeFileBuffer := recipeFileBuffer.write 0 (file.take fileRecipeEntrySize)
        recipeRecordAt recipeFileBuffer ::
          recipeFileEntries count (file.drop fileRecipeEntrySize) recipeFileBuffer

/-- The head of a recipe file. When the file is shorter, the rest is what the buffer had. -/
def recipeFileHead (memory : RestoreMemory) (file : List Byte) : FileRecipeHead :=
  recipeHeadAt (memory.recipeFileBuffer.write 0 (file.take fileRecipeHeadSize))

def announcedShares (memory : RestoreMemory) (file : List Byte) : Nat :=
  (recipeFileHead memory file).numOfShares.toNat

def announcedEntries (memory : RestoreMemory) (file : List Byte) : List FileRecipeEntry :=
  recipeFileEntries (announcedShares memory file) (file.drop fileRecipeHeadSize)
    (memory.recipeFileBuffer.write 0 (file.take fileRecipeHeadSize))

def ShareStore.ownedBy (store : ShareStore) (userID : Int) (entry : FileRecipeEntry) : Bool :=
  (store.shareIndex entry.shareFP).any fun value => (value.reference userID).isSome

namespace MinDedupCore

variable (core : MinDedupCore) (memory : RestoreMemory) (file : List Byte)

/-- The entries of the messages for a recipe file. The first entry whose share is not
available ends the call. -/
def messageEntries : List (List FileRecipeEntry) :=
  packEntries (core.store.restoredItem core.bufferNodes memory.shareContainerCache)
    shareFileHeadSize
    ((announcedEntries memory file).takeWhile (core.store.available core.bufferNodes))

/-- The call returns 1 if the socket works: the file has an entry for every share it
announces, and all the shares are available. -/
def restoresAll : Bool :=
  (announcedEntries memory file).all (core.store.available core.bufferNodes) &&
    !decide ((announcedEntries memory file).length < announcedShares memory file)

/-- The entries whose shares are in the messages that a call has sent. -/
def sentEntries (result : RestoreResult) : List FileRecipeEntry :=
  ((core.messageEntries memory file).take result.sent.length).flatten

/-- The entries whose shares a call sends if the socket works. On an error the last message
is not sent. -/
def deliverableEntries : List FileRecipeEntry :=
  (sentMessages (core.restoresAll memory file) (core.messageEntries memory file)).flatten

/-- The messages that a call has sent have the head of the share file and the shares of the
entries, and nothing else. -/
def CarriesEntries (result : RestoreResult) : Prop :=
  ∃ padding, padding.length = headPaddingSize ∧
    result.sent = ((messagesOf
      (core.store.restoredItem core.bufferNodes memory.shareContainerCache)
      ((recipeFileHead memory file).shareFileHead.bytes padding)
      ((announcedEntries memory file).takeWhile
        (core.store.available core.bufferNodes))).take result.sent.length).map frame

/-! ## What is sent -/

variable (socket : Nat → Bool)

/-- The loop that reads the entries while it restores does what the loop over the entries
does, and ends with an error when the file is too short. -/
theorem restoreEntries_conclude (count : Nat) (file : List Byte)
    (recipeFileBuffer : Buffer Byte) (restoration : Restoration) :
    (core.restoreEntries socket memory count file recipeFileBuffer restoration).bind
        (ShareStore.finishRestore socket) =
      ((recipeFileEntries count file recipeFileBuffer).foldlM
        (core.store.restoreShare core.bufferNodes socket memory.shareContainerCache)
        restoration).bind (concludeRestore socket
          (decide ((recipeFileEntries count file recipeFileBuffer).length < count))) := by
  induction count generalizing file recipeFileBuffer restoration with
  | zero => rfl
  | succ count induction =>
      rw [restoreEntries, recipeFileEntries]
      split
      · rfl
      · simp only [List.foldlM_cons, List.length_cons, Nat.succ_lt_succ_iff]
        cases core.store.restoreShare core.bufferNodes socket memory.shareContainerCache
          restoration _ with
        | error stopped => rfl
        | ok next => exact induction _ _ next

private theorem restoreRecipeFile_sends :
    ∃ padding, padding.length = headPaddingSize ∧
      Sends socket []
        (messagesOf (core.store.restoredItem core.bufferNodes memory.shareContainerCache)
          ((recipeFileHead memory file).shareFileHead.bytes padding)
          ((announcedEntries memory file).takeWhile (core.store.available core.bufferNodes)))
        (core.restoresAll memory file) (core.restoreRecipeFile socket memory file) := by
  have same : core.restoreRecipeFile socket memory file = _ :=
    core.restoreEntries_conclude memory socket _ _ _ _
  rw [same]
  exact restore_sends_start socket _ core.store core.bufferNodes _ _ _ _

private theorem length_messageEntries {padding : List Byte}
    (padded : padding.length = headPaddingSize) :
    (messagesOf (core.store.restoredItem core.bufferNodes memory.shareContainerCache)
      ((recipeFileHead memory file).shareFileHead.bytes padding)
      ((announcedEntries memory file).takeWhile
        (core.store.available core.bufferNodes))).length =
      (core.messageEntries memory file).length := by
  simp [messagesOf, messageEntries, (recipeFileHead memory file).shareFileHead.bytes_length padded]

variable {file} (removes : List Byte → List Byte → Bool) {recipeFiles : RecipeFiles}
  (userID : Int) {name : List Byte}

private theorem restoreShareFile_sent (present : recipeFiles name = some file)
    (nonempty : file ≠ []) :
    (core.restoreShareFile socket memory removes recipeFiles userID name).sent =
      (Loop.outcome (core.restoreRecipeFile socket memory file)).stream.sent := by
  cases file with
  | nil => exact absurd rfl nonempty
  | cons first rest =>
      rw [restoreShareFile, present]
      cases result : core.restoreRecipeFile socket memory (first :: rest) with
      | error restoration => simp only [result, Loop.outcome]
      | ok restoration => simp only [result, Loop.outcome]

private theorem restoreShareFile_sent_nil (absent : (recipeFiles name).getD [] = []) :
    (core.restoreShareFile socket memory removes recipeFiles userID name).sent = [] := by
  rw [restoreShareFile]
  cases found : recipeFiles name with
  | none => rfl
  | some file =>
      rw [found, Option.getD_some] at absent
      rw [absent]

/-- Nothing is listed in an empty file, whatever the buffer had. -/
theorem deliverableEntries_nil : core.deliverableEntries memory [] = [] := by
  have nothing : announcedEntries memory [] = [] := by
    rw [announcedEntries]
    cases announcedShares memory [] with
    | zero => rfl
    | succ count => rfl
  rw [deliverableEntries, messageEntries, nothing]
  cases core.restoresAll memory [] with
  | true => rfl
  | false => rfl

/-- The messages a call has sent carry the entries, and the socket decides how many of the
deliverable ones they are. -/
theorem restoreShareFile_carries (recipeFiles : RecipeFiles) (name : List Byte) :
    let file := (recipeFiles name).getD []
    let result := core.restoreShareFile socket memory removes recipeFiles userID name
    core.CarriesEntries memory file result ∧
      (∀ entry ∈ core.sentEntries memory file result,
        entry ∈ core.deliverableEntries memory file) ∧
      ((∀ call, socket call = true) →
        core.sentEntries memory file result = core.deliverableEntries memory file) := by
  intro file result
  by_cases absent : file = []
  · have nothing : result.sent = [] :=
      core.restoreShareFile_sent_nil memory socket removes userID absent
    refine ⟨⟨List.replicate headPaddingSize 0, List.length_replicate, ?_⟩, ?_, fun _ => ?_⟩
    · rw [nothing]
      rfl
    · simp [sentEntries, nothing]
    · simp [sentEntries, nothing, absent, deliverableEntries_nil]
  · have present : recipeFiles name = some file := by
      cases found : recipeFiles name with
      | none => simp [file, found] at absent
      | some content => simp [file, found]
    rcases core.restoreRecipeFile_sends memory file socket with ⟨padding, padded, sends⟩
    have lengths := core.length_messageEntries memory file padded
    have sent := core.restoreShareFile_sent memory socket removes userID present absent
    rcases sends.sent with ⟨made, begins, same⟩
    rw [List.nil_append] at same
    have count : result.sent.length = made.length := by
      rw [sent, same, List.length_map]
    rw [sentMessages_eq_take] at begins
    have most := begins.length_le
    rw [List.length_take, lengths] at most
    refine ⟨⟨padding, padded, ?_⟩, ?_, fun succeeds => ?_⟩
    · rw [count, ← List.prefix_iff_eq_take.mp (begins.trans (List.take_prefix _ _))]
      exact sent.trans same
    · intro entry member
      rcases List.mem_flatten.mp member with ⟨packet, listed, inside⟩
      rw [count] at listed
      rw [deliverableEntries, sentMessages_eq_take]
      exact List.mem_flatten.mpr ⟨packet,
        (List.take_prefix_take_left (by omega)).subset listed, inside⟩
    · have all := congrArg List.length (sent.trans (sends.all succeeds))
      rw [List.nil_append, List.length_map, sentMessages_eq_take, List.length_take,
        lengths] at all
      rw [sentEntries, deliverableEntries, sentMessages_eq_take, all, Nat.min_eq_left (by omega)]

end MinDedupCore

/-! ## Ownership -/

/-- Every share in the messages that are sent has a reference entry of the user. -/
def RespectsOwnership (core : MinDedupCore) (memory : RestoreMemory) (file : List Byte)
    (userID : Int) (result : RestoreResult) : Prop :=
  ∀ entry ∈ core.sentEntries memory file result, core.store.ownedBy userID entry = true

def uploadedCore : MinDedupCore :=
  MinDedupCore.empty.perform paddingHash
    (oneShareCall 1 (oneShareRound [102] 0 0 1 7) 7 fun _ => false)

/-- A recipe that user 2 makes from the fingerprint of that share. -/
def foreignRecipe : RetrievedRecipeFile where
  userID := 2
  fileSize := 1
  records := [⟨paddingHash [7], 0, 1⟩]
  userPadding := [0, 0, 0, 0]
  endPadding := [0, 0, 0, 0]
  userPadding_size := zeroPadding_size
  endPadding_size := zeroPadding_size
  uploadSize_small := by decide

end MetaDedup.Server
