import MetaDedup.Server.DedupCore
import MetaDedup.Server.MinDedupCore
import MetaDedup.Server.ShareIntegrity

/-! # Integrity of both cores

In `DedupCore` a node that expires is freed even if its flush fails, and the flush
gives up before it reaches the container when the recipe part fails. The shares of
such a node are lost. Integrity holds in every run in which this does not happen. -/

namespace MetaDedup.Server

open Foundation Relation

namespace RecipeStore

/-- The recipe part of a flush can be carried out: there is no recipe in the buffer,
or its last head is not at the start, or the inode index has a version of the last
file, and either its recipe file is still empty and the recipe belongs at its start,
or the file reaches beyond the head of the recipe and the buffer has entries to
append. -/
def Flushable (recipes : RecipeStore) (buffer : RecipeBuffer) : Prop :=
  buffer.recipeFileBuffer = [] ∨ buffer.lastRecipeHeadPos ≠ 0 ∨
    ∃ entry ∈ recipes.findOldRecipeFile buffer,
      (recipes.fileCells entry.recipeFileName = [] ∧ entry.recipeFileOffset = 0) ∨
        (recipes.fileCells entry.recipeFileName ≠ [] ∧
          entry.recipeFileOffset + fileRecipeHeadSize ≤
            (recipes.fileCells entry.recipeFileName).length ∧
          fileRecipeHeadSize < buffer.recipeFileBuffer.length)

instance (recipes : RecipeStore) (buffer : RecipeBuffer) :
    Decidable (recipes.Flushable buffer) :=
  inferInstanceAs (Decidable (_ ∨ _ ∨ _))

private theorem appendEntries_isSome_iff (stray : List RecipeCell → FileRecipeHead)
    (file : List RecipeCell) (offset : Nat) (buffer : List RecipeCell) :
    (∃ appended, appendEntries stray file offset buffer = some appended) ↔
      offset + fileRecipeHeadSize ≤ file.length ∧ fileRecipeHeadSize < buffer.length := by
  rw [appendEntries]
  by_cases short : file.length < offset + fileRecipeHeadSize
  · rw [if_pos short]
    simp only [reduceCtorEq, exists_false, false_iff]
    omega
  · rw [if_neg short]
    by_cases nothing : buffer.drop fileRecipeHeadSize = []
    · rw [if_pos nothing]
      rw [List.drop_eq_nil_iff] at nothing
      simp only [reduceCtorEq, exists_false, false_iff]
      omega
    · rw [if_neg nothing]
      rw [List.drop_eq_nil_iff] at nothing
      simp only [Option.some.injEq, exists_eq', true_iff]
      omega

private theorem flushRecipeBuffer_ok_iff (stray : List RecipeCell → FileRecipeHead)
    (recipes : RecipeStore) (buffer : RecipeBuffer) :
    (∃ flushed, recipes.flushRecipeBuffer stray buffer = .ok flushed) ↔
      recipes.Flushable buffer := by
  rw [flushRecipeBuffer, Flushable]
  by_cases nothing : buffer.recipeFileBuffer = []
  · simp [nothing]
  · by_cases start : buffer.lastRecipeHeadPos = 0
    · simp only [nothing, start, if_false, if_true, false_or, ne_eq, not_true_eq_false]
      cases old : recipes.findOldRecipeFile buffer with
      | none => simp
      | some entry =>
          simp only [Option.mem_def, Option.some.injEq, exists_eq_left']
          have appends := appendEntries_isSome_iff stray
            (recipes.fileCells entry.recipeFileName) entry.recipeFileOffset
            buffer.recipeFileBuffer
          by_cases missing : recipes.fileCells entry.recipeFileName = []
          · by_cases begins : entry.recipeFileOffset = 0
            · simp [missing, begins]
            · simp [missing, begins]
          · simp only [missing, if_false, false_and, not_false_eq_true, true_and, false_or]
            rw [← appends]
            cases appendEntries stray (recipes.fileCells entry.recipeFileName)
              entry.recipeFileOffset buffer.recipeFileBuffer <;> simp
    · simp [nothing, start]

end RecipeStore

namespace DedupCore

variable {generateHash : List Byte → Fingerprint}
variable {stray : List RecipeCell → FileRecipeHead}

/-- A node that holds shares can be flushed. -/
def FlushesShares (stores : ShareStore × RecipeStore) (node : PerUserBufferNode) : Prop :=
  0 < node.container.shareContainerBuffer.length → stores.2.Flushable node.recipe

instance (stores : ShareStore × RecipeStore) (node : PerUserBufferNode) :
    Decidable (FlushesShares stores node) :=
  inferInstanceAs (Decidable (_ → _))

/-- Every node with shares that expires during the call can be flushed when the walk
comes to it. -/
def ExpiryFlushes (stray : List RecipeCell → FileRecipeHead) (core : DedupCore)
    (call : StageCall PerUserBufferNode) : Prop :=
  core.ExpiryMeets stray FlushesShares call

instance (stray : List RecipeCell → FileRecipeHead) (core : DedupCore)
    (call : StageCall PerUserBufferNode) : Decidable (core.ExpiryFlushes stray call) :=
  inferInstanceAs (Decidable (core.ExpiryMeets stray FlushesShares call))

def Step (generateHash : List Byte → Fingerprint)
    (stray : List RecipeCell → FileRecipeHead) (core next : DedupCore) : Prop :=
  ∃ call : StageCall PerUserBufferNode, call.Sized ∧
    next = core.perform generateHash stray call

/-- One such call that loses no node with shares. -/
def FlushingStep (generateHash : List Byte → Fingerprint)
    (stray : List RecipeCell → FileRecipeHead) (core next : DedupCore) : Prop :=
  ∃ call : StageCall PerUserBufferNode, call.Sized ∧ core.ExpiryFlushes stray call ∧
    next = core.perform generateHash stray call

private theorem outcome_flushBufferNodeIntoDisk_shares {stores : ShareStore × RecipeStore}
    {node : PerUserBufferNode} (flushes : FlushesShares stores node) :
    (Loop.outcome (flushBufferNodeIntoDisk stray stores node)).1 =
      stores.1.flushContainer node.container := by
  rw [flushBufferNodeIntoDisk]
  cases result : stores.2.flushRecipeBuffer stray node.recipe with
  | ok recipes => rfl
  | error recipes =>
      -- The recipe part has failed, so there are no shares in the node.
      have stuck : ¬stores.2.Flushable node.recipe := by
        rw [← RecipeStore.flushRecipeBuffer_ok_iff stray, result]
        simp
      have none : ¬0 < node.container.shareContainerBuffer.length := fun shares =>
        stuck (flushes shares)
      simp [ShareStore.flushContainer, none]

theorem flushing_preserved {property : ShareStore → List ShareContainerBuffer → Prop}
    (preserved : ShareStore.Preserved generateHash property) {start core : DedupCore}
    (holds : start.Holds property)
    (reachable : ReflTransGen (FlushingStep generateHash stray) start core) :
    core.Holds property := by
  induction reachable with
  | refl => exact holds
  | tail _ step induction =>
      rcases step with ⟨call, sized, flushes, rfl⟩
      refine perform_preserved preserved ?_ induction sized flushes
      intro stores node rest flushed held
      rw [outcome_flushBufferNodeIntoDisk_shares flushed]
      exact preserved.flush held

theorem intact_of_reachable {core : DedupCore}
    (reachable : ReflTransGen (FlushingStep generateHash stray) empty core) :
    core.Holds (ShareStore.Intact generateHash) :=
  flushing_preserved ShareStore.intact_preserved (fun _ => ShareStore.invariant_empty) reachable

end DedupCore

/-! ## Sample rounds -/

/-- A hash to run the model with: the data itself, padded or cut to size. -/
def paddingHash (data : List Byte) : Fingerprint :=
  ⟨(data ++ List.replicate fpSize 0).take fpSize, by simp⟩

def blankHead (_ : List RecipeCell) : FileRecipeHead := ⟨0, 0, 0⟩

def oneShareRound (fullName : List Byte) (numOfPastSecrets sizeOfPastSecrets fileSize : Int)
    (byte : Byte) : FileShareMD where
  fullName := fullName
  fileSize := fileSize
  numOfPastSecrets := numOfPastSecrets
  sizeOfPastSecrets := sizeOfPastSecrets
  numOfComingSecrets := 1
  sizeOfComingSecrets := 1
  entries := [⟨paddingHash [byte], 0, 1, 1⟩]
  entries_length := rfl

def oneShareCall {Node : Type} (userID : Int) (round : FileShareMD) (byte : Byte)
    (expired : Node → Bool) : StageCall Node :=
  .secondStage userID [round] (fun _ => false) (fun _ => byte) expired

/-- User 1 stores a share. Then a call of user 2 finds the node of user 1 expired. -/
def sampleMinCore : MinDedupCore :=
  (MinDedupCore.empty.perform paddingHash
    (oneShareCall 1 (oneShareRound [102] 0 0 1 7) 7 fun _ => false)).perform paddingHash
      (oneShareCall 2 (oneShareRound [103] 0 0 1 8) 8 fun _ => true)

theorem sampleMinCore_reachable :
    ReflTransGen (MinDedupCore.Step paddingHash) .empty sampleMinCore :=
  .tail (.single ⟨_, by decide, rfl⟩) ⟨_, by decide, rfl⟩

/-- The same calls. The node of user 1 is flushed. -/
def sampleCore : DedupCore :=
  (DedupCore.empty.perform paddingHash blankHead
    (oneShareCall 1 (oneShareRound [102] 0 0 1 7) 7 fun _ => false)).perform paddingHash
      blankHead (oneShareCall 2 (oneShareRound [103] 0 0 1 8) 8 fun _ => true)

theorem sampleCore_reachable :
    ReflTransGen (DedupCore.FlushingStep paddingHash blankHead) .empty sampleCore :=
  .tail (.single ⟨_, by decide, by decide +kernel, rfl⟩) ⟨_, by decide, by decide +kernel, rfl⟩

/-- In every run of `minDedupCore`, and in every run of `DedupCore` in which each
expiring node that holds shares can be flushed, every share index entry resolves to
bytes that hash to its fingerprint. -/
theorem shares_resolve (generateHash : List Byte → Fingerprint)
    (stray : List RecipeCell → FileRecipeHead) :
    (∀ core, ReflTransGen (MinDedupCore.Step generateHash) .empty core →
      core.store.globalShareContainerName.drawn < 26 ^ fileNameValidLen →
      core.store.Integrity generateHash core.bufferNodes) ∧
    ∀ core, ReflTransGen (DedupCore.FlushingStep generateHash stray) .empty core →
      core.shares.globalShareContainerName.drawn < 26 ^ fileNameValidLen →
      core.shares.Integrity generateHash core.containers := by
  constructor
  · intro core reachable left
    have intact := MinDedupCore.reachable_preserved ShareStore.intact_preserved
      (fun _ => ShareStore.invariant_empty) reachable
    exact (intact left).integrity
  · intro core reachable left
    exact (DedupCore.intact_of_reachable reachable left).integrity

theorem shares_resolve_sample :
    sampleMinCore.store.Integrity paddingHash sampleMinCore.bufferNodes ∧
      sampleCore.shares.Integrity paddingHash sampleCore.containers :=
  ⟨(shares_resolve paddingHash blankHead).1 _ sampleMinCore_reachable (by decide +kernel),
    (shares_resolve paddingHash blankHead).2 _ sampleCore_reachable (by decide +kernel)⟩

namespace DedupCore

/-- User 1 sends a round that claims to continue a file, but no round has begun it.
Then a call of user 2 finds the node of user 1 expired. -/
def afterLostExpiry : DedupCore :=
  (empty.perform paddingHash blankHead
    (oneShareCall 1 (oneShareRound [102] 5 5 10 7) 7 fun _ => false)).perform
      paddingHash blankHead
      (oneShareCall 2 (oneShareRound [103] 0 0 1 8) 8 fun _ => true)

end DedupCore

/-- The share of user 1 is in the index, but neither in a buffer nor in a file. -/
theorem share_lost_with_expired_node :
    ∃ core, ReflTransGen (DedupCore.Step paddingHash blankHead) .empty core ∧
      core.shares.globalShareContainerName.drawn < 26 ^ fileNameValidLen ∧
      ¬core.shares.Integrity paddingHash core.containers := by
  refine ⟨DedupCore.afterLostExpiry, ?_, by decide +kernel, ?_⟩
  · refine .tail (.tail .refl ⟨_, ?_, rfl⟩) ⟨_, ?_, rfl⟩
    · decide
    · decide
  · intro integrity
    have listed : DedupCore.afterLostExpiry.shares.shareIndex (paddingHash [7]) =
        some ⟨.first, 0, 1, 1, [⟨1, 1⟩]⟩ := by
      decide +kernel
    have unreadable : DedupCore.afterLostExpiry.shares.readShare
        DedupCore.afterLostExpiry.containers ⟨.first, 0, 1, 1, [⟨1, 1⟩]⟩ = none := by
      decide +kernel
    rcases integrity _ _ listed with ⟨share, found, _⟩
    cases unreadable.symm.trans found

end MetaDedup.Server
