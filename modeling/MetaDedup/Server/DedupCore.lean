import MetaDedup.Server.BufferLink
import MetaDedup.Server.RecipeStore

/-! # `DedupCore`

The core behind the metadata port. Besides the shares it keeps the recipe of every
file, so a buffer node has a container half and a recipe half. -/

namespace MetaDedup.Server

open Foundation

structure PerUserBufferNode where
  container : ShareContainerBuffer
  recipe : RecipeBuffer

namespace PerUserBufferNode

def userID (node : PerUserBufferNode) : Int := node.container.userID

end PerUserBufferNode

structure DedupCore where
  shares : ShareStore
  recipes : RecipeStore
  bufferNodes : List PerUserBufferNode

structure DedupCursor where
  shares : ShareCursor
  recipes : RecipeStore
  recipe : RecipeBuffer

namespace DedupCursor

variable (generateHash : List Byte → Fingerprint)
variable (stray : List RecipeCell → FileRecipeHead)

def onRecipe (cursor : DedupCursor)
    (step : Except (RecipeStore × RecipeBuffer) (RecipeStore × RecipeBuffer)) :
    Except DedupCursor DedupCursor :=
  match step with
  | .ok (recipes, recipe) => .ok { cursor with recipes := recipes, recipe := recipe }
  | .error (recipes, recipe) => .error { cursor with recipes := recipes, recipe := recipe }

def placeEntry (userID : Int) (intraUserDupStatList : Nat → Bool)
    (shareDataBuffer : Buffer Byte) (cursor : DedupCursor) (entry : ShareMDEntry) :
    Except DedupCursor DedupCursor :=
  match cursor.shares.placeShare generateHash userID intraUserDupStatList shareDataBuffer
      entry with
  | .error shares => .error { cursor with shares := shares }
  | .ok shares =>
      .ok { cursor with shares := shares, recipe := RecipeStore.placeEntry cursor.recipe entry }

variable {generateHash} in
theorem placeEntry_eq_ok {userID : Int} {intraUserDupStatList : Nat → Bool}
    {shareDataBuffer : Buffer Byte} {cursor next : DedupCursor} {entry : ShareMDEntry}
    (placed : cursor.placeEntry generateHash userID intraUserDupStatList shareDataBuffer
      entry = .ok next) :
    ∃ shares, cursor.shares.placeShare generateHash userID intraUserDupStatList
        shareDataBuffer entry = .ok shares ∧
      next = { cursor with
        shares := shares
        recipe := RecipeStore.placeEntry cursor.recipe entry } := by
  rw [placeEntry] at placed
  cases taken : cursor.shares.placeShare generateHash userID intraUserDupStatList
      shareDataBuffer entry with
  | error stopped =>
      rw [taken] at placed
      cases placed
  | ok shares =>
      rw [taken] at placed
      exact ⟨shares, rfl, (Except.ok.inj placed).symm⟩

def placeFile (userID : Int) (intraUserDupStatList : Nat → Bool)
    (shareDataBuffer : Buffer Byte) (cursor : DedupCursor) (file : FileShareMD) :
    Except DedupCursor DedupCursor :=
  match formatFullFileName file.fullName with
  | none => .error cursor
  | some fullFileName => do
      let cursor ← cursor.onRecipe (cursor.recipes.makeRoom stray cursor.recipe file)
      let cursor ← cursor.onRecipe (.ok (cursor.recipes.placeHead generateHash stray
        cursor.recipe fullFileName userID file))
      let cursor ← file.entries.foldlM
        (placeEntry generateHash userID intraUserDupStatList shareDataBuffer) cursor
      cursor.onRecipe (cursor.recipes.finishFile stray cursor.recipe file)

end DedupCursor

namespace DedupCore

variable (generateHash : List Byte → Fingerprint)
variable (stray : List RecipeCell → FileRecipeHead)

def empty : DedupCore := ⟨.empty, .empty, []⟩

/-- The container part is only reached when the recipe part succeeds. -/
def flushBufferNodeIntoDisk (stores : ShareStore × RecipeStore) (node : PerUserBufferNode) :
    Except (ShareStore × RecipeStore) (ShareStore × RecipeStore) :=
  match stores.2.flushRecipeBuffer stray node.recipe with
  | .error recipes => .error (stores.1, recipes)
  | .ok recipes => .ok (stores.1.flushContainer node.container, recipes)

def expires (userID : Int) (expired : PerUserBufferNode → Bool)
    (node : PerUserBufferNode) : Bool :=
  node.userID != userID && expired node

/-- A node whose flush fails is freed all the same. -/
def expire (userID : Int) (expired : PerUserBufferNode → Bool) (core : DedupCore) :
    (ShareStore × RecipeStore) × List PerUserBufferNode :=
  expireNodes (fun stores node => Loop.outcome (flushBufferNodeIntoDisk stray stores node))
    (expires userID expired) (core.shares, core.recipes) core.bufferNodes

/-- The field `lastInodeFP` of a new node is not initialised. It is only read once the
node has a recipe. -/
def newBufferNode (stores : ShareStore × RecipeStore) (userID : Int) :
    (ShareStore × RecipeStore) × PerUserBufferNode :=
  ((stores.1.drawContainerName.2, stores.2.drawRecipeFileName.2),
    { container := ⟨userID, stores.1.drawContainerName.1, []⟩
      recipe :=
        { recipeFileName := stores.2.drawRecipeFileName.1
          recipeFileBuffer := []
          lastRecipeHeadPos := 0
          lastInodeFP := generateHash [] } })

def findOrCreateBufferNode (core : DedupCore) (userID : Int)
    (expired : PerUserBufferNode → Bool) :
    (ShareStore × RecipeStore) × LinkedNode PerUserBufferNode :=
  let walked := core.expire stray userID expired
  match findUserNode PerUserBufferNode.userID userID walked.2 with
  | some found => (walked.1, found)
  | none =>
      let created := newBufferNode generateHash walked.1 userID
      (created.1, .atEnd walked.2 created.2)

def openCursor (opened : (ShareStore × RecipeStore) × LinkedNode PerUserBufferNode) :
    DedupCursor :=
  ⟨⟨opened.1.1, opened.2.target.container, 0, 0⟩, opened.1.2, opened.2.target.recipe⟩

def closeCursor (opened : (ShareStore × RecipeStore) × LinkedNode PerUserBufferNode)
    (cursor : DedupCursor) : DedupCore :=
  ⟨cursor.shares.store, cursor.recipes,
    (opened.2.setTarget ⟨cursor.shares.buffer, cursor.recipe⟩).link⟩

def secondStageDedup (core : DedupCore) (userID : Int) (package : List FileShareMD)
    (intraUserDupStatList : Nat → Bool) (shareDataBuffer : Buffer Byte)
    (expired : PerUserBufferNode → Bool) : Except DedupCore DedupCore :=
  let opened := core.findOrCreateBufferNode generateHash stray userID expired
  match package.foldlM
      (DedupCursor.placeFile generateHash stray userID intraUserDupStatList shareDataBuffer)
      (openCursor opened) with
  | .ok cursor => .ok (closeCursor opened cursor)
  | .error cursor => .error (closeCursor opened cursor)

def firstStageDedup (core : DedupCore) (userID : Int) (package : List FileShareMD) :
    DedupCore × FirstStageReply :=
  let report := core.shares.firstStageDedup userID package
  ({ core with shares := report.1 }, report.2)

def perform (core : DedupCore) : StageCall PerUserBufferNode → DedupCore
  | .firstStage userID package => (core.firstStageDedup userID package).1
  | .secondStage userID package intraUserDupStatList shareDataBuffer expired =>
      Loop.outcome (core.secondStageDedup generateHash stray userID package
        intraUserDupStatList shareDataBuffer expired)

def containers (core : DedupCore) : List ShareContainerBuffer :=
  core.bufferNodes.map PerUserBufferNode.container

/-! ## Reading a recipe back -/

/-- The recipe buffer of the first node of the user, if it carries the recipe file's
name. -/
def readRecipeFileFromBuffer (core : DedupCore) (userID : Int)
    (recipeFileName : InternalFileName) : Option (List RecipeCell) :=
  (core.bufferNodes.find? fun node => node.userID == userID).bind fun node =>
    if node.recipe.recipeFileName = recipeFileName then some node.recipe.recipeFileBuffer
    else none

/-- The recipe buffer if it has the name, and the recipe file otherwise. Reading an
empty file fails. -/
def readRecipeFile (core : DedupCore) (userID : Int) (recipeFileName : InternalFileName) :
    Option (List RecipeCell) :=
  (core.readRecipeFileFromBuffer userID recipeFileName).or
    ((core.recipes.recipeFiles recipeFileName).filter (· ≠ []))

def readRecipeEntries (cells : List RecipeCell) : Nat → Option (List FileRecipeEntry)
  | 0 => some []
  | count + 1 =>
      match cells.head? with
      | some (.entry entry) =>
          if cells.take fileRecipeEntrySize = entryCells entry then
            (readRecipeEntries (cells.drop fileRecipeEntrySize) count).map (entry :: ·)
          else none
      | _ => none

/-- The recipe at a place, as `restoreShareFile` reads it: the head and as many entries
as it announces. -/
def readRecipe (core : DedupCore) (userID : Int) (place : InodeFileEntry) :
    Option (FileRecipeHead × List FileRecipeEntry) :=
  (core.readRecipeFile userID place.recipeFileName).bind fun cells =>
    let head := readRecipeHead stray cells place.recipeFileOffset
    (readRecipeEntries (cells.drop (place.recipeFileOffset + fileRecipeHeadSize))
      head.numOfShares.toNat).map fun entries => (head, entries)

/-- The recipe `restoreShareFile` works on for a version of a file, counted back from
the newest. -/
def restoreRecipe (core : DedupCore) (userID : Int) (fullFileName : List Byte)
    (age : Nat) : Option (FileRecipeHead × List FileRecipeEntry) := do
  let name ← formatFullFileName fullFileName
  let value ← core.recipes.inodeIndex (fileName2InodeFP generateHash name userID)
  if age ≥ value.numOfChildren then none
  else
    let place ← value.version age
    core.readRecipe stray userID place

/-! ## What the calls preserve in the share store -/

section Preservation

variable {generateHash} {stray}
variable {property : ShareStore → List ShareContainerBuffer → Prop}
variable {guard : ShareStore × RecipeStore → PerUserBufferNode → Prop}

def Holds (property : ShareStore → List ShareContainerBuffer → Prop)
    (core : DedupCore) : Prop :=
  property core.shares core.containers

/-- Every node that expires during the call meets `guard` when the walk comes to it. -/
def ExpiryMeets (stray : List RecipeCell → FileRecipeHead)
    (guard : ShareStore × RecipeStore → PerUserBufferNode → Prop) (core : DedupCore) :
    StageCall PerUserBufferNode → Prop
  | .firstStage _ _ => True
  | .secondStage userID _ _ _ expired =>
      WalkMeets (fun stores node => Loop.outcome (flushBufferNodeIntoDisk stray stores node))
        (expires userID expired) guard (core.shares, core.recipes) core.bufferNodes

instance [∀ stores node, Decidable (guard stores node)] (core : DedupCore) :
    (call : StageCall PerUserBufferNode) → Decidable (core.ExpiryMeets stray guard call)
  | .firstStage _ _ => .isTrue trivial
  | .secondStage _ _ _ _ _ => decidableWalkMeets _ _ _ _ _

theorem expiryMeets_of_forall (all : ∀ stores node, guard stores node) (core : DedupCore)
    (call : StageCall PerUserBufferNode) : core.ExpiryMeets stray guard call := by
  cases call with
  | firstStage userID package => trivial
  | secondStage userID package intraUserDupStatList shareDataBuffer expired =>
      exact walkMeets_of_forall _ _ all _ _

def otherContainers (opened : (ShareStore × RecipeStore) × LinkedNode PerUserBufferNode) :
    List ShareContainerBuffer :=
  opened.2.others.map PerUserBufferNode.container

def AtCursor (property : ShareStore → List ShareContainerBuffer → Prop)
    (rest : List ShareContainerBuffer) (cursor : DedupCursor) : Prop :=
  ShareStore.Preserved.AtCursor property rest cursor.shares

private theorem findOrCreateBufferNode_preserved
    (preserved : ShareStore.Preserved generateHash property)
    (free : ∀ stores node rest, guard stores node →
      property stores.1 (node.container :: rest) →
      property (Loop.outcome (flushBufferNodeIntoDisk stray stores node)).1 rest)
    {core : DedupCore} (holds : core.Holds property) {userID : Int}
    {expired : PerUserBufferNode → Bool}
    (meets : WalkMeets
      (fun stores node => Loop.outcome (flushBufferNodeIntoDisk stray stores node))
      (expires userID expired) guard (core.shares, core.recipes) core.bufferNodes) :
    AtCursor property
      (otherContainers (core.findOrCreateBufferNode generateHash stray userID expired))
      (openCursor (core.findOrCreateBufferNode generateHash stray userID expired)) := by
  have walked : property (core.expire stray userID expired).1.1
      ((core.expire stray userID expired).2.map PerUserBufferNode.container) := by
    refine expireNodes_invariant _ (expires userID expired) guard
      (fun stores nodes => property stores.1 (nodes.map PerUserBufferNode.container))
      ?_ ?_ _ _ meets holds
    · intro stores nodes reordered permuted
      exact preserved.perm (permuted.symm.map _)
    · intro stores node rest _ nodeMeets
      exact free stores node _ nodeMeets
  rw [findOrCreateBufferNode]
  generalize core.expire stray userID expired = kept at walked
  cases located : findUserNode PerUserBufferNode.userID userID kept.2 with
  | some found =>
      rw [← (findUserNode_some located).1] at walked
      exact preserved.perm (found.link_perm.symm.map PerUserBufferNode.container) walked
  | none =>
      simp only [openCursor, otherContainers, LinkedNode.atEnd_others]
      exact preserved.create userID walked

variable {rest : List ShareContainerBuffer}

private theorem onRecipe_preserved {cursor : DedupCursor} (holds : AtCursor property rest cursor)
    (step : Except (RecipeStore × RecipeBuffer) (RecipeStore × RecipeBuffer)) :
    AtCursor property rest (Loop.outcome (cursor.onRecipe step)) := by
  cases step <;> exact holds

private theorem placeEntry_preserved (preserved : ShareStore.Preserved generateHash property)
    (userID : Int) (intraUserDupStatList : Nat → Bool)
    (shareDataBuffer : Buffer Byte) {entry : ShareMDEntry} (sized : entry.Sized)
    (cursor : DedupCursor) (holds : AtCursor property rest cursor) :
    AtCursor property rest (Loop.outcome (cursor.placeEntry generateHash userID
      intraUserDupStatList shareDataBuffer entry)) := by
  have placed := preserved.placeShare userID intraUserDupStatList shareDataBuffer sized
    cursor.shares holds
  rw [DedupCursor.placeEntry]
  cases result : cursor.shares.placeShare generateHash userID intraUserDupStatList
      shareDataBuffer entry with
  | error shares =>
      rw [result] at placed
      exact placed
  | ok shares =>
      rw [result] at placed
      exact placed

private theorem placeFile_preserved (preserved : ShareStore.Preserved generateHash property)
    (userID : Int) (intraUserDupStatList : Nat → Bool)
    (shareDataBuffer : Buffer Byte) {file : FileShareMD}
    (sized : ∀ entry ∈ file.entries, entry.Sized) (cursor : DedupCursor)
    (holds : AtCursor property rest cursor) :
    AtCursor property rest (Loop.outcome (cursor.placeFile generateHash stray userID
      intraUserDupStatList shareDataBuffer file)) := by
  rw [DedupCursor.placeFile]
  cases formatFullFileName file.fullName with
  | none => exact holds
  | some fullFileName =>
      apply Loop.bind_outcome (AtCursor property rest) (onRecipe_preserved holds _)
      intro cursor holds
      apply Loop.bind_outcome (AtCursor property rest) (onRecipe_preserved holds _)
      intro cursor holds
      apply Loop.bind_outcome (AtCursor property rest)
      · exact Loop.foldlM_outcome _ _ file.entries
          (fun entry member => placeEntry_preserved preserved userID intraUserDupStatList
            shareDataBuffer (sized entry member)) cursor holds
      · intro cursor holds
        exact onRecipe_preserved holds _

theorem outcome_secondStageDedup (core : DedupCore) (userID : Int)
    (package : List FileShareMD) (intraUserDupStatList : Nat → Bool)
    (shareDataBuffer : Buffer Byte) (expired : PerUserBufferNode → Bool) :
    Loop.outcome (core.secondStageDedup generateHash stray userID package
      intraUserDupStatList shareDataBuffer expired) =
    closeCursor (core.findOrCreateBufferNode generateHash stray userID expired)
      (Loop.outcome (package.foldlM
        (DedupCursor.placeFile generateHash stray userID intraUserDupStatList
          shareDataBuffer)
        (openCursor (core.findOrCreateBufferNode generateHash stray userID expired)))) := by
  rw [secondStageDedup]
  cases package.foldlM
    (DedupCursor.placeFile generateHash stray userID intraUserDupStatList shareDataBuffer)
    (openCursor (core.findOrCreateBufferNode generateHash stray userID expired)) <;> rfl

theorem perform_preserved (preserved : ShareStore.Preserved generateHash property)
    (free : ∀ stores node rest, guard stores node →
      property stores.1 (node.container :: rest) →
      property (Loop.outcome (flushBufferNodeIntoDisk stray stores node)).1 rest)
    {core : DedupCore} (holds : core.Holds property)
    {call : StageCall PerUserBufferNode} (sized : call.Sized)
    (meets : core.ExpiryMeets stray guard call) :
    (core.perform generateHash stray call).Holds property := by
  cases call with
  | firstStage userID package => exact preserved.firstStageDedup holds userID package
  | secondStage userID package intraUserDupStatList shareDataBuffer expired =>
      have placed := Loop.foldlM_outcome
        (DedupCursor.placeFile generateHash stray userID intraUserDupStatList
          shareDataBuffer) _ package
        (fun file member => placeFile_preserved preserved userID intraUserDupStatList
          shareDataBuffer (sized file member))
        _ (findOrCreateBufferNode_preserved preserved free holds meets)
      rw [perform, outcome_secondStageDedup]
      exact preserved.perm ((LinkedNode.link_perm _).map PerUserBufferNode.container) placed

end Preservation

end DedupCore

end MetaDedup.Server
