import Mathlib.Logic.Relation
import MetaDedup.Server.BufferLink

/-! # `minDedupCore`

The core behind the data port. It keeps shares only: a buffer node is a container
buffer, and a package only names the shares to be stored. -/

namespace MetaDedup.Server

open Foundation

structure MinDedupCore where
  store : ShareStore
  bufferNodes : List ShareContainerBuffer

namespace MinDedupCore

variable (generateHash : List Byte → Fingerprint)

def empty : MinDedupCore := ⟨.empty, []⟩

def expires (userID : Int) (expired : ShareContainerBuffer → Bool)
    (node : ShareContainerBuffer) : Bool :=
  node.userID != userID && expired node

/-- `flushBufferNodeIntoDisk_` is the container part alone and returns 1. -/
def findOrCreateBufferNode (core : MinDedupCore) (userID : Int)
    (expired : ShareContainerBuffer → Bool) :
    ShareStore × LinkedNode ShareContainerBuffer :=
  let walked := expireNodes ShareStore.flushContainer (expires userID expired) core.store
    core.bufferNodes
  match findUserNode ShareContainerBuffer.userID userID walked.2 with
  | some found => (walked.1, found)
  | none =>
      (walked.1.drawContainerName.2,
        .atEnd walked.2 ⟨userID, walked.1.drawContainerName.1, []⟩)

def placeFile (userID : Int) (intraUserDupStatList : Nat → Bool)
    (shareDataBuffer : Buffer Byte) (cursor : ShareCursor) (file : FileShareMD) :
    Except ShareCursor ShareCursor :=
  match formatFullFileName file.fullName with
  | none => .error cursor
  | some _ =>
      file.entries.foldlM
        (ShareCursor.placeShare generateHash userID intraUserDupStatList shareDataBuffer)
        cursor

def openCursor (opened : ShareStore × LinkedNode ShareContainerBuffer) : ShareCursor :=
  ⟨opened.1, opened.2.target, 0, 0⟩

def closeCursor (opened : ShareStore × LinkedNode ShareContainerBuffer)
    (cursor : ShareCursor) : MinDedupCore :=
  ⟨cursor.store, (opened.2.setTarget cursor.buffer).link⟩

def secondStageDedup (core : MinDedupCore) (userID : Int) (package : List FileShareMD)
    (intraUserDupStatList : Nat → Bool) (shareDataBuffer : Buffer Byte)
    (expired : ShareContainerBuffer → Bool) : Except MinDedupCore MinDedupCore :=
  let opened := core.findOrCreateBufferNode userID expired
  match package.foldlM (placeFile generateHash userID intraUserDupStatList shareDataBuffer)
      (openCursor opened) with
  | .ok cursor => .ok (closeCursor opened cursor)
  | .error cursor => .error (closeCursor opened cursor)

def firstStageDedup (core : MinDedupCore) (userID : Int) (package : List FileShareMD) :
    MinDedupCore × FirstStageReply :=
  let report := core.store.firstStageDedup userID package
  ({ core with store := report.1 }, report.2)

def perform (core : MinDedupCore) : StageCall ShareContainerBuffer → MinDedupCore
  | .firstStage userID package => (core.firstStageDedup userID package).1
  | .secondStage userID package intraUserDupStatList shareDataBuffer expired =>
      Loop.outcome (core.secondStageDedup generateHash userID package
        intraUserDupStatList shareDataBuffer expired)

def Step (core next : MinDedupCore) : Prop :=
  ∃ call : StageCall ShareContainerBuffer, call.Sized ∧
    next = core.perform generateHash call

/-! ## What the calls preserve -/

section Preservation

variable {generateHash}
variable {property : ShareStore → List ShareContainerBuffer → Prop}

def Holds (property : ShareStore → List ShareContainerBuffer → Prop)
    (core : MinDedupCore) : Prop :=
  property core.store core.bufferNodes

variable {core : MinDedupCore}

private theorem findOrCreateBufferNode_preserved
    (preserved : ShareStore.Preserved generateHash property)
    (holds : core.Holds property) (userID : Int) (expired : ShareContainerBuffer → Bool) :
    ShareStore.Preserved.AtCursor property
      (core.findOrCreateBufferNode userID expired).2.others
      (openCursor (core.findOrCreateBufferNode userID expired)) := by
  have walked := expireNodes_invariant ShareStore.flushContainer (expires userID expired)
    (fun _ _ => True) property (fun _ _ _ permuted => preserved.perm permuted.symm)
    (fun _ _ _ _ _ => preserved.flush) core.store core.bufferNodes
    (walkMeets_of_forall _ _ (fun _ _ => trivial) _ _) holds
  rw [findOrCreateBufferNode]
  generalize expireNodes ShareStore.flushContainer (expires userID expired) core.store
    core.bufferNodes = kept at walked
  cases located : findUserNode ShareContainerBuffer.userID userID kept.2 with
  | some found =>
      rw [← (findUserNode_some located).1] at walked
      exact preserved.perm found.link_perm.symm walked
  | none =>
      simp only [openCursor, LinkedNode.atEnd_others]
      exact preserved.create userID walked

private theorem placeFile_preserved (preserved : ShareStore.Preserved generateHash property)
    {rest : List ShareContainerBuffer} (userID : Int) (intraUserDupStatList : Nat → Bool)
    (shareDataBuffer : Buffer Byte) {file : FileShareMD}
    (sized : ∀ entry ∈ file.entries, entry.Sized) (cursor : ShareCursor)
    (holds : ShareStore.Preserved.AtCursor property rest cursor) :
    ShareStore.Preserved.AtCursor property rest (Loop.outcome (placeFile generateHash
      userID intraUserDupStatList shareDataBuffer cursor file)) := by
  rw [placeFile]
  cases formatFullFileName file.fullName with
  | none => exact holds
  | some name =>
      exact Loop.foldlM_outcome _ _ file.entries
        (fun entry member => preserved.placeShare userID intraUserDupStatList
          shareDataBuffer (sized entry member)) cursor holds

theorem outcome_secondStageDedup (core : MinDedupCore) (userID : Int)
    (package : List FileShareMD) (intraUserDupStatList : Nat → Bool)
    (shareDataBuffer : Buffer Byte) (expired : ShareContainerBuffer → Bool) :
    Loop.outcome (core.secondStageDedup generateHash userID package intraUserDupStatList
      shareDataBuffer expired) =
    closeCursor (core.findOrCreateBufferNode userID expired)
      (Loop.outcome (package.foldlM
        (placeFile generateHash userID intraUserDupStatList shareDataBuffer)
        (openCursor (core.findOrCreateBufferNode userID expired)))) := by
  rw [secondStageDedup]
  cases package.foldlM (placeFile generateHash userID intraUserDupStatList shareDataBuffer)
    (openCursor (core.findOrCreateBufferNode userID expired)) <;> rfl

private theorem perform_preserved (preserved : ShareStore.Preserved generateHash property)
    (holds : core.Holds property)
    {call : StageCall ShareContainerBuffer} (sized : call.Sized) :
    (core.perform generateHash call).Holds property := by
  cases call with
  | firstStage userID package => exact preserved.firstStageDedup holds userID package
  | secondStage userID package intraUserDupStatList shareDataBuffer expired =>
      have placed := Loop.foldlM_outcome
        (placeFile generateHash userID intraUserDupStatList shareDataBuffer) _ package
        (fun file member => placeFile_preserved preserved userID intraUserDupStatList
          shareDataBuffer (sized file member))
        _ (findOrCreateBufferNode_preserved preserved holds userID expired)
      rw [perform, outcome_secondStageDedup]
      exact preserved.perm (LinkedNode.link_perm _) placed

theorem reachable_preserved (preserved : ShareStore.Preserved generateHash property)
    {start : MinDedupCore} (holds : start.Holds property)
    (reachable : Relation.ReflTransGen (Step generateHash) start core) :
    core.Holds property := by
  induction reachable with
  | refl => exact holds
  | tail _ step induction =>
      rcases step with ⟨call, sized, rfl⟩
      exact perform_preserved preserved induction sized

end Preservation

end MinDedupCore

end MetaDedup.Server
