import MetaDedup.Upload.Protocol

/-! # The server during an upload

The rounds of an upload as the server sees them, and what they add to the share
index. -/

namespace MetaDedup.Upload

open Foundation Wire Uploader
open Server (Fingerprint FileShareMD ShareMDEntry DataRequest DataConnection MinDedupCore
  ShareContainerBuffer ShareStore uniqueData tally)

/-! ## Rounds and events -/

/-- The data of a round that a status list asks for. -/
def roundBody (round : List ShareObject) (flags : List Bool) : List Byte :=
  uniqueData (round.map ShareObject.data) flags

/-- A first stage has read the shares of a round, in order, and returned a flag for each
of them. -/
def Reported (round : List ShareObject) (flags : List Bool) (event : Event) : Prop :=
  ∃ file : FileShareMD, event = .firstStage [file] flags ∧
    file.entries = round.map entry ∧ flags.length = round.length

/-- A second stage was given the data of exactly the shares without the flag, has taken
all of it and has returned 1. -/
def Stored (round : List ShareObject) (flags : List Bool) (event : Event) : Prop :=
  event = .secondStage (roundBody round flags) (roundBody round flags).length true

/-- The events of some rounds from the first to the last stage. -/
inductive Completed : List (List ShareObject) → List Event → Prop
  | none : Completed [] []
  | round {done : List (List ShareObject)} {events : List Event} {round : List ShareObject}
      {flags : List Bool} {first second : Event} (earlier : Completed done events)
      (reported : Reported round flags first) (stored : Stored round flags second) :
      Completed (done ++ [round]) (events ++ [first] ++ [second])

/-- The events of the first of some rounds, of which the last may have gone through the
first stage only. -/
def Agrees (rounds : List (List ShareObject)) (events : List Event) : Prop :=
  (∃ done left, rounds = done ++ left ∧ Completed done events) ∨
    ∃ done round left earlier flags first, rounds = done ++ round :: left ∧
      events = earlier ++ [first] ∧ Completed done earlier ∧ Reported round flags first

def occurrences (shareFP : Fingerprint) (shares : List ShareObject) : Nat :=
  shares.countP fun share => share.shareFP = shareFP

private theorem occurrences_append (shareFP : Fingerprint) (first second : List ShareObject) :
    occurrences shareFP (first ++ second) =
      occurrences shareFP first + occurrences shareFP second :=
  List.countP_append

private theorem tally_entries (shareFP : Fingerprint) {round : List ShareObject} {flags : List Bool}
    (size : flags.length = round.length) :
    tally true shareFP (round.map entry) flags + tally false shareFP (round.map entry) flags =
      occurrences shareFP round := by
  rw [Server.tally_true_add_tally_false shareFP (by rw [size, List.length_map]),
    List.countP_map]
  rfl

/-! ## States of the server -/

section Service

variable {generateHash : List Byte → Fingerprint}

/-- The connection of a user on whose core a file is being uploaded. -/
structure Serving (generateHash : List Byte → Fingerprint) (user : Int)
    (server : DataConnection) : Prop where
  owner : server.user = user
  reachable : Relation.ReflTransGen (MinDedupCore.Step generateHash) .empty server.core

theorem Serving.counted {user : Int} {server : DataConnection}
    (serving : Serving generateHash user server) : server.core.store.Counted := by
  have initial : MinDedupCore.empty.Holds fun store _ => store.Counted := by
    intro shareFP value found
    cases found
  exact MinDedupCore.reachable_preserved ShareStore.counted_preserved initial
    serving.reachable

/-- The rounds `done` have been handled, and the user owns the shares of `base` and of
these rounds. -/
structure Served (generateHash : List Byte → Fingerprint) (base : ShareStore) (user : Int)
    (done : List (List ShareObject)) (server : DataConnection) (events : List Event) :
    Prop extends Serving generateHash user server where
  completed : Completed done events
  refCount : ∀ shareFP other, server.core.store.refCount shareFP other =
    base.refCount shareFP other +
      if other = user then occurrences shareFP done.flatten else 0

/-- After the rounds `done` a round has gone through the first stage. Its package and
its status list are in the buffers of the connection. -/
structure Reporting (generateHash : List Byte → Fingerprint) (base : ShareStore)
    (user : Int) (name : List Byte) (done : List (List ShareObject))
    (round : List ShareObject) (flags : List Bool) (server : DataConnection)
    (events : List Event) : Prop extends Serving generateHash user server where
  package : ∃ file : FileShareMD, server.package = [file] ∧ file.fullName = name ∧
    file.entries = round.map entry
  size : flags.length = round.length
  listed : ∀ index (inside : index < flags.length), server.statusList index = flags[index]
  reported : ∃ earlier first, events = earlier ++ [first] ∧ Completed done earlier ∧
    Reported round flags first
  refCount : ∀ shareFP other, server.core.store.refCount shareFP other =
    base.refCount shareFP other + if other = user then occurrences shareFP done.flatten +
      tally true shareFP (round.map entry) flags else 0

variable {base : ShareStore} {user : Int} {name : List Byte}
variable {done : List (List ShareObject)} {round : List ShareObject} {flags : List Bool}
variable {server : DataConnection} {events : List Event}

/-- Shares as the ring buffer has them. -/
def Shares (generateHash : List Byte → Fingerprint) (round : List ShareObject) : Prop :=
  ∀ share ∈ round, generateHash share.data = share.shareFP ∧
    1 ≤ share.data.length ∧ share.data.length ≤ ringBufferDataSize

theorem Shares.sized (shares : Shares generateHash round) :
    ∀ listed ∈ round.map entry, listed.Sized := by
  intro listed mapped
  rcases List.mem_map.mp mapped with ⟨share, member, rfl⟩
  have capacity : ringBufferDataSize ≤ Server.containerBufferSize := by decide
  exact ⟨(shares share member).2.1, (shares share member).2.2.trans capacity⟩

theorem Shares.described (shares : Shares generateHash round) :
    List.Forall₂ (ShareMDEntry.Describes generateHash) (round.map entry)
      (round.map ShareObject.data) := by
  rw [List.forall₂_map_left_iff, List.forall₂_map_right_iff, List.forall₂_same]
  intro share member
  exact
    { sized := shares.sized _ (List.mem_map_of_mem member)
      size := rfl
      hash := (shares share member).1 }

theorem Served.receiveMetadata (served : Served generateHash base user done server events)
    (shares : Shares generateHash round) {metaBuffer : Buffer Byte}
    (holds : HoldsPackage name round metaBuffer) {message : List Byte}
    (sent : message = metaBuffer.slice 0 (entryAt name round.length)) :
    Reporting generateHash base user name done round (server.receiveMetadata message).2
      (server.receiveMetadata message).1
      (events ++ [.firstStage (server.receiveMetadata message).1.package
        (server.receiveMetadata message).2]) := by
  have length : message.length = entryAt name round.length := by
    rw [sent, Buffer.slice_length]
  let kept := (server.receive message).keepPackage message.length
  have bytes : kept.metaBuffer.slice 0 (entryAt name round.length) =
      metaBuffer.slice 0 (entryAt name round.length) := by
    have copied := server.metaBuffer.slice_copy 0 (server.buffer.write 0 message)
      message.length
    rw [Buffer.slice_write, length] at copied
    rw [← sent]
    conv_rhs => rw [← copied]
    rw [← length]
    rfl
  have bounded : ∀ share ∈ round, share.data.length < intBound := by
    intro share member
    have small : ringBufferDataSize < intBound := by decide
    exact Nat.lt_of_le_of_lt (shares share member).2.2 small
  rcases (holds.congr bytes).read bounded with ⟨package, fullName, entries⟩
  have package : kept.package = [Server.readFile kept.metaBuffer 0] := by
    rw [← package, ← length]
    rfl
  rcases MinDedupCore.firstStageDedup_round served.counted user
    (Server.readFile kept.metaBuffer 0) with ⟨flags, size, list, _, counts⟩
  have reply : (server.receiveMetadata message).2 = flags := by
    rw [← list, ← package, ← served.owner]
    rfl
  have core : (server.receiveMetadata message).1.core =
      (server.core.firstStageDedup user [Server.readFile kept.metaBuffer 0]).1 := by
    rw [← package, ← served.owner]
    rfl
  rw [entries, List.length_map] at size
  rw [entries] at counts
  rw [reply]
  exact
    { owner := served.owner
      reachable := by
        rw [core]
        apply served.reachable.tail
        refine ⟨.firstStage user [Server.readFile kept.metaBuffer 0], ?_, rfl⟩
        intro file member
        rw [List.mem_singleton.mp member, entries]
        exact shares.sized
      package := ⟨Server.readFile kept.metaBuffer 0, package, fullName, entries⟩
      size := size
      listed := by
        intro index inside
        have written := server.statusList.write_inside 0 inside
        rw [Nat.zero_add] at written
        rw [← written, ← reply]
        rfl
      reported := ⟨events, _, rfl, served.completed,
        Server.readFile kept.metaBuffer 0, by rw [← package]; rfl, entries, size⟩
      refCount := by
        intro shareFP other
        rw [core, counts, served.refCount]
        by_cases own : other = user
        · simp only [own, if_true, Nat.add_assoc]
        · simp only [own, if_false] }

/-- A `DATA` message with the data the status list of the round asks for. -/
theorem Reporting.receiveShareData
    (reporting : Reporting generateHash base user name done round flags server events)
    (named : Server.formatFullFileName name ≠ none) (shares : Shares generateHash round)
    (expired : ShareContainerBuffer → Bool) :
    Served generateHash base user (done ++ [round])
      (server.receiveShareData generateHash (roundBody round flags) expired).1
      (events ++ [.secondStage (roundBody round flags)
        (server.consumedData generateHash (roundBody round flags) expired)
        (server.receiveShareData generateHash (roundBody round flags) expired).2]) := by
  rcases reporting.package with ⟨file, package, fullName, entries⟩
  rcases reporting.reported with ⟨earlier, first, split, completed, reported⟩
  have size : flags.length = file.entries.length := by
    rw [entries, List.length_map, reporting.size]
  have data : (server.buffer.write 0 (roundBody round flags)).slice 0
      (roundBody round flags).length = roundBody round flags := Buffer.slice_write _ _ _
  rcases MinDedupCore.secondStageDedup_round reporting.counted user (by rw [fullName]; exact named)
    (by rw [entries]; exact shares.described) size reporting.listed data expired with
    ⟨⟨core, stored, _, counts⟩, consumed⟩
  have received : server.receiveShareData generateHash (roundBody round flags) expired =
      ({ server.receive (roundBody round flags) with core := core }, true) := by
    have call : (server.receive (roundBody round flags)).core.secondStageDedup generateHash
        (server.receive (roundBody round flags)).user
        (server.receive (roundBody round flags)).package
        (server.receive (roundBody round flags)).statusList
        (server.receive (roundBody round flags)).buffer expired = .ok core := by
      rw [← stored, ← package, ← reporting.owner]
      rfl
    rw [DataConnection.receiveShareData]
    simp only [call]
  have taken : server.consumedData generateHash (roundBody round flags) expired =
      (roundBody round flags).length := by
    rw [roundBody, ← consumed, ← package, ← reporting.owner]
    rfl
  rw [received, taken, split]
  exact
    { owner := reporting.owner
      reachable := by
        apply reporting.reachable.tail
        refine ⟨.secondStage user [file] server.statusList
          (server.buffer.write 0 (roundBody round flags)) expired, ?_, ?_⟩
        · intro other member
          rw [List.mem_singleton.mp member, entries]
          exact shares.sized
        · rw [MinDedupCore.perform, stored, Loop.outcome_ok]
      completed := .round completed reported rfl
      refCount := by
        intro shareFP other
        rw [entries] at counts
        have tallied := tally_entries shareFP reporting.size
        rw [counts, reporting.refCount, List.flatten_append, List.flatten_singleton,
          occurrences_append, ← tallied]
        by_cases own : other = user
        · simp only [own, if_true, Nat.add_assoc]
        · simp only [own, if_false] }

end Service

end MetaDedup.Upload
