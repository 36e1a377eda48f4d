import MetaDedup.Upload.Round

/-! # The upload of a file as a protocol

The uploader thread and the server exchange messages over a connection that keeps
their order in both directions. A step is the work of one party between two messages
it waits for; the steps of the parties interleave freely. -/

namespace MetaDedup.Upload

open Foundation Wire Uploader
open Server (Fingerprint FileShareMD DataRequest DataConnection ShareContainerBuffer slash dot
  formatFullFileName)

/-! ## What is uploaded -/

/-- A file whose shares for one cloud are in the ring buffer. The encoder sets the
counts of the header to zero, and the client counts the final zero byte in the name,
so that a name is never empty. -/
structure FileUpload (generateHash : List Byte → Fingerprint) where
  head : Buffer Byte
  data : Buffer Byte
  name : List Byte
  shares : List ShareObject
  fullNameSize : head.readInt fullNameSizeAt intSize = name.length
  numOfComingSecrets : head.readInt numOfComingSecretsAt intSize = 0
  fullName : data.slice 0 name.length = name
  named : name ≠ []
  notHere : name.take 2 ≠ [dot, slash]
  notAbove : name.take 3 ≠ [dot, dot, slash]
  shares_nonempty : shares ≠ []
  hashed : ∀ share ∈ shares, generateHash share.data = share.shareFP
  sized : ∀ share ∈ shares,
    1 ≤ share.data.length ∧ share.data.length ≤ ringBufferDataSize

/-- The items of shares. The last one is the end of the file. -/
def shareItems : List ShareObject → List Item
  | [] => []
  | share :: left => .share share left.isEmpty :: shareItems left

namespace FileUpload

variable {generateHash : List Byte → Fingerprint} (upload : FileUpload generateHash)

def items : List Item := .fileHeader upload.head upload.data :: shareItems upload.shares

theorem format_name : formatFullFileName upload.name ≠ none := by
  rw [formatFullFileName, if_neg upload.named]
  split
  · rw [if_neg (not_or.mpr ⟨upload.notHere, upload.notAbove⟩)]
    exact Option.some_ne_none _
  · exact Option.some_ne_none _

end FileUpload

/-! ## The rounds -/

/-- The rounds of an upload: with some shares placed, one that does not fit opens the
next round. -/
def packRounds : (placed left : List ShareObject) → List (List ShareObject)
  | placed, [] => [placed]
  | placed, share :: left =>
      if share.data.length + (shareData placed).length > uploadBufferSize then
        placed :: packRounds [share] left
      else packRounds (placed ++ [share]) left

def planRounds (shares : List ShareObject) : List (List ShareObject) :=
  packRounds [] shares

theorem packRounds_forall {property : List ShareObject → Prop}
    (single : ∀ share, property [share])
    (grows : ∀ placed share, share.data.length + (shareData placed).length ≤ uploadBufferSize →
      property (placed ++ [share]))
    {placed : List ShareObject} (holds : property placed) (left : List ShareObject) :
    ∀ round ∈ packRounds placed left, property round := by
  induction left generalizing placed with
  | nil => exact List.forall_mem_singleton.mpr holds
  | cons share left induction =>
      rw [packRounds]
      split
      · exact List.forall_mem_cons.mpr ⟨holds, induction (single share)⟩
      next small => exact induction (grows placed share (Nat.le_of_not_gt small))

theorem packRounds_flatten (placed left : List ShareObject) :
    (packRounds placed left).flatten = placed ++ left := by
  induction left generalizing placed with
  | nil => simp [packRounds]
  | cons share left induction =>
      rw [packRounds]
      split
      · rw [List.flatten_cons, induction]
        rfl
      · rw [induction, List.append_assoc]
        rfl

theorem planRounds_flatten (shares : List ShareObject) :
    (planRounds shares).flatten = shares :=
  packRounds_flatten [] shares

/-- The rounds after the current one, from the share in hand and the items of the ring
buffer. -/
inductive Ahead : Option (ShareObject × Bool) → List Item → List (List ShareObject) → Prop
  | ended : Ahead none [] []
  | inHand (share : ShareObject) (left : List ShareObject) :
      Ahead (some (share, left.isEmpty)) (shareItems left) (packRounds [share] left)

/-! ## The parties -/

/-- What can be observed at the server: a first stage with the package it has read and
the status list it returns, and a second stage with the body it was given, the number
of bytes it has taken from it and whether it returns 1. -/
inductive Event
  | firstStage (package : List FileShareMD) (statusList : List Bool)
  | secondStage (body : List Byte) (consumed : Nat) (returned : Bool)

structure System where
  client : Thread
  toServer : List DataRequest
  toClient : List (List Bool)
  server : DataConnection
  events : List Event

namespace System

def clientMoves (system : System) (moved : Thread × List DataRequest) : System :=
  { system with client := moved.1, toServer := system.toServer ++ moved.2 }

def serveMetadata (system : System) (message : List Byte) : System :=
  let served := system.server.receiveMetadata message
  { system with
    server := served.1
    toClient := system.toClient ++ [served.2]
    events := system.events ++ [.firstStage served.1.package served.2] }

def serveShareData (generateHash : List Byte → Fingerprint) (system : System)
    (message : List Byte) (expired : ShareContainerBuffer → Bool) : System :=
  let served := system.server.receiveShareData generateHash message expired
  { system with
    server := served.1
    events := system.events ++ [.secondStage message
      (system.server.consumedData generateHash message expired) served.2] }

/-- The steps of the two parties. Which nodes of other users the server frees in a
second stage depends on the time, so any may be. -/
inductive Step (generateHash : List Byte → Fingerprint) : System → System → Prop
  | extract {system : System} {item : Item} {rest : List Item}
      (phase : system.client.phase = .extract)
      (next : system.client.ringBuffer = item :: rest) :
      Step generateHash system
        (system.clientMoves (Thread.handle { system.client with ringBuffer := rest } item))
  | getStatus {system : System} {inHand : Option (ShareObject × Bool)}
      {statusList : List Bool} {rest : List (List Bool)}
      (phase : system.client.phase = .awaitStatus inHand)
      (next : system.toClient = statusList :: rest) :
      Step generateHash system (clientMoves { system with toClient := rest }
        (system.client.receiveStatus inHand statusList))
  | metadata {system : System} {message : List Byte} {rest : List DataRequest}
      (next : system.toServer = .metadata message :: rest) :
      Step generateHash system (serveMetadata { system with toServer := rest } message)
  | shareData {system : System} {message : List Byte} {rest : List DataRequest}
      (next : system.toServer = .shareData message :: rest)
      (expired : ShareContainerBuffer → Bool) :
      Step generateHash system
        (serveShareData generateHash { system with toServer := rest } message expired)

/-- The thread has exited and all its messages have been handled. -/
def Complete (system : System) : Prop :=
  system.client.phase = .exited ∧ system.toServer = []

/-- A connection whose client is about to upload a file with empty buffers. What is in
the memory of both parties does not matter. -/
structure Begins {generateHash : List Byte → Fingerprint} (upload : FileUpload generateHash)
    (system : System) : Prop where
  ringBuffer : system.client.ringBuffer = upload.items
  phase : system.client.phase = .extract
  buffers : system.client.buffers.metaWP = 0 ∧ system.client.buffers.containerWP = 0 ∧
    system.client.buffers.numOfShares = 0
  toServer : system.toServer = []
  toClient : system.toClient = []
  events : system.events = []

/-! ## Runs are finite -/

/-- The weight of what the client has still to do while it waits. -/
def phaseRank : Phase → Nat
  | .awaitStatus (some _) => 3
  | _ => 0

def messageRank : DataRequest → Nat
  | .metadata _ => 3
  | .shareData _ => 1

/-- A bound on the number of steps left. -/
def rank (system : System) : Nat :=
  7 * system.client.ringBuffer.length + phaseRank system.client.phase +
    (system.toServer.map messageRank).sum + 2 * system.toClient.length

variable {generateHash : List Byte → Fingerprint}

theorem rank_place (thread : Thread) (share : ShareObject) (isEnd : Bool) :
    (thread.place share isEnd).1.ringBuffer = thread.ringBuffer ∧
      phaseRank (thread.place share isEnd).1.phase +
        ((thread.place share isEnd).2.map messageRank).sum ≤ 3 := by
  cases isEnd with
  | true => exact ⟨rfl, Nat.le_refl 3⟩
  | false => exact ⟨rfl, Nat.zero_le 3⟩

private theorem rank_handle (thread : Thread) (item : Item) (phase : thread.phase = .extract) :
    (thread.handle item).1.ringBuffer = thread.ringBuffer ∧
      phaseRank (thread.handle item).1.phase +
        ((thread.handle item).2.map messageRank).sum ≤ 6 := by
  cases item with
  | fileHeader head data =>
      refine ⟨rfl, ?_⟩
      change phaseRank thread.phase + 0 ≤ 6
      rw [phase]
      decide
  | share share isEnd =>
      rw [Thread.handle]
      split
      · exact ⟨rfl, Nat.le_refl 6⟩
      · have placed := rank_place thread share isEnd
        exact ⟨placed.1, placed.2.trans (by decide)⟩

private theorem rank_receiveStatus (thread : Thread) (inHand : Option (ShareObject × Bool))
    (statusList : List Bool) :
    (thread.receiveStatus inHand statusList).1.ringBuffer = thread.ringBuffer ∧
      phaseRank (thread.receiveStatus inHand statusList).1.phase +
        ((thread.receiveStatus inHand statusList).2.map messageRank).sum ≤
      phaseRank (.awaitStatus inHand) + 1 := by
  cases inHand with
  | none => exact ⟨rfl, Nat.le_refl 1⟩
  | some pair =>
      rcases pair with ⟨share, isEnd⟩
      have placed := rank_place { thread with
        buffers := (thread.buffers.performUpload statusList).1.updateHeader } share isEnd
      refine ⟨placed.1, ?_⟩
      rw [Thread.receiveStatus]
      dsimp only
      rw [List.map_cons, List.sum_cons, messageRank]
      change _ ≤ 3 + 1
      omega

private theorem rank_lt_of_step {system next : System} (step : Step generateHash system next) :
    next.rank < system.rank := by
  cases step with
  | @extract item rest phase ring =>
      have handled := rank_handle (.mk system.client.buffers rest system.client.phase) item phase
      simp only [rank, clientMoves, List.map_append, List.sum_append, handled.1, ring,
        List.length_cons]
      omega
  | @getStatus inHand statusList rest phase answers =>
      have received := rank_receiveStatus system.client inHand statusList
      simp only [rank, clientMoves, List.map_append, List.sum_append, received.1, phase,
        answers, List.length_cons]
      omega
  | metadata messages =>
      simp only [rank, serveMetadata, messages, List.map_cons, List.sum_cons, messageRank,
        List.length_append, List.length_singleton]
      omega
  | shareData messages expired =>
      simp only [rank, serveShareData, messages, List.map_cons, List.sum_cons, messageRank]
      omega

theorem wellFounded_step : WellFounded fun next system => Step generateHash system next :=
  Subrelation.wf (fun step => rank_lt_of_step step) (measure rank).wf

end System

end MetaDedup.Upload
