import MetaDedup.Connections.Requests
import MetaDedup.Connections.Termination

/-! # Requests in pieces

TCP may deliver the bytes of a request in any pieces. The loops of the handlers put the
pieces together again, but a field that is received by a single call is cut off at the end
of its piece, and what follows is taken for something else. When no such field is cut the
handlers do the same for all pieces, and the client reads the same answers. -/

namespace MetaDedup.Connections

open Foundation Server Wire
open Incoming (MessageField Unbroken)

/-- All the bytes of some fields arrive, no field for a single call is cut, and the
connection is closed then. -/
structure Arrives (fields : List (MessageField Byte)) (connection : Incoming Byte) :
    Prop where
  stream : connection.stream = fields.flatMap MessageField.values
  unbroken : Unbroken fields connection
  closed : connection.ending = .closed

variable {connection : Incoming Byte}

theorem Arrives.delivers {fields : List (MessageField Byte)}
    (arrives : Arrives fields connection) :
    ∃ left, Incoming.Delivers fields connection left ∧ left.available = 0 ∧
      left.ending = .closed := by
  have all : connection.stream = fields.flatMap MessageField.values ++ [] := by
    rw [List.append_nil]
    exact arrives.stream
  refine ⟨_, Incoming.delivers_of_unbroken all arrives.unbroken, ?_, arrives.closed⟩
  rw [Incoming.skip_available, Incoming.available, arrives.stream, Nat.sub_self]

/-- For all pieces in which no field for a single call is cut, the handlers do with the
requests of a connection what is to be done with them, and the client reads the status
list and the message that the server has sent. -/
theorem segmentation_independent (environment : Environment)
    (allocation : Handler.Allocation) (user : BitVec 32) (connection : Incoming Byte)
    (passes : Nat) :
    (∀ requests,
      (∀ request ∈ requests, MetaPortRequest.WellFormed request) →
      Arrives (userField user :: requests.flatMap MetaPortRequest.fields) connection →
      connection.available < passes →
      ∃ final, socketHandlerMeta environment allocation passes connection =
        .ok ⟨serveAll (serveMeta environment) (allocation.memory user.toInt) requests,
          final⟩) ∧
    (∀ requests,
      (∀ request ∈ requests, PackageRequest.WellFormed request) →
      Arrives (userField user :: requests.flatMap PackageRequest.fields) connection →
      connection.available < passes →
      ∃ final, socketHandlerData environment allocation passes connection =
        .ok ⟨serveAll (serveData environment) (allocation.memory user.toInt) requests,
          final⟩) ∧
    (∀ num statusList statuses later,
      statuses.length < 2 ^ 31 →
      connection.stream =
        (Socket.statusFields statuses).flatMap MessageField.values ++ later →
      Unbroken (Socket.statusFields statuses) connection →
      statuses.length ≤ passes →
      ∃ left, Socket.getStatus passes connection num statusList =
          .ok (statuses.length, ⟨0, statusList.write 0 statuses, left⟩) ∧
        left.stream = later) ∧
    (∀ size raw payload later,
      payload.length < 2 ^ 31 →
      connection.stream = frame payload ++ later →
      Unbroken (Socket.frameFields payload) connection →
      payload.length ≤ passes →
      ∃ left, Socket.downloadChunk passes connection size raw =
          .ok (some (payload.length : Int), ⟨0, raw.write 0 payload, left⟩) ∧
        left.stream = later) := by
  refine ⟨?_, ?_, ?_, ?_⟩
  · intro requests wellFormed arrives enough
    rcases arrives.delivers with ⟨left, delivers, dead, closed⟩
    exact start_serves Handler.metaRequest_lawful (serveMeta_pass environment) wellFormed
      allocation delivers dead closed enough
  · intro requests wellFormed arrives enough
    rcases arrives.delivers with ⟨left, delivers, dead, closed⟩
    exact start_serves Handler.dataRequest_lawful (serveData_pass environment) wellFormed
      allocation delivers dead closed enough
  · intro num statusList statuses later small stream unbroken allowed
    have delivers := Incoming.delivers_of_unbroken stream unbroken
    refine ⟨_, Socket.getStatus_of_delivers small delivers num statusList allowed, ?_⟩
    rw [Incoming.skip_stream, stream, List.drop_left]
  · intro size raw payload later small stream unbroken allowed
    have framed : frame payload =
        (Socket.frameFields payload).flatMap MessageField.values := by
      simp [frame, Socket.frameFields, MessageField.values]
    rw [framed] at stream
    have delivers := Incoming.delivers_of_unbroken stream unbroken
    refine ⟨_, Socket.downloadChunk_of_delivers small delivers size raw allowed, ?_⟩
    rw [Incoming.skip_stream, stream, List.drop_left]

/-! ## Fields that are cut -/

def inTwoPieces (first second : Byte) (rest later : List Byte) : Incoming Byte where
  pieces := [first :: rest, second :: later]
  nonempty := by simp
  ending := .closed

def downloadRequest : PackageRequest := ⟨.download, [97]⟩

def unbrokenDownload : Incoming Byte :=
  inTwoPieces 0 97 ([0, 0, 1] ++ messageInt downloadIndicator ++ messageInt 1) []

def brokenDownload : Incoming Byte :=
  inTwoPieces 0 255 [0, 0, 1, 249, 255] (255 :: messageInt 1 ++ [97])

private theorem unbrokenDownload_arrives :
    Arrives (userField 1 :: [.package downloadRequest].flatMap MetaPortRequest.fields)
      unbrokenDownload := by
  constructor
  · rfl
  · exact ⟨by decide, by decide, by decide, trivial⟩
  · rfl

theorem segmentation_independent_download :
    (∀ request ∈ [MetaPortRequest.package downloadRequest], request.WellFormed) ∧
    Arrives (userField 1 :: [.package downloadRequest].flatMap MetaPortRequest.fields)
      unbrokenDownload ∧
    ∃ final, socketHandlerMeta emptyEnvironment clearedAllocation 20 unbrokenDownload =
      .ok ⟨serveAll (serveMeta emptyEnvironment) (clearedAllocation.memory 1)
        [.package downloadRequest], final⟩ := by
  have wellFormed : ∀ request ∈ [MetaPortRequest.package downloadRequest],
      request.WellFormed := by
    intro request member
    rw [List.mem_singleton.mp member]
    exact (by decide : 1 < 2 ^ 31)
  exact ⟨wellFormed, unbrokenDownload_arrives,
    (segmentation_independent emptyEnvironment clearedAllocation 1 unbrokenDownload 20).1 _
      wellFormed unbrokenDownload_arrives (by decide)⟩

/-- The same bytes make the server restore a file, or do nothing; and a status list is
read, or taken for something else. -/
theorem segmentation_changes_operations :
    unbrokenDownload.stream = brokenDownload.stream ∧
    (∃ handler, socketHandlerMeta emptyEnvironment clearedAllocation 20 unbrokenDownload =
      .ok handler ∧ handler.memory.operations = [.restoreShareFile 1 [97]]) ∧
    (∃ handler, socketHandlerMeta emptyEnvironment clearedAllocation 20 brokenDownload =
      .ok handler ∧ handler.memory.operations = []) ∧
    (∃ reply, Socket.getStatus 1 (inTwoPieces 253 255 [255] (255 :: messageInt 1 ++ [1]))
      (fun _ => 0) (fun _ => 0) = .ok (0, reply) ∧ reply.returns = -1) :=
  ⟨rfl, ⟨_, rfl, rfl⟩, ⟨_, rfl, rfl⟩, ⟨_, rfl, rfl⟩⟩

/-! ## Byte by byte

When every byte arrives on its own, the buffer never has an indicator, whatever the
requests are. -/

variable {memory : HandlerMemory}

/-- The bytes of an indicator behind its first one are zero. -/
def Quiet (memory : HandlerMemory) : Prop :=
  memory.buffer 1 = 0 ∧ memory.buffer 2 = 0 ∧ memory.buffer 3 = 0

theorem Quiet.load (quiet : Quiet memory) (byte : Byte) :
    Quiet (memory.load [byte]) := by
  rw [Quiet, HandlerMemory.load]
  dsimp only
  rw [Buffer.write_outside _ (.inr (by decide : 1 ≤ 1)),
    Buffer.write_outside _ (.inr (by decide : 1 ≤ 2)),
    Buffer.write_outside _ (.inr (by decide : 1 ≤ 3))]
  exact quiet

theorem Quiet.word_nonneg (quiet : Quiet memory) (byte : Byte)
    (connection : Incoming Byte) :
    0 ≤ Handler.word ⟨memory.load [byte], connection⟩ := by
  have bytes : (memory.load [byte]).buffer.slice 0 intSize = [byte, 0, 0, 0] := by
    rcases quiet.load byte with ⟨second, third, fourth⟩
    have first : (memory.load [byte]).buffer 0 = byte := rfl
    simp [Buffer.slice, intSize, List.range_succ, first, second, third, fourth]
  have value : littleEndian [byte, 0, 0, 0] = byte.toNat := by
    simp [littleEndian, Nat.ofDigits_cons]
  have small := byte.isLt
  rw [Handler.word, HandlerMemory.word, Buffer.readInt, bytes, value,
    BitVec.toInt_eq_toNat_of_lt (by rw [BitVec.toNat_ofNat]; simp only [intSize]; omega)]
  exact Int.natCast_nonneg _

private theorem metaRequest_of_nonneg (environment : Environment) {handler : Handler}
    (nonnegative : 0 ≤ handler.word) :
    handler.metaRequest environment = handler.unknownRequest := by
  have other : ∀ value : Int, value < 0 → handler.word ≠ value := by
    intro value negative same
    omega
  rw [Handler.metaRequest, if_neg (other _ (by decide)), if_neg (other _ (by decide)),
    if_neg (other _ (by decide)), if_neg (other _ (by decide)), if_neg (other _ (by decide)),
    if_neg (other _ (by decide))]

private theorem dataRequest_of_nonneg (environment : Environment) {handler : Handler}
    (nonnegative : 0 ≤ handler.word) :
    handler.dataRequest environment = handler.unknownRequest := by
  have other : ∀ value : Int, value < 0 → handler.word ≠ value := by
    intro value negative same
    omega
  rw [Handler.dataRequest, if_neg (other _ (by decide)), if_neg (other _ (by decide)),
    if_neg (other _ (by decide))]

def Bytewise (connection : Incoming Byte) : Prop :=
  ∀ piece ∈ connection.pieces, piece.length = 1

theorem Bytewise.after (bytewise : Bytewise connection)
    {size : Nat} (some : 0 < size) : Bytewise (connection.after size) := by
  intro piece member
  have left : piece ∈ Pieces.after size connection.pieces := member
  cases pieces : connection.pieces with
  | nil =>
      rw [pieces] at left
      cases left
  | cons first rest =>
      have single := bytewise first (pieces ▸ List.mem_cons_self)
      rw [pieces, Pieces.after, if_pos (by omega)] at left
      exact bytewise piece (pieces ▸ List.mem_cons_of_mem _ left)

theorem Bytewise.taken (bytewise : Bytewise connection)
    (alive : connection.available ≠ 0) : ∃ byte, connection.taken intSize = [byte] := by
  rw [Incoming.taken]
  cases pieces : connection.pieces with
  | nil => exact absurd (Incoming.pieces_eq_nil_iff.mp pieces) alive
  | cons first rest =>
      have single := bytewise first (pieces ▸ List.mem_cons_self)
      rcases List.length_eq_one_iff.mp single with ⟨byte, same⟩
      exact ⟨byte, by rw [List.headD_cons, same]; rfl⟩

private theorem mainLoop_bytewise {requests : Handler → Option Intake}
    (ignores : ∀ {handler : Handler}, 0 ≤ handler.word →
      requests handler = handler.unknownRequest) (quiet : Quiet memory)
    (bytewise : Bytewise connection)
    (closed : connection.ending = .closed) {limit passes : Nat}
    (enough : connection.available < passes) :
    ∃ handler, Handler.mainLoop requests (.loop limit) passes ⟨memory, connection⟩ =
      .ok handler ∧ handler.memory.operations = memory.operations := by
  induction passes generalizing memory connection with
  | zero => omega
  | succ passes induction =>
      by_cases dead : connection.available = 0
      · rw [Handler.mainLoop, Handler.pass_of_closed dead closed]
        exact ⟨_, rfl, rfl⟩
      · rcases bytewise.taken dead with ⟨byte, taken⟩
        have received : Handler.recv ⟨memory, connection⟩ intSize =
            ⟨memory.load [byte], connection.after intSize⟩ := by
          rw [Handler.recv, taken]
        have read := ignores (quiet.word_nonneg byte (connection.after intSize))
        rw [← received] at read
        have left := connection.after_available intSize
        rw [taken, List.length_singleton] at left
        have passed : Handler.pass requests (.loop limit) ⟨memory, connection⟩ =
            .ok (.again, ⟨memory.load [byte], connection.after intSize⟩) := by
          rw [Handler.pass_of_alive dead (.loop limit) read, received, Intake.run,
            Receiver.loop, Incoming.receiveLoop_done _ _ _ (Int.lt_irrefl 0),
            Int.sub_self, Int.toNat_zero, Incoming.skip_zero]
        rw [Handler.mainLoop, passed]
        exact induction (quiet.load byte) (bytewise.after (by decide)) closed (by omega)

/-- A connection on which the bytes arrive one by one never makes a request. -/
theorem bytewise_performs_nothing (environment : Environment)
    (allocation : Handler.Allocation)
    (bytewise : Bytewise connection) (closed : connection.ending = .closed) {passes : Nat}
    (enough : connection.available < passes) :
    (∃ handler, socketHandlerMeta environment allocation passes connection = .ok handler ∧
      handler.memory.operations = []) ∧
    ∃ handler, socketHandlerData environment allocation passes connection = .ok handler ∧
      handler.memory.operations = [] := by
  have later : Bytewise (connection.after intSize) := bytewise.after (by decide)
  have shrinks := connection.after_available intSize
  have less : (connection.after intSize).available < passes := by omega
  exact ⟨mainLoop_bytewise (metaRequest_of_nonneg environment) ⟨rfl, rfl, rfl⟩ later closed less,
    mainLoop_bytewise (dataRequest_of_nonneg environment) ⟨rfl, rfl, rfl⟩ later closed less⟩

theorem bytewise_performs_nothing_indicator :
    let connection : Incoming Byte := ⟨[[249], [255], [255], [255]], by decide, .closed⟩
    (∃ handler, socketHandlerMeta emptyEnvironment clearedAllocation 5 connection =
      .ok handler ∧ handler.memory.operations = []) ∧
    ∃ handler, socketHandlerData emptyEnvironment clearedAllocation 5 connection =
      .ok handler ∧ handler.memory.operations = [] :=
  bytewise_performs_nothing _ _ (by simp [Bytewise]) rfl (by decide)

end MetaDedup.Connections
