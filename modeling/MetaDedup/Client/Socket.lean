import MetaDedup.Client.ShareDownload
import MetaDedup.Foundation.Incoming

/-! # The socket of the client

The functions of `Socket` that receive. The indicator and the size of an answer are each
received by a single call, and the rest by the loop of `genericDownload`, which gives up
when a call fails but not when the connection is closed. -/

namespace MetaDedup.Socket

open Foundation Wire

/-- `GET_STAT`. -/
def getStat : Int := -3

/-- What a function that receives returns: its value, the memory it has filled and the
connection it leaves. -/
structure Reply where
  returns : Int
  raw : Buffer Byte
  connection : Incoming Byte

/-- Every loop makes at most `passes` passes; the connection on which it has made them is
returned as an error. -/
def genericDownload (passes : Nat) (connection : Incoming Byte) (raw : Buffer Byte)
    (rawSize : Int) : Except (Incoming Byte) Reply :=
  match connection.receiveLoop (fun missing => missing) false rawSize passes 0 [] with
  | .ok (received, connection) => .ok ⟨0, raw.write 0 received, connection⟩
  | .error (.failed, received, connection) => .ok ⟨-1, raw.write 0 received, connection⟩
  | .error (.running, _, connection) => .error connection

/-- `statusList` has the bytes of the flags. The result is the number of flags with the
reply. -/
def getStatus (passes : Nat) (connection : Incoming Byte) (num statusList : Buffer Byte) :
    Except (Incoming Byte) (Int × Reply) :=
  let indicator : Buffer Byte := Buffer.write (fun _ => 0) 0 (connection.taken intSize)
  let numbered := connection.after intSize
  let num' := num.write 0 (numbered.taken intSize)
  let listed := numbered.after intSize
  if connection.bytecount intSize = -1 then
    .ok (num.readInt 0 intSize, ⟨-1, statusList, numbered⟩)
  else if indicator.readInt 0 intSize ≠ getStat then
    .ok (num.readInt 0 intSize, ⟨-1, statusList, numbered⟩)
  else if numbered.bytecount intSize = -1 then
    .ok (num'.readInt 0 intSize, ⟨-1, statusList, listed⟩)
  else
    (genericDownload passes listed statusList (num'.readInt 0 intSize)).map fun reply =>
      (num'.readInt 0 intSize, { reply with returns := 0 })

/-- The result is `retSize`, unless the function fails before it sets it, with the reply.
The indicator is not looked at, and neither is what `genericDownload` returns. -/
def downloadChunk (passes : Nat) (connection : Incoming Byte) (size raw : Buffer Byte) :
    Except (Incoming Byte) (Option Int × Reply) :=
  let sized := connection.after intSize
  let size' := size.write 0 (sized.taken intSize)
  let filled := sized.after intSize
  if connection.bytecount intSize = -1 then .ok (none, ⟨-1, raw, sized⟩)
  else if sized.bytecount intSize = -1 then .ok (none, ⟨-1, raw, filled⟩)
  else
    let retSize := (ntohl (size'.slice 0 intSize)).toInt
    (genericDownload passes filled raw retSize).map fun reply =>
      (some retSize, { reply with returns := 0 })

variable {connection : Incoming Byte}

variable {passes : Nat}

theorem genericDownload_of_enough (raw : Buffer Byte) {rawSize : Int}
    (enough : rawSize ≤ connection.available) (allowed : rawSize.toNat ≤ passes) :
    genericDownload passes connection raw rawSize =
      .ok ⟨0, raw.write 0 (connection.stream.take rawSize.toNat),
        connection.skip rawSize.toNat⟩ := by
  have all : rawSize - 0 ≤ connection.available := by omega
  rw [genericDownload]
  rcases Incoming.receiveLoop_of_enough false Incoming.modest_id all with
    ended | ⟨few, _⟩
  · rw [ended, Int.sub_zero, List.nil_append]
  · omega

theorem genericDownload_ends_iff (raw : Buffer Byte) (rawSize : Int) :
    (∃ passes reply, genericDownload passes connection raw rawSize = .ok reply) ↔
      rawSize ≤ connection.available ∨ connection.ending = .failed := by
  constructor
  · rintro ⟨passes, reply, ended⟩
    cases ending : connection.ending with
    | failed => exact .inr rfl
    | closed =>
        left
        by_contra missing
        have few : (connection.available : Int) < rawSize - 0 := by omega
        rcases Incoming.receiveLoop_of_closed false Incoming.modest_id few ending with
          ⟨state, running, _⟩
        rw [genericDownload, running] at ended
        cases ended
  · rintro condition
    by_cases enough : rawSize ≤ connection.available
    · exact ⟨_, _, genericDownload_of_enough raw enough (Nat.le_refl _)⟩
    · have few : (connection.available : Int) < rawSize - 0 := by omega
      have failed := condition.resolve_left enough
      rcases Incoming.receiveLoop_of_failed Incoming.modest_id few failed
        (Nat.lt_succ_self _) with ⟨state, stopped⟩
      refine ⟨connection.available + 1, ⟨-1, raw.write 0 state.1, state.2⟩, ?_⟩
      rw [genericDownload, stopped]

/-! ## Answers whose heads arrive whole -/

variable {left : Incoming Byte}

private theorem bytecount_ne (alive : connection.available ≠ 0) (size : Nat) :
    connection.bytecount size ≠ -1 := by
  rw [Incoming.bytecount_of_alive alive]
  omega

open Incoming (MessageField)

theorem recv_int {bytes : List Byte} (size : bytes.length = intSize)
    {rest : List (MessageField Byte)}
    (delivers : Incoming.Delivers (.call bytes :: rest) connection left) :
    connection.bytecount intSize ≠ -1 ∧ connection.taken intSize = bytes ∧
      Incoming.Delivers rest (connection.after intSize) left := by
  cases delivers with
  | call received later =>
      rw [size] at received later
      refine ⟨bytecount_ne ?_ intSize, received, later⟩
      intro dead
      rw [Incoming.taken_of_dead dead] at received
      rw [← received] at size
      cases size

theorem genericDownload_of_delivers {bytes : List Byte}
    (delivers : Incoming.Delivers [.loop bytes] connection left) (raw : Buffer Byte)
    (allowed : bytes.length ≤ passes) :
    genericDownload passes connection raw bytes.length =
      .ok ⟨0, raw.write 0 bytes, left⟩ := by
  cases delivers with
  | loop received later =>
      have enough : (bytes.length : Int) ≤ connection.available := by
        exact_mod_cast received.length_le
      have taken : connection.stream.take bytes.length = bytes :=
        (List.prefix_iff_eq_take.mp received).symm
      rw [genericDownload_of_enough raw enough (by omega), Int.toNat_natCast, taken,
        later.nil_eq]

def statusFields (statuses : List Byte) : List (MessageField Byte) :=
  [.call (wordBytes intSize (BitVec.ofInt (8 * intSize) getStat).toNat),
    .call (wordBytes intSize (BitVec.ofInt (8 * intSize) statuses.length).toNat),
    .loop statuses]

theorem getStatus_of_delivers {statuses : List Byte} (small : statuses.length < 2 ^ 31)
    (delivers : Incoming.Delivers (statusFields statuses) connection left)
    (num statusList : Buffer Byte) (allowed : statuses.length ≤ passes) :
    getStatus passes connection num statusList =
      .ok (statuses.length, ⟨0, statusList.write 0 statuses, left⟩) := by
  rcases recv_int (wordBytes_length _ _) delivers with ⟨first, indicator, delivers⟩
  rcases recv_int (wordBytes_length _ _) delivers with ⟨second, number, delivers⟩
  have stat : (Buffer.write (fun _ => 0) 0 (wordBytes intSize
      (BitVec.ofInt (8 * intSize) getStat).toNat)).readInt 0 intSize = getStat := by
    decide
  have count : (num.write 0 (wordBytes intSize
      (BitVec.ofInt (8 * intSize) statuses.length).toNat)).readInt 0 intSize =
        statuses.length := by
    have read := num.readInt_writeInt 0 intSize statuses.length
    have modulus : 2 ^ (8 * intSize) = 4294967296 := rfl
    rw [modulus, Int.bmod_eq_of_le (by omega) (by omega)] at read
    exact read
  rw [getStatus, indicator, number, stat, count, if_neg first, if_neg (not_not.mpr rfl),
    if_neg second,
    genericDownload_of_delivers delivers statusList allowed]
  rfl

def frameFields (payload : List Byte) : List (MessageField Byte) :=
  [.call (htonl (-5)), .call (htonl (BitVec.ofNat 32 payload.length)), .loop payload]

theorem downloadChunk_of_delivers {payload : List Byte} (small : payload.length < 2 ^ 31)
    (delivers : Incoming.Delivers (frameFields payload) connection left)
    (size raw : Buffer Byte) (allowed : payload.length ≤ passes) :
    downloadChunk passes connection size raw =
      .ok (some payload.length, ⟨0, raw.write 0 payload, left⟩) := by
  rcases recv_int (htonl_length _) delivers with ⟨first, _, delivers⟩
  rcases recv_int (htonl_length _) delivers with ⟨second, number, delivers⟩
  have count : (ntohl ((size.write 0 (htonl (BitVec.ofNat 32 payload.length))).slice 0
      intSize)).toInt = payload.length := by
    rw [Buffer.slice_write_of_length _ _ (htonl_length _), ntohl_htonl,
      BitVec.toInt_eq_toNat_of_lt, BitVec.toNat_ofNat, Nat.mod_eq_of_lt (by omega)]
    rw [BitVec.toNat_ofNat, Nat.mod_eq_of_lt (by omega)]
    omega
  rw [downloadChunk, number, count, if_neg first, if_neg second]
  dsimp only
  rw [genericDownload_of_delivers delivers raw allowed]
  rfl

/-- The download thread, which takes messages from a stream of bytes, receives what
`downloadChunk` receives from the connection. -/
theorem downloadChunk_thread {payload : List Byte}
    (fits : payload.length ≤ Downloader.downloadBufferSize)
    (delivers : Incoming.Delivers (frameFields payload) connection left)
    (thread : Downloader.DownloadThread) (incoming : thread.incoming = connection.stream)
    (size : Buffer Byte) (allowed : payload.length ≤ passes) :
    ∃ reply, downloadChunk passes connection size thread.downloadContainer =
        .ok (some payload.length, reply) ∧
      thread.downloadChunk = .ok
        { thread with
          downloadContainer := reply.raw
          retSize := payload.length
          index := 0
          incoming := reply.connection.stream } := by
  have small : payload.length < 2 ^ 31 := Nat.lt_of_le_of_lt fits (by decide)
  have stream := delivers.stream_eq
  refine ⟨_, downloadChunk_of_delivers small delivers size _ allowed, ?_⟩
  apply thread.downloadChunk_frame _ fits
  rw [incoming, stream, frame]
  simp [frameFields, MessageField.values]

/-- The payload comes in two pieces. -/
theorem downloadChunk_thread_pieces :
    let connection : Incoming Byte :=
      ⟨[htonl (-5) ++ htonl 3 ++ [7], [8, 9]], by decide, .closed⟩
    let thread : Downloader.DownloadThread := ⟨fun _ => 0, 0, 0, [], connection.stream⟩
    ∃ reply, downloadChunk 3 connection (fun _ => 0) thread.downloadContainer =
        .ok (some 3, reply) ∧
      thread.downloadChunk = .ok
        { thread with
          downloadContainer := reply.raw
          retSize := 3
          incoming := reply.connection.stream } := by
  intro connection thread
  have delivers : Incoming.Delivers (frameFields [7, 8, 9]) connection _ :=
    .call rfl (.call rfl (.loop (by decide) .nil))
  exact downloadChunk_thread (by decide) delivers thread rfl (fun _ => 0) (Nat.le_refl _)

end MetaDedup.Socket
