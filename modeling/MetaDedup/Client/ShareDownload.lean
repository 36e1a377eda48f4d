import MetaDedup.Server.ShareFileMessages

/-! # The download threads

A download thread of the client receives the messages of a restored file and takes the
shares out of them. It passes each share on in an item with a data array of a fixed size.
The threads for data and for metadata have the same code and differ in that size. -/

namespace MetaDedup.Downloader

open Foundation Wire

/-- `DOWNLOAD_BUFFER_SIZE`. -/
def downloadBufferSize : Nat := 4 * 1024 * 1024

/-- `RING_BUFFER_DATA_SIZE`. -/
def ringBufferDataSize : Nat := 16 * 1024

/-- `RING_BUFFER_META_SIZE`. -/
def ringBufferMetaSize : Nat := 32 * 1024

/-- Why a thread does not come to its end: it waits for bytes that do not arrive, or it
writes over the end of an array. -/
inductive DownloadFailure
  | waits
  | overflows
  deriving DecidableEq

/-- The container of a thread, where it stands in it, the items it has passed on and the
bytes that are still to be received. -/
structure DownloadThread where
  downloadContainer : Buffer Byte
  retSize : Nat
  index : Nat
  items : List ShareItem
  incoming : List Byte

namespace DownloadThread

/-- Receive a message into the container and go to its beginning. -/
def downloadChunk (thread : DownloadThread) : Except DownloadFailure DownloadThread :=
  let retSize := (ntohl ((thread.incoming.drop intSize).take intSize)).toNat
  let raw := (thread.incoming.drop msgHeadSize).take retSize
  if thread.incoming.length < msgHeadSize then .error .waits
  else if retSize > downloadBufferSize then .error .overflows
  else if raw.length < retSize then .error .waits
  else
    .ok
      { thread with
        downloadContainer := thread.downloadContainer.write 0 raw
        retSize
        index := 0
        incoming := thread.incoming.drop (msgHeadSize + retSize) }

/-- Take the share at the current place. A size that is negative is a very large one for
`memcpy`. -/
def takeShare (capacity : Nat) (thread : DownloadThread) :
    Except DownloadFailure DownloadThread :=
  let container := thread.downloadContainer
  let shareSize := readWord container (thread.index + entryShareSizeAt)
  if shareSize.toNat > capacity then .error .overflows
  else
    .ok
      { thread with
        index := thread.index + shareEntrySize + shareSize.toNat
        items := thread.items ++
          [⟨readWord container thread.index,
            readWord container (thread.index + entrySecretSizeAt), shareSize,
            container.slice (thread.index + shareEntrySize) shareSize.toNat⟩] }

def nextShare (capacity : Nat) (thread : DownloadThread) :
    Except DownloadFailure DownloadThread :=
  if thread.index = thread.retSize then thread.downloadChunk.bind (takeShare capacity)
  else thread.takeShare capacity

def nextShares (capacity : Nat) : Nat → DownloadThread →
    Except DownloadFailure DownloadThread
  | 0, thread => .ok thread
  | count + 1, thread => (thread.nextShare capacity).bind (nextShares capacity count)

def head (thread : DownloadThread) : ShareFileHead where
  fileSize := BitVec.ofNat 64 (littleEndian (thread.downloadContainer.slice 0 longSize))
  numOfShares := readWord thread.downloadContainer headNumOfSharesAt

/-- The shares of a file whose first message has been received: the head, the items and
the bytes that are left. The loop ends when its counter is equal to the number of shares;
for a number that is not positive it goes on, and in the end waits. -/
def receiveShares (capacity : Nat) (thread : DownloadThread) :
    Except DownloadFailure (ShareFileHead × List ShareItem × List Byte) :=
  if thread.head.numOfShares.toInt ≤ 0 then .error .waits
  else
    (nextShares capacity thread.head.numOfShares.toInt.toNat
      { thread with index := shareFileHeadSize }).map
      fun final => (thread.head, final.items, final.incoming)

def handle (capacity : Nat) (downloadContainer : Buffer Byte) (incoming : List Byte) :
    Except DownloadFailure (ShareFileHead × List ShareItem × List Byte) :=
  (downloadChunk ⟨downloadContainer, 0, 0, [], incoming⟩).bind (receiveShares capacity)

end DownloadThread

def threadHandler (downloadContainer : Buffer Byte) (incoming : List Byte) :
    Except DownloadFailure (ShareFileHead × List ShareItem × List Byte) :=
  DownloadThread.handle ringBufferDataSize downloadContainer incoming

def threadHandlerMeta (downloadContainer : Buffer Byte) (incoming : List Byte) :
    Except DownloadFailure (ShareFileHead × List ShareItem × List Byte) :=
  DownloadThread.handle ringBufferMetaSize downloadContainer incoming

/-! ## Receiving packed items -/

namespace DownloadThread

open Server (itemBytes)

variable {rest : List Byte}

theorem downloadChunk_frame (thread : DownloadThread) {payload : List Byte}
    (incoming : thread.incoming = frame payload ++ rest)
    (small : payload.length ≤ downloadBufferSize) :
    thread.downloadChunk = .ok
      { thread with
        downloadContainer := thread.downloadContainer.write 0 payload
        retSize := payload.length
        index := 0
        incoming := rest } := by
  have bound : payload.length < 2 ^ 32 := Nat.lt_of_le_of_lt small (by decide)
  have indicator : (htonl (-5)).length = intSize := htonl_length _
  have head : (htonl (-5) ++ htonl (BitVec.ofNat 32 payload.length)).length =
      msgHeadSize := by
    rw [List.length_append, htonl_length, htonl_length]
    rfl
  have size : (ntohl ((thread.incoming.drop intSize).take intSize)).toNat =
      payload.length := by
    rw [incoming, frame, List.append_assoc, List.append_assoc, List.drop_left' indicator,
      List.take_left' (htonl_length _), ntohl_htonl, BitVec.toNat_ofNat,
      Nat.mod_eq_of_lt bound]
  have body : thread.incoming.drop msgHeadSize = payload ++ rest := by
    rw [incoming, frame, List.append_assoc, List.drop_left' head]
  have raw : (thread.incoming.drop msgHeadSize).take payload.length = payload := by
    rw [body, List.take_left' rfl]
  have left : thread.incoming.drop (msgHeadSize + payload.length) = rest := by
    rw [← List.drop_drop, body, List.drop_left' rfl]
  have long : ¬ thread.incoming.length < msgHeadSize := by
    rw [incoming, frame, List.length_append, List.length_append, head]
    omega
  simp only [downloadChunk, size, raw, left]
  rw [if_neg long, if_neg (Nat.not_lt.mpr small), if_neg (Nat.lt_irrefl _)]

structure Holds (thread : DownloadThread) (items : List ShareItem) : Prop where
  bytes : thread.downloadContainer.slice thread.index (itemBytes items).length =
    itemBytes items
  size : thread.retSize = thread.index + (itemBytes items).length

def Sized (item : ShareItem) : Prop := item.shareSize.toNat = item.data.length

variable {thread : DownloadThread} {item : ShareItem} {items : List ShareItem}

theorem Holds.cons (holds : thread.Holds (item :: items)) :
    thread.downloadContainer.slice thread.index item.bytes.length = item.bytes ∧
      thread.downloadContainer.slice (thread.index + item.bytes.length)
        (itemBytes items).length = itemBytes items ∧
      thread.retSize = thread.index + item.bytes.length + (itemBytes items).length ∧
      thread.index ≠ thread.retSize := by
  have split := holds.bytes
  have size := holds.size
  rw [Server.itemBytes_cons, List.length_append, Buffer.slice_add] at split
  rw [Server.itemBytes_cons, List.length_append] at size
  rcases List.append_inj' split (Buffer.slice_length _ _ _) with ⟨here, later⟩
  have positive : 0 < item.bytes.length := by
    rw [ShareItem.bytes_length, shareEntrySize]
    omega
  exact ⟨here, later, by omega, by omega⟩

variable {capacity : Nat}

theorem Holds.nextShare (holds : thread.Holds (item :: items)) (sized : Sized item)
    (fits : item.data.length ≤ capacity) :
    ∃ next, thread.nextShare capacity = .ok next ∧ next.Holds items ∧
      next.items = thread.items ++ [item] ∧ next.incoming = thread.incoming := by
  rcases holds.cons with ⟨here, later, size, inside⟩
  rcases ShareItem.slice_bytes here with ⟨secretID, secretSize, shareSize, data⟩
  have place : thread.index + shareEntrySize + item.data.length =
      thread.index + item.bytes.length := by
    rw [ShareItem.bytes_length, Nat.add_assoc]
  rw [DownloadThread.nextShare, if_neg inside]
  have length : item.shareSize.toNat = item.data.length := sized
  simp only [takeShare, secretID, secretSize, shareSize, length, data, place]
  rw [if_neg (Nat.not_lt.mpr fits)]
  exact ⟨_, rfl, ⟨later, size⟩, rfl, rfl⟩

theorem Holds.overflows (holds : thread.Holds (item :: items)) (sized : Sized item)
    (large : capacity < item.data.length) :
    thread.nextShare capacity = .error .overflows := by
  rcases holds.cons with ⟨here, later, size, inside⟩
  rcases ShareItem.slice_bytes here with ⟨secretID, secretSize, shareSize, data⟩
  rw [DownloadThread.nextShare, if_neg inside]
  have length : item.shareSize.toNat = item.data.length := sized
  simp only [takeShare, shareSize, length]
  rw [if_pos large]

theorem Holds.nextShares (holds : thread.Holds items) (sized : ∀ item ∈ items, Sized item)
    (fits : ∀ item ∈ items, item.data.length ≤ capacity) (count : Nat) :
    ∃ next : DownloadThread, thread.nextShares capacity (items.length + count) =
        next.nextShares capacity count ∧
      next.index = next.retSize ∧ next.items = thread.items ++ items ∧
      next.incoming = thread.incoming := by
  induction items generalizing thread with
  | nil =>
      refine ⟨thread, by rw [List.length_nil, Nat.zero_add], ?_, (List.append_nil _).symm, rfl⟩
      exact holds.size.symm
  | cons item items induction =>
      rcases holds.nextShare (sized item List.mem_cons_self) (fits item List.mem_cons_self)
        with ⟨next, passes, held, taken, incoming⟩
      rcases induction held (fun other member => sized other (List.mem_cons_of_mem _ member))
        (fun other member => fits other (List.mem_cons_of_mem _ member)) with
        ⟨final, rest, ended, items, left⟩
      refine ⟨final, ?_, ended, ?_, left.trans incoming⟩
      · rw [List.length_cons, Nat.add_right_comm, DownloadThread.nextShares, passes, ← rest]
        rfl
      · rw [items, taken, List.append_assoc]
        rfl

private theorem nextShares_frame (ended : thread.index = thread.retSize) (nonempty : items ≠ [])
    (incoming : thread.incoming = frame (itemBytes items) ++ rest)
    (small : (itemBytes items).length ≤ downloadBufferSize) (capacity : Nat) :
    ∃ opened : DownloadThread, opened.Holds items ∧ opened.items = thread.items ∧
      opened.incoming = rest ∧ ∀ count, thread.nextShares capacity (items.length + count) =
        opened.nextShares capacity (items.length + count) := by
  let opened : DownloadThread :=
    { thread with
      downloadContainer := thread.downloadContainer.write 0 (itemBytes items)
      retSize := (itemBytes items).length
      index := 0
      incoming := rest }
  have received : thread.downloadChunk = .ok opened :=
    downloadChunk_frame thread incoming small
  have holds : opened.Holds items :=
    ⟨Buffer.slice_write thread.downloadContainer 0 (itemBytes items), (Nat.zero_add _).symm⟩
  refine ⟨opened, holds, rfl, rfl, ?_⟩
  intro count
  cases items with
  | nil => exact absurd rfl nonempty
  | cons item items =>
      have inside := holds.cons.2.2.2
      have opens : thread.nextShare capacity = opened.nextShare capacity := by
        rw [DownloadThread.nextShare, DownloadThread.nextShare, if_pos ended,
          if_neg inside, received, Except.bind]
      rw [List.length_cons, Nat.add_right_comm, DownloadThread.nextShares,
        DownloadThread.nextShares, opens]

variable {packets : List (List ShareItem)}

private theorem nextShares_packets (ended : thread.index = thread.retSize)
    (nonempty : ∀ packet ∈ packets, packet ≠ [])
    (incoming : thread.incoming = (packets.map fun packet => frame (itemBytes packet)).flatten ++
      rest)
    (small : ∀ packet ∈ packets, (itemBytes packet).length ≤ downloadBufferSize)
    (sized : ∀ item ∈ packets.flatten, Sized item)
    (fits : ∀ item ∈ packets.flatten, item.data.length ≤ capacity) :
    ∃ final, thread.nextShares capacity packets.flatten.length = .ok final ∧
      final.items = thread.items ++ packets.flatten ∧ final.incoming = rest := by
  induction packets generalizing thread with
  | nil => exact ⟨thread, rfl, (List.append_nil _).symm, incoming⟩
  | cons packet packets induction =>
      rw [List.map_cons, List.flatten_cons, List.append_assoc] at incoming
      rcases nextShares_frame ended (nonempty packet List.mem_cons_self) incoming
        (small packet List.mem_cons_self) capacity with
        ⟨opened, holds, unchanged, left, opens⟩
      rcases holds.nextShares
        (fun item member => sized item (List.mem_append_left _ member))
        (fun item member => fits item (List.mem_append_left _ member))
        packets.flatten.length with ⟨next, taken, finished, items, kept⟩
      rcases induction finished
        (fun other member => nonempty other (List.mem_cons_of_mem _ member))
        (kept.trans left)
        (fun other member => small other (List.mem_cons_of_mem _ member))
        (fun item member => sized item (List.mem_append_right _ member))
        (fun item member => fits item (List.mem_append_right _ member)) with
        ⟨final, returns, all, remaining⟩
      refine ⟨final, ?_, ?_, remaining⟩
      · rw [List.flatten_cons, List.length_append, opens, taken, returns]
      · rw [all, items, unchanged, List.append_assoc, List.flatten_cons]

variable {head : ShareFileHead} {padding : List Byte}

variable (padded : padding.length = headPaddingSize)
include padded

theorem downloadChunk_head (rest : List Byte)
    (small : (head.bytes padding ++ itemBytes items).length ≤ downloadBufferSize)
    (downloadContainer : Buffer Byte) :
    ∃ thread, downloadChunk ⟨downloadContainer, 0, 0, [],
        frame (head.bytes padding ++ itemBytes items) ++ rest⟩ = .ok thread ∧
      thread.head = head ∧ Holds { thread with index := shareFileHeadSize } items ∧
      thread.items = [] ∧ thread.incoming = rest := by
  have size := head.bytes_length padded
  have received := downloadChunk_frame ⟨downloadContainer, 0, 0, [],
    frame (head.bytes padding ++ itemBytes items) ++ rest⟩ rfl small
  have whole := Buffer.slice_write downloadContainer 0 (head.bytes padding ++ itemBytes items)
  rw [List.length_append, Buffer.slice_add, size] at whole
  rcases List.append_inj' whole (Buffer.slice_length _ _ _) with ⟨front, back⟩
  rcases ShareFileHead.slice_bytes padded front with ⟨fileSize, numOfShares⟩
  refine ⟨_, received, ?_, ⟨?_, ?_⟩, rfl, rfl⟩
  · rw [DownloadThread.head, fileSize, numOfShares]
  · rw [Nat.zero_add] at back
    exact back
  · simp only [List.length_append, size]

theorem handle_packets {first : List ShareItem} (rest : List Byte)
    (small : (head.bytes padding ++ itemBytes first).length ≤ downloadBufferSize)
    (smallPackets : ∀ packet ∈ packets, (itemBytes packet).length ≤ downloadBufferSize)
    (nonempty : ∀ packet ∈ packets, packet ≠ [])
    (sized : ∀ item ∈ first ++ packets.flatten, Sized item)
    (fits : ∀ item ∈ first ++ packets.flatten, item.data.length ≤ capacity)
    (count : head.numOfShares.toInt = (first ++ packets.flatten).length)
    (some_item : first ++ packets.flatten ≠ []) (downloadContainer : Buffer Byte) :
    handle capacity downloadContainer ((((head.bytes padding ++ itemBytes first) ::
      packets.map itemBytes).map frame).flatten ++ rest) =
        .ok (head, first ++ packets.flatten, rest) := by
  have positive : ¬ head.numOfShares.toInt ≤ 0 := by
    have length := List.length_pos_iff.mpr some_item
    omega
  rcases downloadChunk_head padded
    ((packets.map fun packet => frame (itemBytes packet)).flatten ++ rest) small
    downloadContainer with ⟨thread, received, headed, holds, empty, left⟩
  rcases holds.nextShares (fun item member => sized item (List.mem_append_left _ member))
    (fun item member => fits item (List.mem_append_left _ member)) packets.flatten.length
    with ⟨next, taken, ended, items, kept⟩
  rcases nextShares_packets ended nonempty (kept.trans left) smallPackets
    (fun item member => sized item (List.mem_append_right _ member))
    (fun item member => fits item (List.mem_append_right _ member)) with
    ⟨final, returns, all, remaining⟩
  have passes : nextShares capacity head.numOfShares.toInt.toNat
      { thread with index := shareFileHeadSize } = .ok final := by
    rw [count, Int.toNat_natCast, List.length_append, taken, returns]
  have messages : (((head.bytes padding ++ itemBytes first) ::
      packets.map itemBytes).map frame).flatten ++ rest =
        frame (head.bytes padding ++ itemBytes first) ++
          ((packets.map fun packet => frame (itemBytes packet)).flatten ++ rest) := by
    rw [List.map_cons, List.flatten_cons, List.map_map, List.append_assoc]
    rfl
  rw [messages, handle, received, Except.bind, receiveShares, headed, if_neg positive, passes,
    Except.map, all, items, remaining, empty, List.nil_append]

theorem handle_overflows (rest : List Byte)
    (small : (head.bytes padding ++ itemBytes (item :: items)).length ≤ downloadBufferSize)
    (sized : Sized item) (large : capacity < item.data.length)
    (positive : 0 < head.numOfShares.toInt) (downloadContainer : Buffer Byte) :
    handle capacity downloadContainer
      (frame (head.bytes padding ++ itemBytes (item :: items)) ++ rest) =
        .error .overflows := by
  rcases downloadChunk_head padded rest small downloadContainer with
    ⟨thread, received, headed, holds, _, _⟩
  have count : head.numOfShares.toInt.toNat = head.numOfShares.toInt.toNat - 1 + 1 := by
    omega
  rw [handle, received, Except.bind, receiveShares, headed, if_neg (Int.not_le.mpr positive),
    count, nextShares, holds.overflows sized large]
  rfl

end DownloadThread

end MetaDedup.Downloader
