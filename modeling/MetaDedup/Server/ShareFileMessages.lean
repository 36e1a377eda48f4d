import Mathlib.Data.List.TakeWhile
import MetaDedup.Server.RestoreShares

/-! # The messages of a restored file

The payloads of the messages are the head and the items of the shares, packed into
messages of bounded size. -/

namespace MetaDedup.Server

open Foundation Wire

/-- The head of the share file made from the head of a recipe. -/
def FileRecipeHead.shareFileHead (head : FileRecipeHead) : ShareFileHead :=
  ⟨BitVec.ofInt 64 head.fileSize, BitVec.ofInt 32 head.numOfShares⟩

def FileRecipeEntry.item (entry : FileRecipeEntry) (share : List Byte) : ShareItem :=
  ⟨BitVec.ofInt 32 entry.secretID, BitVec.ofInt 32 entry.secretSize,
    BitVec.ofInt 32 share.length, share⟩

def itemBytes (items : List ShareItem) : List Byte := (items.map ShareItem.bytes).flatten

theorem itemBytes_cons (item : ShareItem) (items : List ShareItem) :
    itemBytes (item :: items) = item.bytes ++ itemBytes items := rfl

theorem itemBytes_length (items : List ShareItem) :
    (itemBytes items).length = Packets.total (fun item => item.bytes.length) items := by
  rw [itemBytes, List.length_flatten, List.map_map]
  rfl

namespace ShareStream

/-- The messages with the given payloads have been sent, and the buffer has the payload
of the next one. -/
structure Carries (stream : ShareStream) (payloads : List (List Byte))
    (current : List Byte) : Prop where
  sent : stream.sent = payloads.map frame
  offset : stream.shareFileBufferOffset = msgHeadSize + current.length
  buffer : stream.shareFileBuffer.slice msgHeadSize current.length = current

variable {stream : ShareStream} {payloads : List (List Byte)} {current : List Byte}

private theorem start_carries (shareFileBuffer : Buffer Byte) (head : FileRecipeHead) :
    ∃ padding, padding.length = headPaddingSize ∧
      (start shareFileBuffer head).Carries [] (head.shareFileHead.bytes padding) := by
  let fields := wordBytes longSize head.shareFileHead.fileSize.toNat ++
    wordBytes intSize head.shareFileHead.numOfShares.toNat
  have size : fields.length = longSize + intSize := by
    rw [List.length_append, wordBytes_length, wordBytes_length]
  have written : (start shareFileBuffer head).shareFileBuffer.slice msgHeadSize
      fields.length = fields := by
    have first : (shareFileBuffer.writeInt msgHeadSize longSize head.fileSize).slice
        msgHeadSize (wordBytes longSize head.shareFileHead.fileSize.toNat).length =
          wordBytes longSize head.shareFileHead.fileSize.toNat :=
      Buffer.slice_write _ _ _
    exact Buffer.slice_write_append _ first (by rw [wordBytes_length]; rfl) _
  refine ⟨(start shareFileBuffer head).shareFileBuffer.slice
    (msgHeadSize + fields.length) headPaddingSize, Buffer.slice_length _ _ _, rfl, ?_, ?_⟩
  · rw [ShareFileHead.bytes, List.length_append, Buffer.slice_length, size]
    rfl
  · rw [ShareFileHead.bytes, List.length_append, Buffer.slice_length, Buffer.slice_add,
      written]

private theorem slice_message {buffer : Buffer Byte} {payload : List Byte}
    (holds : buffer.slice msgHeadSize payload.length = payload) :
    ((buffer.write 0 (htonl (-5))).write intSize
      (htonl (BitVec.ofNat 32 payload.length))).slice 0 (msgHeadSize + payload.length) =
        frame payload := by
  have indicator : (buffer.write 0 (htonl (-5))).slice 0 (htonl (-5)).length = htonl (-5) :=
    Buffer.slice_write _ _ _
  have head := Buffer.slice_write_append intSize indicator
    (by rw [htonl_length]; rfl) (htonl (BitVec.ofNat 32 payload.length))
  rw [List.length_append, htonl_length, htonl_length] at head
  have apart : ∀ value : BitVec 32, intSize + (htonl value).length ≤ msgHeadSize := by
    intro value
    rw [htonl_length]
    decide
  have rest : ((buffer.write 0 (htonl (-5))).write intSize
      (htonl (BitVec.ofNat 32 payload.length))).slice msgHeadSize payload.length =
        payload := by
    rw [Buffer.slice_write_of_disjoint _ (.inr (apart _)),
      Buffer.slice_write_of_disjoint _ (.inr (Nat.le_trans (by omega) (apart (-5)))), holds]
  rw [Buffer.slice_add, Nat.zero_add, rest, frame]
  exact congrArg (· ++ payload) head

theorem Carries.send (carries : stream.Carries payloads current) {socket : Nat → Bool}
    (succeeds : socket stream.sent.length = true) :
    ∃ next, stream.send socket = .ok next ∧ next.Carries (payloads ++ [current]) [] := by
  rw [ShareStream.send, if_pos succeeds, carries.offset, Nat.add_sub_cancel_left,
    slice_message carries.buffer]
  refine ⟨_, rfl, ?_, rfl, rfl⟩
  rw [List.map_append, ← carries.sent]
  rfl

theorem send_fails {socket : Nat → Bool} (fails : socket stream.sent.length = false) :
    ∃ stopped, stream.send socket = .error stopped ∧ stopped.sent = stream.sent := by
  rw [ShareStream.send, if_neg (by simp [fails])]
  exact ⟨_, rfl, rfl⟩

theorem Carries.putShare (carries : stream.Carries payloads current)
    (entry : FileRecipeEntry) (share : List Byte) :
    (stream.putShare entry share).Carries payloads
      (current ++ (entry.item share).bytes) where
  sent := carries.sent
  offset := by
    rw [List.length_append, ShareItem.bytes_length, ← Nat.add_assoc, ← Nat.add_assoc,
      ← carries.offset]
    rfl
  buffer := by
    have offset := carries.offset
    have secretID := Buffer.slice_write_append _ carries.buffer offset
      (wordBytes intSize (entry.item share).secretID.toNat)
    have secretSize := Buffer.slice_write_append
      (stream.shareFileBufferOffset + entrySecretSizeAt) secretID
      (by rw [offset, List.length_append, wordBytes_length, Nat.add_assoc]; rfl)
      (wordBytes intSize (entry.item share).secretSize.toNat)
    have shareSize := Buffer.slice_write_append
      (stream.shareFileBufferOffset + entryShareSizeAt) secretSize
      (by
        rw [offset, List.length_append, List.length_append, wordBytes_length,
          wordBytes_length, Nat.add_assoc, Nat.add_assoc]
        rfl)
      (wordBytes intSize (entry.item share).shareSize.toNat)
    have data := Buffer.slice_write_append
      (stream.shareFileBufferOffset + shareEntrySize) shareSize
      (by
        rw [offset, List.length_append, List.length_append, List.length_append,
          wordBytes_length, wordBytes_length, wordBytes_length, Nat.add_assoc,
          Nat.add_assoc, Nat.add_assoc]
        rfl)
      share
    rw [ShareItem.bytes, ← List.append_assoc, ← List.append_assoc, ← List.append_assoc]
    exact data

end ShareStream

/-! ## The messages for a recipe -/

/-- The entries of each message, when so much of the next one is used already. -/
def packEntries (item : FileRecipeEntry → ShareItem) (used : Nat)
    (entries : List FileRecipeEntry) : List (List FileRecipeEntry) :=
  let packed := Packets.pack shareFileBufferSize (fun entry => (item entry).bytes.length)
    used entries
  packed.1 :: packed.2

/-- The payloads for entries, when the next one has a beginning already. -/
def messagesOf (item : FileRecipeEntry → ShareItem) (current : List Byte)
    (entries : List FileRecipeEntry) : List (List Byte) :=
  ((packEntries item current.length entries).map fun packet =>
    itemBytes (packet.map item)).modifyHead (current ++ ·)

private theorem messagesOf_cons (item : FileRecipeEntry → ShareItem) (current : List Byte)
    (entry : FileRecipeEntry) (entries : List FileRecipeEntry) :
    messagesOf item current (entry :: entries) =
      if current.length + (item entry).bytes.length > shareFileBufferSize then
        current :: messagesOf item (item entry).bytes entries
      else messagesOf item (current ++ (item entry).bytes) entries := by
  rw [messagesOf, packEntries, Packets.pack]
  split
  · simp [messagesOf, packEntries, itemBytes]
  · simp [messagesOf, packEntries, itemBytes]

private theorem messagesOf_ne_nil {item : FileRecipeEntry → ShareItem} {current : List Byte}
    {entries : List FileRecipeEntry} : messagesOf item current entries ≠ [] :=
  List.cons_ne_nil _ _

/-- The messages that are sent when every call of `send` succeeds: on an error the last one
stays in the buffer. -/
def sentMessages (complete : Bool) (messages : List α) : List α :=
  if complete then messages else messages.dropLast

theorem sentMessages_eq_take (complete : Bool) (messages : List α) :
    sentMessages complete messages =
      messages.take (messages.length - if complete then 0 else 1) := by
  cases complete with
  | true => exact List.take_length.symm
  | false => exact List.dropLast_eq_take

/-- What a call does when it has sent some payloads before and has those of the messages to
send: it sends the first of them, and all it can when every call of `send` succeeds. -/
structure Sends (socket : Nat → Bool) (payloads messages : List (List Byte))
    (complete : Bool) (result : Except Restoration Restoration) : Prop where
  sent : ∃ made, made <+: sentMessages complete messages ∧
    (Loop.outcome result).stream.sent = (payloads ++ made).map frame
  all : (∀ call, socket call = true) →
    (Loop.outcome result).stream.sent =
      (payloads ++ sentMessages complete messages).map frame
  returns : (∀ call, socket call = true) → complete = true → ∃ final, result = .ok final

theorem sends_of_error {socket : Nat → Bool} {payloads messages : List (List Byte)}
    {complete : Bool} {stopped : Restoration} (sent : stopped.stream.sent = payloads.map frame)
    (cause : (∀ call, socket call = true) →
      complete = false ∧ sentMessages complete messages = []) :
    Sends socket payloads messages complete (.error stopped) where
  sent := ⟨[], List.nil_prefix, by simpa using sent⟩
  all := fun succeeds => by simpa [(cause succeeds).2] using sent
  returns := fun succeeds whole => by simp [(cause succeeds).1] at whole

theorem Sends.cons {socket : Nat → Bool} {payloads messages : List (List Byte)}
    {current : List Byte} {complete : Bool} {result : Except Restoration Restoration}
    (sends : Sends socket (payloads ++ [current]) messages complete result)
    (follows : messages ≠ []) :
    Sends socket payloads (current :: messages) complete result := by
  have next : sentMessages complete (current :: messages) =
      current :: sentMessages complete messages := by
    cases complete with
    | true => rfl
    | false => exact List.dropLast_cons_of_ne_nil follows
  rcases sends with ⟨⟨made, begins, sent⟩, all, returns⟩
  constructor
  · refine ⟨current :: made, ?_, by simpa using sent⟩
    rw [next]
    exact List.cons_prefix_cons.mpr ⟨rfl, begins⟩
  · intro succeeds
    simpa [next] using all succeeds
  · exact returns

namespace ShareStore

variable (store : ShareStore) (buffers : List ShareContainerBuffer)

/-- The share of an entry is listed, and its container can be read. -/
def available (entry : FileRecipeEntry) : Bool :=
  (store.shareIndex entry.shareFP).any fun value =>
    (store.loadShareContainer buffers value.shareContainerName).isSome

/-- What is put into a message for an entry. -/
def restoredItem (stale : Buffer Byte) (entry : FileRecipeEntry) : ShareItem :=
  entry.item ((store.shareIndex entry.shareFP).elim [] fun value =>
    cachedShare stale
      ((store.loadShareContainer buffers value.shareContainerName).getD []) value)

end ShareStore

section Restore

variable {store : ShareStore} {buffers : List ShareContainerBuffer} (socket : Nat → Bool)
  (stale : Buffer Byte) {restoration : Restoration} {payloads : List (List Byte)}
  {current : List Byte} {entry : FileRecipeEntry}

section

variable (faithful : RecentCache.Faithful (store.loadShareContainer buffers)
  restoration.shareContainerCache)
include faithful

private theorem restoreShare_of_unavailable (missing : store.available buffers entry = false) :
    store.restoreShare buffers socket stale restoration entry = .error restoration := by
  cases found : store.shareIndex entry.shareFP with
  | none => simp only [ShareStore.restoreShare, found]
  | some value =>
      rcases faithful.fetch numOfCachedContainers value.shareContainerName with
        ⟨_, fetches⟩ | ⟨container, cache, present, _⟩
      · simp only [ShareStore.restoreShare, found, fetches]
      · simp [ShareStore.available, found, present] at missing

private theorem restoreShare_of_available (available : store.available buffers entry = true) :
    ∃ cache share, RecentCache.Faithful (store.loadShareContainer buffers) cache ∧
      store.restoredItem buffers stale entry = entry.item share ∧
      store.restoreShare buffers socket stale restoration entry =
        match restoration.stream.makeRoom socket share.length with
        | .error stream => .error ⟨cache, stream⟩
        | .ok stream => .ok ⟨cache, stream.putShare entry share⟩ := by
  rw [ShareStore.available] at available
  cases found : store.shareIndex entry.shareFP with
  | none => simp [found] at available
  | some value =>
      rcases faithful.fetch numOfCachedContainers value.shareContainerName with
        ⟨absent, _⟩ | ⟨container, cache, present, fetches, kept⟩
      · simp [found, absent] at available
      · refine ⟨cache, ShareStore.cachedShare stale container value, kept, ?_, ?_⟩
        · simp [ShareStore.restoredItem, found, present]
        · rw [ShareStore.cachedShare, Buffer.slice_length]
          cases room : restoration.stream.makeRoom socket value.shareSize <;>
            simp only [ShareStore.restoreShare, found, fetches, room, ShareStore.cachedShare]

/-- A pass of the loop for a share that is available. A message is sent first when the
share does not fit. -/
theorem restoreShare_carries (carries : restoration.stream.Carries payloads current)
    (available : store.available buffers entry = true) :
    let item := store.restoredItem buffers stale entry
    (socket restoration.stream.sent.length = false ∧
      ∃ stopped, store.restoreShare buffers socket stale restoration entry =
          .error stopped ∧ stopped.stream.sent = restoration.stream.sent) ∨
    ∃ next, store.restoreShare buffers socket stale restoration entry = .ok next ∧
      RecentCache.Faithful (store.loadShareContainer buffers) next.shareContainerCache ∧
      if current.length + item.bytes.length > shareFileBufferSize then
        next.stream.Carries (payloads ++ [current]) item.bytes
      else next.stream.Carries payloads (current ++ item.bytes) := by
  rcases restoreShare_of_available socket stale faithful available with
    ⟨cache, share, kept, item, passes⟩
  have full : restoration.stream.shareFileBufferOffset + shareEntrySize + share.length >
      msgHeadSize + shareFileBufferSize ↔
        current.length + (entry.item share).bytes.length > shareFileBufferSize := by
    have size : (entry.item share).data.length = share.length := rfl
    rw [carries.offset, ShareItem.bytes_length, size]
    omega
  rw [item, passes, ShareStream.makeRoom]
  by_cases overflows : current.length + (entry.item share).bytes.length > shareFileBufferSize
  · rw [if_pos (full.mpr overflows)]
    cases works : socket restoration.stream.sent.length with
    | false =>
        rcases ShareStream.send_fails works with ⟨stopped, sends, unchanged⟩
        exact .inl ⟨rfl, ⟨cache, stopped⟩, by rw [sends], unchanged⟩
    | true =>
        rcases carries.send works with ⟨sent, sends, empty⟩
        refine .inr ⟨⟨cache, sent.putShare entry share⟩, by rw [sends], kept, ?_⟩
        rw [if_pos overflows]
        exact empty.putShare entry share
  · rw [if_neg (mt full.mp overflows)]
    refine .inr ⟨_, rfl, kept, ?_⟩
    rw [if_neg overflows]
    exact carries.putShare entry share

end

/-- The end of a call after the loop. When the recipe file is too short, it returns before
the last message. -/
def concludeRestore (short : Bool) (restoration : Restoration) :
    Except Restoration Restoration :=
  if short then .error restoration else ShareStore.finishRestore socket restoration

private theorem concludeRestore_sends (carries : restoration.stream.Carries payloads current)
    (begun : current ≠ []) (short : Bool) :
    Sends socket payloads [current] (!short) (concludeRestore socket short restoration) := by
  cases short with
  | true => exact sends_of_error carries.sent fun _ => ⟨rfl, rfl⟩
  | false =>
      have waiting : restoration.stream.shareFileBufferOffset > msgHeadSize := by
        have positive := List.length_pos_iff.mpr begun
        rw [carries.offset]
        omega
      simp only [concludeRestore, Bool.false_eq_true, if_false, ShareStore.finishRestore,
        ShareStream.finish, if_pos waiting]
      cases works : socket restoration.stream.sent.length with
      | false =>
          rcases ShareStream.send_fails works with ⟨stopped, sends, unchanged⟩
          rw [sends]
          exact sends_of_error (unchanged.trans carries.sent) fun succeeds => by
            simp [succeeds] at works
      | true =>
          rcases carries.send works with ⟨sent, sends, empty⟩
          rw [sends]
          exact ⟨⟨[current], List.prefix_rfl, empty.sent⟩, fun _ => empty.sent,
            fun _ _ => ⟨_, rfl⟩⟩

/-- The messages of a call. A share that is not available ends it, and what is in the
buffer then is not sent. -/
theorem restore_sends {entries : List FileRecipeEntry}
    (faithful : RecentCache.Faithful (store.loadShareContainer buffers)
      restoration.shareContainerCache)
    (carries : restoration.stream.Carries payloads current) (begun : current ≠ [])
    (short : Bool) :
    Sends socket payloads
      (messagesOf (store.restoredItem buffers stale) current
        (entries.takeWhile (store.available buffers)))
      (entries.all (store.available buffers) && !short)
      ((entries.foldlM (store.restoreShare buffers socket stale) restoration).bind
        (concludeRestore socket short)) := by
  induction entries generalizing restoration payloads current with
  | nil =>
      have only : messagesOf (store.restoredItem buffers stale) current [] = [current] := by
        simp [messagesOf, packEntries, Packets.pack, itemBytes]
      rw [List.takeWhile_nil, only]
      exact concludeRestore_sends socket carries begun short
  | cons entry entries induction =>
      rw [List.foldlM_cons]
      cases available : store.available buffers entry with
      | false =>
          rw [restoreShare_of_unavailable socket stale faithful available,
            List.takeWhile_cons, List.all_cons, available]
          exact sends_of_error carries.sent fun _ => ⟨rfl, rfl⟩
      | true =>
          have nonempty : (store.restoredItem buffers stale entry).bytes ≠ [] := by
            intro empty
            have size := ShareItem.bytes_length (store.restoredItem buffers stale entry)
            rw [empty, List.length_nil, shareEntrySize] at size
            omega
          simp only [List.takeWhile_cons, available, if_true, List.all_cons, Bool.true_and,
            messagesOf_cons]
          rcases restoreShare_carries socket stale faithful carries available with
            ⟨fails, stopped, stops, unchanged⟩ | ⟨next, passes, kept, carried⟩
          · rw [stops]
            exact sends_of_error (unchanged.trans carries.sent) fun succeeds => by
              simp [succeeds] at fails
          · rw [passes]
            split at carried
            next overflows =>
              rw [if_pos overflows]
              exact (induction kept carried nonempty).cons messagesOf_ne_nil
            next fits =>
              rw [if_neg fits]
              exact induction kept carried (List.append_ne_nil_of_left_ne_nil begun _)

/-- The messages of a call from its beginning. The first one begins with the head of the
share file. -/
theorem restore_sends_start (store : ShareStore) (buffers : List ShareContainerBuffer)
    (entries : List FileRecipeEntry) (shareFileBuffer : Buffer Byte) (head : FileRecipeHead)
    (short : Bool) :
    ∃ padding, padding.length = headPaddingSize ∧
      Sends socket []
        (messagesOf (store.restoredItem buffers stale) (head.shareFileHead.bytes padding)
          (entries.takeWhile (store.available buffers)))
        (entries.all (store.available buffers) && !short)
        ((entries.foldlM (store.restoreShare buffers socket stale)
          ⟨[], .start shareFileBuffer head⟩).bind (concludeRestore socket short)) := by
  rcases ShareStream.start_carries shareFileBuffer head with ⟨padding, padded, carries⟩
  have begun : head.shareFileHead.bytes padding ≠ [] := by
    intro empty
    have size := head.shareFileHead.bytes_length padded
    rw [empty] at size
    cases size
  exact ⟨padding, padded, restore_sends socket stale .nil carries begun short⟩

/-! ## A recipe whose shares can be read -/

/-- An entry of a recipe names a share that is in the index and in its container. -/
def Restorable (store : ShareStore) (buffers : List ShareContainerBuffer)
    (entry : FileRecipeEntry) (share : List Byte) : Prop :=
  ∃ value container, store.shareIndex entry.shareFP = some value ∧
    store.loadShareContainer buffers value.shareContainerName = some container ∧
    region container value.shareContainerOffset value.shareSize = some share

theorem ShareStore.cachedShare_of_region {container share : List Byte}
    {value : ShareIndexValue}
    (found : region container value.shareContainerOffset value.shareSize = some share) :
    cachedShare stale container value = share := by
  rcases region_eq_some_iff.mp found with ⟨inside, rfl⟩
  apply List.ext_getElem
  · rw [cachedShare, Buffer.slice_length, List.length_take, List.length_drop]
    omega
  · intro position _ bounded
    rw [List.length_take, List.length_drop] at bounded
    simp only [cachedShare, Buffer.slice, List.getElem_map, List.getElem_range,
      Buffer.advance_apply, List.getElem_take, List.getElem_drop]
    rw [List.getD_eq_getElem?_getD, List.getElem?_eq_getElem (by omega), Option.getD_some]

theorem Restorable.available {share : List Byte}
    (restorable : Restorable store buffers entry share) :
    store.available buffers entry = true := by
  rcases restorable with ⟨value, container, found, loaded, _⟩
  simp [ShareStore.available, found, loaded]

theorem Restorable.restoredItem {share : List Byte}
    (restorable : Restorable store buffers entry share) :
    store.restoredItem buffers stale entry = entry.item share := by
  rcases restorable with ⟨value, container, found, loaded, inside⟩
  simp [ShareStore.restoredItem, found, loaded, ShareStore.cachedShare_of_region stale inside]

variable {socket} {entries : List FileRecipeEntry} {shares : List (List Byte)}

private theorem items_of_restorable
    (restorable : List.Forall₂ (Restorable store buffers) entries shares) :
    entries.map (store.restoredItem buffers stale) =
      List.zipWith FileRecipeEntry.item entries shares := by
  induction restorable with
  | nil => rfl
  | cons first _ induction =>
      rw [List.map_cons, List.zipWith_cons_cons, induction, first.restoredItem]

/-- The messages of a recipe whose shares can all be read: the head and the items, packed
into messages. -/
theorem restoreShares_of_restorable
    (restorable : List.Forall₂ (Restorable store buffers) entries shares)
    (succeeds : ∀ call, socket call = true) (shareFileBuffer : Buffer Byte)
    (head : FileRecipeHead) :
    let packed := Packets.pack shareFileBufferSize (fun item => item.bytes.length)
      shareFileHeadSize (List.zipWith FileRecipeEntry.item entries shares)
    ∃ final padding, padding.length = headPaddingSize ∧
      store.restoreShares buffers socket stale shareFileBuffer head entries = .ok final ∧
      final.stream.sent = ((head.shareFileHead.bytes padding ++ itemBytes packed.1) ::
        packed.2.map itemBytes).map frame := by
  have all : ∀ entry ∈ entries, store.available buffers entry = true := by
    intro entry member
    rcases List.forall₂_iff_get.mp restorable with ⟨lengths, each⟩
    rcases List.get_of_mem member with ⟨index, rfl⟩
    exact (each index.val index.isLt (lengths ▸ index.isLt)).available
  rcases restore_sends_start socket stale store buffers entries shareFileBuffer head false with
    ⟨padding, padded, sends⟩
  rw [List.takeWhile_eq_self_iff.mpr all, List.all_eq_true.mpr all] at sends
  rcases sends.returns succeeds rfl with ⟨final, returns⟩
  have sent := sends.all succeeds
  rw [returns] at sent
  refine ⟨final, padding, padded, returns, sent.trans ?_⟩
  rw [← items_of_restorable stale restorable, Packets.pack_map]
  simp [sentMessages, messagesOf, packEntries, head.shareFileHead.bytes_length padded,
    Function.comp_def]

end Restore

end MetaDedup.Server
