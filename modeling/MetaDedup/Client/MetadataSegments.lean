import MetaDedup.Client.RepetitiveFiles

/-! # The buffers for metadata chunks

The metadata of the shares since the last cut is collected in a buffer for 512 records.
The cuts depend on the fingerprints of the shares and on their size, but not on their
number, so that the records fit only if the fingerprints or the sizes make a cut in time. -/

namespace MetaDedup.Encoder

open Foundation Wire
open Server (Fingerprint)
open UploadLoop (emission emission_bounded)
open Chunker (defaultChunker)

/-- `SECRET_SIZE_META`. -/
def secretSizeMeta : Nat := 32 * 1024

/-- `RING_BUFFER_META_SIZE`. -/
def ringBufferMetaSize : Nat := 32 * 1024

def segmentCapacity : Nat := secretSizeMeta / metaNodeSize

def segmentTotal (shares : List DataShare) : Nat :=
  (shares.map fun share => share.node.shareSize.toNat).sum

theorem segmentTotal_append (first second : List DataShare) :
    segmentTotal (first ++ second) = segmentTotal first + segmentTotal second := by
  rw [segmentTotal, List.map_append, List.sum_append, segmentTotal, segmentTotal]

theorem segmentTotal_singleton (share : DataShare) :
    segmentTotal [share] = share.node.shareSize.toNat := by
  rw [segmentTotal, List.map_singleton, List.sum_singleton]

/-! ## The shares since the last cut -/

variable {collected segment : List DataShare} {collector : Collector} {collection : Collection}

/-- The shares since the last cut. They are at the end of those that have been collected,
none of them matches the pattern, and together they are not too large. -/
structure Segment (collected : List DataShare) (collector : Collector)
    (segment : List DataShare) : Prop where
  recent : segment <:+ collected
  counter : collector.metaChunkCounter = segment.length
  size : collector.segSizeTemp.toNat = segmentTotal segment
  small : segmentTotal segment ≤ maxSegmentSize
  unmatched : ∀ share ∈ segment, matchesPattern share.node.shareFP = false

def SmallShare (share : DataShare) : Prop := share.node.shareSize.toNat < 2 ^ 31

theorem Segment.addNode_size (holds : Segment collected collector segment) {share : DataShare}
    (small : SmallShare share) :
    (collector.addNode share.node).segSizeTemp.toNat = segmentTotal (segment ++ [share]) := by
  have limit : maxSegmentSize < 2 ^ 32 := by decide
  have bounded := holds.small
  rw [SmallShare] at small
  have extended : (share.node.shareSize.signExtend 64).toNat = share.node.shareSize.toNat := by
    rw [BitVec.signExtend_eq_setWidth_of_msb_false
      (BitVec.msb_eq_false_iff_two_mul_lt.mpr (by omega)), BitVec.toNat_setWidth_of_le (by decide)]
  rw [Collector.addNode, BitVec.toNat_add, extended, holds.size, segmentTotal_append,
    segmentTotal_singleton, Nat.mod_eq_of_lt (by omega)]

theorem Segment.start (metaChunkBuffer : Buffer Byte) :
    Segment [] (Collector.start metaChunkBuffer) [] :=
  ⟨List.suffix_rfl, rfl, rfl, Nat.zero_le _, fun _ member => nomatch member⟩

theorem Segment.add_uncut (crypto : CryptoPrimitive)
    (holds : Segment collected collection.collector segment)
    {share : DataShare} (small : SmallShare share) (memory : StackMemory)
    (uncut : ¬(collection.collector.addNode share.node).cutsAfter share = true) :
    Segment (collected ++ [share]) (collection.add crypto (share, memory)).collector
      (segment ++ [share]) := by
  have size := holds.addNode_size small
  rw [Collection.add_eq]
  dsimp only
  rw [if_neg uncut]
  rw [Bool.not_eq_true, Collector.cutsAfter, Bool.or_eq_false_iff, Bool.or_eq_false_iff] at uncut
  refine ⟨?_, ?_, size, ?_, ?_⟩
  · rcases holds.recent with ⟨earlier, same⟩
    exact ⟨earlier, by rw [← same, List.append_assoc]⟩
  · rw [List.length_append, List.length_singleton, ← holds.counter]
    rfl
  · have limit := of_decide_eq_false uncut.1.2
    omega
  · intro other member
    rcases List.mem_append.mp member with earlier | last
    · exact holds.unmatched other earlier
    · rw [List.mem_singleton.mp last]
      exact uncut.1.1

/-! ## All segments -/

variable {items : List (DataShare × StackMemory)}

/-- A segment is cut where a fingerprint matches, where it is large or at the end. -/
def Closed (segment : List DataShare) : Prop :=
  (∃ share ∈ segment, matchesPattern share.node.shareFP = true) ∨
    maxSegmentSize < segmentTotal segment ∨ ∃ share ∈ segment, share.isEnd = true

/-- The shares that have been collected, one segment for each chunk and those since. -/
structure Partition (collected : List DataShare) (collection : Collection)
    (segments : List (List DataShare)) (segment : List DataShare) : Prop where
  joined : segments.flatten ++ segment = collected
  current : Segment collected collection.collector segment
  sizes : collection.chunks.map MetaChunk.secretSize =
    segments.map fun segment => segment.length * metaNodeSize
  closed : ∀ segment ∈ segments, Closed segment

theorem Partition.add (crypto : CryptoPrimitive) {segments : List (List DataShare)}
    (holds : Partition collected collection segments segment) {share : DataShare}
    (small : SmallShare share) (memory : StackMemory) :
    ∃ next rest, Partition (collected ++ [share]) (collection.add crypto (share, memory))
      next rest := by
  by_cases cut : (collection.collector.addNode share.node).cutsAfter share = true
  · have size := holds.current.addNode_size small
    rw [Collection.add_eq]
    dsimp only
    rw [if_pos cut]
    refine ⟨segments ++ [segment ++ [share]], [], ?_, ?_, ?_, ?_⟩
    · rw [List.flatten_append, List.flatten_singleton, List.append_nil, ← List.append_assoc,
        holds.joined]
    · exact ⟨List.nil_suffix, rfl, rfl, Nat.zero_le _,
        fun _ member => nomatch member⟩
    · rw [List.map_append, List.map_append, holds.sizes, List.map_singleton,
        List.map_singleton, List.length_append, List.length_singleton, ← holds.current.counter]
      rfl
    · intro other member
      rcases List.mem_append.mp member with earlier | last
      · exact holds.closed other earlier
      · rw [List.mem_singleton.mp last]
        have included : share ∈ segment ++ [share] := List.mem_append_right _ List.mem_cons_self
        rw [Collector.cutsAfter, Bool.or_eq_true, Bool.or_eq_true, decide_eq_true_eq,
          size] at cut
        rcases cut with (matched | large) | isEnd
        · exact .inl ⟨share, included, matched⟩
        · exact .inr (.inl large)
        · exact .inr (.inr ⟨share, included, isEnd⟩)
  · have added := holds.current.add_uncut crypto small memory cut
    refine ⟨segments, segment ++ [share], ?_, added, ?_, holds.closed⟩
    · rw [← List.append_assoc, holds.joined]
    · rw [Collection.add_eq]
      dsimp only
      rw [if_neg cut]
      exact holds.sizes

theorem exists_partition (crypto : CryptoPrimitive) (metaChunkBuffer : Buffer Byte)
    (small : ∀ item ∈ items, SmallShare item.1) :
    ∃ segments segment, Partition (items.map Prod.fst)
      ((Collection.start metaChunkBuffer).addAll crypto items) segments segment := by
  induction items using List.reverseRecOn with
  | nil =>
      exact ⟨[], [], rfl, Segment.start metaChunkBuffer, rfl,
        fun _ member => nomatch member⟩
  | append_singleton items item induction =>
      rcases induction fun other member => small other (List.mem_append_left _ member) with
        ⟨segments, segment, holds⟩
      rw [List.map_append, List.map_singleton, Collection.addAll, List.foldl_append]
      exact holds.add crypto (small item (List.mem_append_right _ List.mem_cons_self)) item.2

/-! ## When the records fit -/

variable {crypto : CryptoPrimitive} {limit : Nat}

/-- At every moment the records in the buffer of a cloud fit into it, and so does every
chunk into its item. A chunk is cut only after its last record has been added. -/
def SegmentsFit (crypto : CryptoPrimitive) (metaChunkBuffer : Buffer Byte)
    (items : List (DataShare × StackMemory)) : Prop :=
  (∀ before item after, items = before ++ item :: after →
    (((Collection.start metaChunkBuffer).addAll crypto before).collector.addNode
      item.1.node).metaChunkCounter * metaNodeSize ≤ secretSizeMeta) ∧
  ∀ chunk ∈ ((Collection.start metaChunkBuffer).addAll crypto items).chunks,
    chunk.secretSize ≤ ringBufferMetaSize

/-- Of as many consecutive shares as there is room for, with another one behind them, one
matches the pattern, or they are large together. -/
def CutInTime (shares : List DataShare) : Prop :=
  ∀ before window next after, shares = before ++ window ++ next :: after →
    window.length = segmentCapacity →
    (∃ share ∈ window, matchesPattern share.node.shareFP = true) ∨
      maxSegmentSize < segmentTotal window

theorem Segment.length_lt
    (holds : Segment collected collector segment) {next : DataShare} {after : List DataShare}
    (cut : CutInTime (collected ++ next :: after)) : segment.length < segmentCapacity := by
  by_contra full
  rw [Nat.not_lt] at full
  rcases holds.recent with ⟨earlier, same⟩
  have split := List.take_append_drop (segment.length - segmentCapacity) segment
  have whole : collected ++ next :: after =
      earlier ++ segment.take (segment.length - segmentCapacity) ++
        segment.drop (segment.length - segmentCapacity) ++ next :: after := by
    rw [List.append_assoc earlier, split, same]
  have size : (segment.drop (segment.length - segmentCapacity)).length = segmentCapacity := by
    rw [List.length_drop]
    omega
  rcases cut _ _ next after whole size with ⟨share, member, matched⟩ | large
  · have unmatched := holds.unmatched share (List.mem_of_mem_drop member)
    cases matched.symm.trans unmatched
  · have small := holds.small
    rw [← split, segmentTotal_append] at small
    omega

theorem Collection.add_sizes {share : DataShare} {memory : StackMemory}
    (earlier : ∀ chunk ∈ collection.chunks, chunk.secretSize ≤ limit)
    (fits : (collection.collector.addNode share.node).metaChunkCounter * metaNodeSize ≤ limit) :
    ∀ chunk ∈ (collection.add crypto (share, memory)).chunks, chunk.secretSize ≤ limit := by
  rw [Collection.add_eq]
  dsimp only
  split
  · intro chunk member
    rcases List.mem_append.mp member with listed | last
    · exact earlier chunk listed
    · rw [List.mem_singleton.mp last]
      exact fits
  · exact earlier

theorem sizes_of_moments {metaChunkBuffer : Buffer Byte}
    (moments : ∀ before item after, items = before ++ item :: after →
      (((Collection.start metaChunkBuffer).addAll crypto before).collector.addNode
        item.1.node).metaChunkCounter * metaNodeSize ≤ limit) :
    ∀ chunk ∈ ((Collection.start metaChunkBuffer).addAll crypto items).chunks,
      chunk.secretSize ≤ limit := by
  induction items using List.reverseRecOn with
  | nil =>
      intro chunk member
      cases member
  | append_singleton items item induction =>
      have last := moments items item [] rfl
      have earlier := induction fun before other after same =>
        moments before other (after ++ [item]) (by rw [same, List.append_assoc]; rfl)
      rw [Collection.addAll, List.foldl_append]
      exact Collection.add_sizes earlier last

theorem segmentsFit_of_cutInTime (crypto : CryptoPrimitive) (metaChunkBuffer : Buffer Byte)
    (small : ∀ item ∈ items, SmallShare item.1)
    (cut : CutInTime (items.map Prod.fst)) : SegmentsFit crypto metaChunkBuffer items := by
  have moments : ∀ before item after, items = before ++ item :: after →
      (((Collection.start metaChunkBuffer).addAll crypto before).collector.addNode
        item.1.node).metaChunkCounter * metaNodeSize ≤ secretSizeMeta := by
    rintro before item after rfl
    have earlier : ∀ other ∈ before, SmallShare other.1 := fun other member =>
      small other (List.mem_append_left _ member)
    rcases exists_partition crypto metaChunkBuffer earlier with ⟨_, segment, partition⟩
    rw [List.map_append, List.map_cons] at cut
    have room := partition.current.length_lt cut
    change (Collector.metaChunkCounter _ + 1) * metaNodeSize ≤ secretSizeMeta
    rw [partition.current.counter]
    rw [segmentCapacity, secretSizeMeta, metaNodeSize] at room
    rw [secretSizeMeta, metaNodeSize]
    omega
  exact ⟨moments, sizes_of_moments moments⟩

/-! ## The shares of a file -/

section Files

variable {openssl : OpenSSL} {securetype : SecureType} {gf : GaloisField}
variable {codec : CDCodec gf (openssl.cryptoPrimitive securetype.cryptoType)}

variable {secrets : List Secret} {chunks : List ShareChunk}

theorem shareSize_bounds (caontRS : codec.type = .caontRS)
    (encoded : List.Forall₂ (EncodedAs codec) secrets chunks)
    (cloud : Nat) (memory : Nat → CollectMemory codec) :
    ∀ item ∈ dataShares cloud (withMemory memory chunks),
      1 ≤ item.1.node.shareSize.toNat ∧
        item.1.node.shareSize.toNat ≤ secretSize + 64 := by
  intro item member
  rcases dataShare_shareSize caontRS encoded cloud memory item member with
    ⟨secret, _, chunk, encodedAs, size⟩
  rw [size]
  exact encodedAs.size_bounds caontRS

theorem smallShare_of_encoded (caontRS : codec.type = .caontRS)
    (encoded : List.Forall₂ (EncodedAs codec) secrets chunks)
    (cloud : Nat) (memory : Nat → CollectMemory codec) :
    ∀ item ∈ dataShares cloud (withMemory memory chunks), SmallShare item.1 := by
  intro item member
  have bound := (shareSize_bounds caontRS encoded cloud memory item member).2
  exact Nat.lt_of_le_of_lt bound (by decide)

theorem Segment.length_le {collected segment : List DataShare} {collector : Collector}
    (holds : Segment collected collector segment)
    (positive : ∀ share ∈ segment, 1 ≤ share.node.shareSize.toNat) :
    segment.length ≤ maxSegmentSize := by
  have count := List.length_le_sum_of_one_le (segment.map fun share => share.node.shareSize.toNat)
    (by
      intro size member
      rcases List.mem_map.mp member with ⟨share, listed, rfl⟩
      exact positive share listed)
  rw [List.length_map] at count
  exact count.trans holds.small

theorem fileCollection_size_le (caontRS : codec.type = .caontRS)
    (encoded : List.Forall₂ (EncodedAs codec) secrets chunks)
    (cloud : Nat) (metaChunkBuffer : Buffer Byte) (memory : Nat → CollectMemory codec) :
    ∀ chunk ∈ (fileCollection cloud metaChunkBuffer memory chunks).chunks,
      chunk.secretSize ≤ (maxSegmentSize + 1) * metaNodeSize := by
  have small := smallShare_of_encoded caontRS encoded cloud memory
  have bounds := shareSize_bounds caontRS encoded cloud memory
  apply sizes_of_moments
  intro before item after split
  rw [split] at small bounds
  have earlier : ∀ other ∈ before, SmallShare other.1 := fun other member =>
    small other (List.mem_append_left _ member)
  rcases exists_partition (openssl.cryptoPrimitive securetype.cryptoType) metaChunkBuffer
    earlier with ⟨_, segment, partition⟩
  have holds := partition.current
  have length := holds.length_le (by
    intro share member
    rcases List.mem_map.mp (holds.recent.subset member) with ⟨other, listed, rfl⟩
    exact (bounds other (List.mem_append_left _ listed)).1)
  change (Collector.metaChunkCounter _ + 1) * metaNodeSize ≤ _
  rw [holds.counter]
  exact Nat.mul_le_mul_right _ (by omega)

/-- For the shares of a file: as long as among any 512 consecutive shares of a cloud that
are not the last ones there is one that matches the pattern, or they are large together,
the records fit into their buffers at every moment. -/
theorem metadata_segments_fit (caontRS : codec.type = .caontRS) {secrets : List Secret}
    {chunks : List ShareChunk} (encoded : List.Forall₂ (EncodedAs codec) secrets chunks)
    (cloud : Nat) (metaChunkBuffer : Buffer Byte) (memory : Nat → CollectMemory codec)
    (cut : CutInTime ((dataShares cloud (withMemory memory chunks)).map Prod.fst)) :
    SegmentsFit (openssl.cryptoPrimitive securetype.cryptoType) metaChunkBuffer
      (dataShares cloud (withMemory memory chunks)) :=
  segmentsFit_of_cutInTime _ metaChunkBuffer
    (smallShare_of_encoded caontRS encoded cloud memory) cut

end Files

private theorem cutInTime_of_matched {shares : List DataShare}
    (matched : ∀ share ∈ shares, matchesPattern share.node.shareFP = true) :
    CutInTime shares := by
  rintro before window next after rfl full
  have nonempty : window ≠ [] := List.ne_nil_of_length_pos (by rw [full]; decide)
  refine .inl ⟨window.head nonempty, List.head_mem nonempty, matched _ ?_⟩
  exact List.mem_append_left _ (List.mem_append_right _ (List.head_mem nonempty))

/-- In a file of 513 equal chunks whose shares match the pattern, every record is cut. -/
theorem metadata_segments_fit_matching :
    ∃ secrets chunks,
      secrets.map Secret.emitted =
        emission defaultChunker (fun _ => 0) (UploadLoop.zeroFile 513) ∧
      List.Forall₂ (EncodedAs matchingCodec) secrets chunks ∧
      ∀ cloud < matchingCodec.n, ∀ metaChunkBuffer,
        ∀ memory : Nat → CollectMemory matchingCodec,
        SegmentsFit (matchingOpenSSL.cryptoPrimitive .highSecPair) metaChunkBuffer
          (dataShares cloud (withMemory memory chunks)) := by
  rcases exists_secrets (emission_bounded (fun _ => 0) (UploadLoop.zeroFile 513)) with
    ⟨secrets, added⟩
  rcases exists_encoded matchingCodec secrets with ⟨chunks, encoded⟩
  refine ⟨secrets, chunks, added, encoded, ?_⟩
  intro cloud listed metaChunkBuffer memory
  apply metadata_segments_fit rfl encoded
  apply cutInTime_of_matched
  intro share member
  rcases List.mem_map.mp member with ⟨item, chosen, rfl⟩
  exact dataShares_matchesPattern listed matching_matched encoded memory item chosen

/-! ## Repetitive files -/

/-- Shares that do not match the pattern and are small together are not cut. -/
theorem Segment.addAll_uncut (crypto : CryptoPrimitive)
    (holds : Segment collected collection.collector segment) (limited : limit < 2 ^ 31)
    (small : ∀ item ∈ items, item.1.node.shareSize.toNat ≤ limit)
    (unmatched : ∀ item ∈ items, matchesPattern item.1.node.shareFP = false)
    (notEnd : ∀ item ∈ items, item.1.isEnd = false)
    (fits : segmentTotal segment + items.length * limit ≤ maxSegmentSize) :
    (collection.addAll crypto items).collector.metaChunkCounter =
      segment.length + items.length := by
  induction items generalizing collected segment collection with
  | nil => exact holds.counter
  | cons item items induction =>
      rcases List.forall_mem_cons.mp small with ⟨first, others⟩
      rcases List.forall_mem_cons.mp unmatched with ⟨differs, othersDiffer⟩
      rcases List.forall_mem_cons.mp notEnd with ⟨earlier, othersEarlier⟩
      have isSmall : SmallShare item.1 := Nat.lt_of_le_of_lt first limited
      have total : segmentTotal (segment ++ [item.1]) ≤ segmentTotal segment + limit := by
        rw [segmentTotal_append, segmentTotal_singleton]
        omega
      rw [List.length_cons, Nat.succ_mul] at fits
      have uncut : ¬(collection.collector.addNode item.1.node).cutsAfter item.1 = true := by
        rw [Bool.not_eq_true, Collector.cutsAfter, differs, earlier,
          holds.addNode_size isSmall, Bool.or_false, Bool.false_or, decide_eq_false_iff_not]
        omega
      have added := holds.add_uncut crypto isSmall item.2 uncut
      have later := induction added others othersDiffer othersEarlier (by omega)
      rw [List.length_append, List.length_singleton] at later
      rw [List.length_cons, Nat.add_comm items.length, ← Nat.add_assoc]
      exact later

/-- The shares of a file of equal chunks that do not match the pattern: when the last one
is added there are 513 records in the buffer for 512. -/
theorem not_segmentsFit_of_zeroShares (crypto : CryptoPrimitive) (metaChunkBuffer : Buffer Byte)
    (zeros : ZeroShares (segmentCapacity + 1) items)
    (unmatched : ∀ item ∈ items, matchesPattern item.1.node.shareFP = false) :
    ¬SegmentsFit crypto metaChunkBuffer items := by
  rcases zeros.exists_last with ⟨before, last, split, length, earlier⟩
  have inside : ∀ item ∈ before, item ∈ items := by
    intro item member
    rw [split]
    exact List.mem_append_left _ member
  have start : Segment [] (Collection.start metaChunkBuffer).collector [] :=
    Segment.start metaChunkBuffer
  have counter := start.addAll_uncut crypto (by decide)
    (fun item member => zeros.small item (inside item member))
    (fun item member => unmatched item (inside item member)) earlier (by rw [length]; decide)
  intro fit
  have room := fit.1 before last [] split
  rw [Collector.addNode] at room
  dsimp only at room
  rw [counter, length] at room
  exact absurd room (by decide)

/-- A file of 513 equal chunks of 2 KiB whose shares do not match the pattern overflows
the buffer of every cloud. -/
theorem metadata_segments_overflow :
    ∃ secrets chunks,
      secrets.map Secret.emitted =
        emission defaultChunker (fun _ => 0) (UploadLoop.zeroFile 513) ∧
      List.Forall₂ (EncodedAs plainCodec) secrets chunks ∧
      ∀ cloud < plainCodec.n, ∀ metaChunkBuffer, ∀ memory : Nat → CollectMemory plainCodec,
        ¬SegmentsFit (plainOpenSSL.cryptoPrimitive .highSecPair) metaChunkBuffer
          (dataShares cloud (withMemory memory chunks)) := by
  rcases exists_secrets (emission_bounded (fun _ => 0) (UploadLoop.zeroFile 513)) with
    ⟨secrets, added⟩
  rcases exists_encoded plainCodec secrets with ⟨chunks, encoded⟩
  refine ⟨secrets, chunks, added, encoded, ?_⟩
  intro cloud listed metaChunkBuffer memory
  exact not_segmentsFit_of_zeroShares _ metaChunkBuffer
    (zeroShares_of_encoded rfl (by decide) (by decide) added encoded memory)
    (dataShares_matchesPattern listed plain_unmatched encoded memory)

end MetaDedup.Encoder
