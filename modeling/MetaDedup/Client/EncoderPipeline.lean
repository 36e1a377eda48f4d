import MetaDedup.Client.Encoder
import MetaDedup.Client.MetaIndirection
import MetaDedup.Foundation.Pipeline

/-! # The threads of the encoder

`Encoder::add`, the encoder threads and the collect thread are a pipeline of workers
behind round-robin queues. What a thread makes of an item does not depend on the memory it
works in, so the collect thread sees the same items in every run. What it hands over to a
cloud is then the same as well, up to bytes that nobody writes. -/

namespace MetaDedup.Encoder

open Foundation Wire Relation
open Server (Fingerprint fpSize)

variable {openssl : OpenSSL} {securetype : SecureType} {gf : GaloisField}
variable {codec : CDCodec gf (openssl.cryptoPrimitive securetype.cryptoType)}

/-! ## What a thread makes of an item -/

theorem wholeBlocks_of_dvd {dataSize : Nat}
    (words : (openssl.cryptoPrimitive securetype.cryptoType).hashSize ∣ dataSize) :
    (openssl.cryptoPrimitive securetype.cryptoType).WholeBlocks dataSize := by
  rw [CryptoPrimitive.WholeBlocks]
  apply Int.tmod_eq_zero_of_dvd
  cases securetype with
  | high =>
      have blocks : 16 ∣ dataSize := Nat.dvd_trans (⟨2, rfl⟩ : 16 ∣ 32) words
      exact Int.natCast_dvd_natCast.mpr blocks
  | low => exact Int.natCast_dvd_natCast.mpr words

section

variable (caontRS : codec.type = .caontRS)
include caontRS

theorem encoding_ok (memory : EncodeMemory codec)
    {data : List Byte} (bounded : data.length ≤ secretSize) :
    ∃ encoded, codec.encoding memory.buffers memory.randomKey
      (memory.secretBuffer.write 0 data) data.length memory.shareBuffer = .ok encoded := by
  have systematic : codec.type ≠ .crsss := by rw [caontRS]; decide
  rcases codec.rsAlignedSecretSize_rows data.length with ⟨rows, filled, _⟩
  apply CDCodec.encoding_systematic_ok systematic
  · apply CDCodec.rsAlignedSecretSize_fits systematic
    exact bounded.trans (by decide)
  · rw [CDCodec.EncryptsWholeBlocks, caontRS]
    exact wholeBlocks_of_dvd ⟨_, (CDCodec.rsAlignedSecretSize_dvd filled).symm⟩

theorem encode_convergent (left right : EncodeMemory codec) {data : List Byte}
    (bounded : data.length ≤ secretSize) :
    (encode codec left data).1 = (encode codec right data).1 ∧
      (encode codec left data).2.slice 0 (codec.n * (encode codec left data).1) =
        (encode codec right data).2.slice 0 (codec.n * (encode codec right data).1) := by
  rcases encoding_ok caontRS left bounded with ⟨leftEncoded, leftSuccess⟩
  rcases encoding_ok caontRS right bounded with ⟨rightEncoded, rightSuccess⟩
  rw [encode, encode, leftSuccess, rightSuccess]
  refine CDCodec.encoding_convergent ?_ leftSuccess rightSuccess (by rw [caontRS]; decide)
    (by rw [caontRS]; decide)
  intro position inside
  rw [← Nat.zero_add position, Buffer.write_inside _ _ inside, Buffer.write_inside _ _ inside]

theorem encodeItem_convergent (left right : EncodeMemory codec) (item : SecretItem) :
    encodeItem codec left item = encodeItem codec right item := by
  cases item with
  | file head => rfl
  | secret secret =>
      rcases encode_convergent caontRS left right secret.bounded with ⟨size, shares⟩
      rw [encodeItem, encodeItem, shares, size]

theorem encode_slice_convergent (left right : EncodeMemory codec) {data : List Byte}
    (bounded : data.length ≤ secretSize) {cloud : Nat} (listed : cloud < codec.n) :
    (encode codec left data).2.slice (cloud * (encode codec left data).1)
        (encode codec left data).1 =
      (encode codec right data).2.slice (cloud * (encode codec right data).1)
        (encode codec right data).1 := by
  rcases encode_convergent caontRS left right bounded with ⟨size, shares⟩
  rw [size] at shares ⊢
  have row : cloud * (encode codec right data).1 + (encode codec right data).1 ≤
      codec.n * (encode codec right data).1 := by
    rw [← Nat.succ_mul]
    exact Nat.mul_le_mul_right _ listed
  have same := Buffer.slice_sub shares row
  rwa [Nat.zero_add] at same

end

/-! ## What is handed over to a cloud -/

variable {leftShare rightShare : DataShare}

/-- Two items are the same up to the bytes of a fingerprint that the hash function leaves
as they are. -/
inductive CollectedItem.Alike (hashSize : Nat) : CollectedItem → CollectedItem → Prop
  | fileHeader (fileSize : Int) (name : List Byte) :
      Alike hashSize (.fileHeader fileSize name) (.fileHeader fileSize name)
  | share {left right : Uploader.ShareObject} (isEnd : Bool)
      (shareFP : left.shareFP.bytes.take hashSize = right.shareFP.bytes.take hashSize)
      (secretID : left.secretID = right.secretID)
      (secretSize : left.secretSize = right.secretSize) (data : left.data = right.data) :
      Alike hashSize (.share left isEnd) (.share right isEnd)

theorem CollectedItem.Alike.eq {left right : CollectedItem}
    (alike : CollectedItem.Alike fpSize left right) : left = right := by
  cases alike with
  | fileHeader fileSize name => rfl
  | @share left right isEnd shareFP secretID secretSize data =>
      rw [List.take_of_length_le (Nat.le_of_eq left.shareFP.size_eq),
        List.take_of_length_le (Nat.le_of_eq right.shareFP.size_eq)] at shareFP
      cases left
      cases right
      cases Fingerprint.eq_of_bytes shareFP
      cases secretID
      cases secretSize
      cases data
      rfl

/-- The segments into which the metadata of a cloud has been cut: the ID and the size of
each chunk, and whether it is the last one of a file. -/
def Collection.segments (collection : Collection) : List (Int × Nat × Bool) :=
  collection.chunks.map fun chunk => (chunk.secretID, chunk.shareSize, chunk.isEnd)

structure Collection.Alike (left right : Collection) : Prop where
  segments : left.segments = right.segments
  segSizeTemp : left.collector.segSizeTemp = right.collector.segSizeTemp
  counter : left.collector.metaChunkCounter = right.collector.metaChunkCounter
  chunkID : left.collector.metaChunkID = right.collector.metaChunkID

/-- Where a chunk is cut depends on the first four bytes of a fingerprint, on the sizes and
on the end of the file. -/
theorem Collection.Alike.cutsAfter {left right : Collection} (alike : left.Alike right)
    (shareFP : leftShare.node.shareFP.bytes.take intSize =
      rightShare.node.shareFP.bytes.take intSize)
    (shareSize : leftShare.node.shareSize = rightShare.node.shareSize)
    (isEnd : leftShare.isEnd = rightShare.isEnd) :
    (left.collector.addNode leftShare.node).segSizeTemp =
        (right.collector.addNode rightShare.node).segSizeTemp ∧
      (left.collector.addNode leftShare.node).cutsAfter leftShare =
        (right.collector.addNode rightShare.node).cutsAfter rightShare := by
  have pattern_eq : matchesPattern leftShare.node.shareFP =
      matchesPattern rightShare.node.shareFP := by
    rw [matchesPattern, matchesPattern, shareFP]
  have segment_eq : (left.collector.addNode leftShare.node).segSizeTemp =
      (right.collector.addNode rightShare.node).segSizeTemp := by
    rw [Collector.addNode, Collector.addNode, alike.segSizeTemp, shareSize]
  refine ⟨segment_eq, ?_⟩
  rw [Collector.cutsAfter, Collector.cutsAfter, pattern_eq, segment_eq, isEnd]

@[simp] theorem Collector.reset_segSizeTemp (collector : Collector) :
    collector.reset.segSizeTemp = 0 := rfl

@[simp] theorem Collector.reset_metaChunkCounter (collector : Collector) :
    collector.reset.metaChunkCounter = 0 := rfl

@[simp] theorem Collector.reset_metaChunkID (collector : Collector) :
    collector.reset.metaChunkID = collector.metaChunkID - 1 := rfl

theorem Collection.add_eq (crypto : CryptoPrimitive) (collection : Collection)
    (share : DataShare) (memory : StackMemory) :
    collection.add crypto (share, memory) =
      let added := collection.collector.addNode share.node
      let cut := added.cutChunk crypto memory share.isEnd
      if added.cutsAfter share then
        ⟨added.reset, collection.chunks ++ [cut.1], collection.keyFile ++ [cut.2]⟩
      else ⟨added, collection.chunks, collection.keyFile⟩ := by
  simp only [Collection.add, Collector.collectShare]
  split
  · rfl
  · simp only [Option.map_none, Option.toList_none, List.append_nil]

theorem Collection.Alike.add {left right : Collection} (alike : left.Alike right)
    (crypto : CryptoPrimitive)
    (shareFP : leftShare.node.shareFP.bytes.take intSize =
      rightShare.node.shareFP.bytes.take intSize)
    (shareSize : leftShare.node.shareSize = rightShare.node.shareSize)
    (isEnd : leftShare.isEnd = rightShare.isEnd) (leftMemory rightMemory : StackMemory) :
    (left.add crypto (leftShare, leftMemory)).Alike
      (right.add crypto (rightShare, rightMemory)) := by
  rcases alike.cutsAfter shareFP shareSize isEnd with ⟨segment, cuts⟩
  have counter : (left.collector.addNode leftShare.node).metaChunkCounter =
      (right.collector.addNode rightShare.node).metaChunkCounter :=
    congrArg (· + 1) alike.counter
  have chunkID : (left.collector.addNode leftShare.node).metaChunkID =
      (right.collector.addNode rightShare.node).metaChunkID := alike.chunkID
  have segments := alike.segments
  rw [Collection.add_eq, Collection.add_eq]
  simp only [cuts]
  generalize left.collector.addNode leftShare.node = leftAdded at *
  generalize right.collector.addNode rightShare.node = rightAdded at *
  cases rightAdded.cutsAfter rightShare with
  | true =>
      rw [if_pos rfl, if_pos rfl]
      refine ⟨?_, by simp, by simp, by simp [chunkID]⟩
      rw [Collection.segments, Collection.segments] at segments ⊢
      rw [List.map_append, List.map_append, segments, List.map_singleton,
        List.map_singleton]
      simp only [Collector.cutChunk, counter, chunkID, isEnd]
  | false =>
      rw [if_neg Bool.false_ne_true, if_neg Bool.false_ne_true]
      exact ⟨segments, segment, counter, chunkID⟩

structure CloudOutput.Alike (hashSize : Nat) (left right : CloudOutput) : Prop where
  items : List.Forall₂ (CollectedItem.Alike hashSize) left.items right.items
  collection : left.collection.Alike right.collection

theorem hashSize_bounds (openssl : OpenSSL) (securetype : SecureType) :
    intSize ≤ (openssl.cryptoPrimitive securetype.cryptoType).hashSize ∧
      (openssl.cryptoPrimitive securetype.cryptoType).hashSize ≤ fpSize := by
  cases securetype with
  | high => exact ⟨show 4 ≤ 32 by decide, Nat.le_refl 32⟩
  | low => exact ⟨show 4 ≤ 16 by decide, show 16 ≤ 32 by decide⟩

namespace CloudOutput

variable {cloud : Nat}

theorem Alike.add {crypto : CryptoPrimitive} {codec : CDCodec gf crypto}
    (four : intSize ≤ crypto.hashSize) (size : crypto.hashSize ≤ fpSize)
    (listed : cloud < codec.n)
    {left right : CloudOutput} (alike : left.Alike crypto.hashSize right)
    {item : ShareChunkItem} (holds : item.HoldsShares codec.n)
    {leftMemory rightMemory : CollectMemory codec}
    (names : ∀ head, item = .file head →
      (encode codec leftMemory.name head.fullName).2.slice
          (cloud * (encode codec leftMemory.name head.fullName).1)
          (encode codec leftMemory.name head.fullName).1 =
        (encode codec rightMemory.name head.fullName).2.slice
          (cloud * (encode codec rightMemory.name head.fullName).1)
          (encode codec rightMemory.name head.fullName).1) :
    (left.add codec cloud (item, leftMemory)).Alike crypto.hashSize
      (right.add codec cloud (item, rightMemory)) := by
  cases item with
  | file head =>
      have same := names head rfl
      rw [CloudOutput.add, CloudOutput.add]
      simp only [same]
      exact ⟨List.rel_append alike.items (.cons (.fileHeader _ _) .nil), alike.collection⟩
  | share chunk =>
      have hashed {count : Nat} (written : count ≤ crypto.hashSize) :
          (shareObject crypto leftMemory.node chunk cloud).shareFP.bytes.take count =
            (shareObject crypto rightMemory.node chunk cloud).shareFP.bytes.take count := by
        rw [shareObject_shareFP crypto _ holds listed written (Nat.le_trans written size),
          shareObject_shareFP crypto _ holds listed written (Nat.le_trans written size)]
        rfl
      rw [CloudOutput.add, CloudOutput.add]
      refine ⟨List.rel_append alike.items (.cons ?_ .nil), ?_⟩
      · exact .share chunk.isEnd (hashed (Nat.le_refl _)) rfl rfl rfl
      · apply alike.collection.add
        · exact hashed four
        · rfl
        · rfl

def collect {crypto : CryptoPrimitive} (codec : CDCodec gf crypto) (cloud : Nat)
    (metaChunkBuffer : Buffer Byte) (memory : Nat → CollectMemory codec)
    (items : List ShareChunkItem) : CloudOutput :=
  (start metaChunkBuffer).addAll codec cloud
    (items.zipIdx.map fun numbered => (numbered.1, memory numbered.2))

theorem Alike.addAll (caontRS : codec.type = .caontRS)
    (listed : cloud < codec.n) (leftMemory rightMemory : Nat → CollectMemory codec)
    (items : List (ShareChunkItem × Nat))
    (holds : ∀ item ∈ items, item.1.HoldsShares codec.n) {left right : CloudOutput}
    (alike : left.Alike (openssl.cryptoPrimitive securetype.cryptoType).hashSize right) :
    (left.addAll codec cloud
        (items.map fun numbered => (numbered.1, leftMemory numbered.2))).Alike
      (openssl.cryptoPrimitive securetype.cryptoType).hashSize
      (right.addAll codec cloud
        (items.map fun numbered => (numbered.1, rightMemory numbered.2))) := by
  rcases hashSize_bounds openssl securetype with ⟨four, size⟩
  induction items generalizing left right with
  | nil => exact alike
  | cons item items induction =>
      rcases List.forall_mem_cons.mp holds with ⟨first, rest⟩
      refine induction rest (alike.add four size listed first ?_)
      intro head _
      exact encode_slice_convergent caontRS _ _ head.bounded listed

private theorem collect_alike (caontRS : codec.type = .caontRS)
    (listed : cloud < codec.n) (leftBuffer rightBuffer : Buffer Byte)
    (leftMemory rightMemory : Nat → CollectMemory codec) {items : List ShareChunkItem}
    (holds : ∀ item ∈ items, item.HoldsShares codec.n) :
    (collect codec cloud leftBuffer leftMemory items).Alike
      (openssl.cryptoPrimitive securetype.cryptoType).hashSize
      (collect codec cloud rightBuffer rightMemory items) := by
  apply Alike.addAll caontRS listed
  · intro item member
    exact holds item.1 (List.fst_mem_of_mem_zipIdx member)
  · exact ⟨.nil, rfl, rfl, rfl, rfl⟩

end CloudOutput

/-! ## Runs -/

/-- An encoder thread makes `result` of `item`, in whatever memory it works. The codec of
the first thread is also used by the collect thread. -/
def Encodes {crypto : CryptoPrimitive} (codec : CDCodec gf crypto) (item : SecretItem)
    (result : ShareChunkItem) : Prop :=
  ∃ memory, result = encodeItem codec memory item

abbrev Step {crypto : CryptoPrimitive} (codec : CDCodec gf crypto) :=
  Pipeline.Step numThreads rbSize (Encodes codec)

/-- The collect thread gets the items in the order in which they are added, and it gets all
of them. Two runs hand over the same to each cloud, whatever is in the memory. -/
theorem encoder_pipeline_in_order (caontRS : codec.type = .caontRS)
    {items : List SecretItem} {state : Pipeline SecretItem ShareChunkItem}
    (run : ReflTransGen (Step codec) (Pipeline.start items) state) :
    state.extracted <+: items.map (encodeItem codec (.zero codec)) ∧
    (state.extracted ≠ items.map (encodeItem codec (.zero codec)) →
      ∃ next, Step codec state next) ∧
    ∀ other, ReflTransGen (Step codec) (Pipeline.start items) other →
      other.extracted.length = state.extracted.length →
      other.extracted = state.extracted ∧
      ∀ cloud < codec.n, ∀ metaChunkBuffer otherBuffer memory otherMemory,
        let output := CloudOutput.collect codec cloud metaChunkBuffer memory state.extracted
        let otherOutput :=
          CloudOutput.collect codec cloud otherBuffer otherMemory other.extracted
        List.Forall₂ (CollectedItem.Alike
            (openssl.cryptoPrimitive securetype.cryptoType).hashSize)
          output.items otherOutput.items ∧
        (securetype = .high → output.items = otherOutput.items) ∧
        output.collection.segments = otherOutput.collection.segments := by
  have functional : ∀ item result, Encodes codec item result →
      result = encodeItem codec (.zero codec) item := by
    rintro item result ⟨memory, rfl⟩
    exact encodeItem_convergent caontRS memory _ item
  have inOrder := Pipeline.InOrder.run (by decide) functional run
  refine ⟨inOrder.extracted_initial, ?_, ?_⟩
  · exact inOrder.progress (by decide) (by decide) fun item => ⟨_, .zero codec, rfl⟩
  · intro other otherRun level
    have otherOrder := Pipeline.InOrder.run (by decide) functional otherRun
    have same : other.extracted = state.extracted := by
      rw [List.prefix_iff_eq_take.mp otherOrder.extracted_initial,
        List.prefix_iff_eq_take.mp inOrder.extracted_initial, level]
    refine ⟨same, ?_⟩
    intro cloud listed metaChunkBuffer otherBuffer memory otherMemory
    have holds : ∀ item ∈ state.extracted, item.HoldsShares codec.n := by
      intro item member
      rcases List.mem_map.mp (inOrder.extracted_initial.subset member) with ⟨secret, _, image⟩
      rw [← image]
      exact encodeItem_holdsShares codec _ secret
    rw [same]
    have alike := CloudOutput.collect_alike caontRS listed metaChunkBuffer otherBuffer memory
      otherMemory holds
    refine ⟨alike.items, ?_, alike.collection.segments⟩
    rintro rfl
    exact List.forall₂_eq_eq_eq ▸ alike.items.imp fun _ _ item => item.eq

private theorem cryptoType_sizes (openssl : OpenSSL) (securetype : SecureType) :
    ((openssl.cryptoPrimitive securetype.cryptoType).hashSize : Int) =
      (openssl.cryptoPrimitive securetype.cryptoType).keySize := by
  cases securetype with
  | high => rfl
  | low => rfl

/-- The codec of the default configuration, `(n, m) = (4, 1)`. -/
def defaultCodec (gf : GaloisField) (openssl : OpenSSL) (securetype : SecureType) :
    CDCodec gf (openssl.cryptoPrimitive securetype.cryptoType) :=
  .standard gf _ (cryptoType_sizes openssl securetype)

def plainCodec := defaultCodec GaloisField.complete plainOpenSSL .high

def shortFile : List SecretItem :=
  [.file ⟨[47, 102], 1, by decide⟩, .secret ⟨[7], 0, true, by decide⟩]

def passOn {crypto : CryptoPrimitive} (codec : CDCodec gf crypto)
    (state : Pipeline SecretItem ShareChunkItem) (index : Nat) (item : SecretItem)
    (rest : List SecretItem) : Pipeline SecretItem ShareChunkItem :=
  let result := encodeItem codec (.zero codec) item
  ((state.load index item rest).finish index result).deliver index result

private theorem passOn_run {crypto : CryptoPrimitive} {codec : CDCodec gf crypto}
    {state : Pipeline SecretItem ShareChunkItem} {index : Nat} {item : SecretItem}
    {rest : List SecretItem} (inside : index < numThreads)
    (idle : state.worker index = .idle) (next : state.input index = item :: rest)
    (room : (state.output index).length < rbSize) :
    ReflTransGen (Step codec) state (passOn codec state index item rest) := by
  have loaded : (state.load index item rest).worker index = .loaded item :=
    Function.update_self index _ _
  have finished : ((state.load index item rest).finish index
      (encodeItem codec (.zero codec) item)).worker index =
        .finished (encodeItem codec (.zero codec) item) :=
    Function.update_self index _ _
  exact ((ReflTransGen.single (.load inside idle next)).tail
    (.finish inside loaded ⟨.zero codec, rfl⟩)).tail (.deliver inside finished room)

/-- The second thread is done with the secret before the first one takes the file name. -/
theorem exists_overtaken {crypto : CryptoPrimitive} (codec : CDCodec gf crypto) :
    ∃ state : Pipeline SecretItem ShareChunkItem,
      ReflTransGen (Step codec) (Pipeline.start shortFile) state ∧
      state.extracted = shortFile.map (encodeItem codec (.zero codec)) := by
  have added : ReflTransGen (Step codec) (Pipeline.start shortFile) _ :=
    (ReflTransGen.single (.add rfl (by decide))).tail (.add rfl (by decide))
  have overtaken := (added.trans (passOn_run (show 1 < numThreads by decide) rfl rfl
    (by decide))).trans (passOn_run (show 0 < numThreads by decide) rfl rfl
    (show 0 < rbSize by decide))
  exact ⟨_, (overtaken.tail (.extract rfl)).tail (.extract rfl), rfl⟩

theorem encoder_pipeline_in_order_overtaken :
    ∃ state : Pipeline SecretItem ShareChunkItem,
      ReflTransGen (Step plainCodec) (Pipeline.start shortFile) state ∧
      state.extracted.length = 2 ∧
      state.extracted <+: shortFile.map (encodeItem plainCodec (.zero plainCodec)) := by
  rcases exists_overtaken plainCodec with ⟨state, run, extracted⟩
  exact ⟨state, run, by rw [extracted]; rfl, (encoder_pipeline_in_order rfl run).1⟩

/-- With the low setting the last 16 bytes of a fingerprint are those the array had before.
Two runs that differ in this memory hand over different data items. -/
theorem low_setting_items_differ :
    ∃ state : Pipeline SecretItem ShareChunkItem,
      let codec := defaultCodec GaloisField.complete plainOpenSSL .low
      let memory := CollectMemory.zero codec
      let other := { memory with node := { memory.node with shareFP := fun _ => 1 } }
      ReflTransGen (Step codec) (Pipeline.start shortFile) state ∧
      state.extracted.length = 2 ∧
      (CloudOutput.collect codec 0 (fun _ => 0) (fun _ => memory) state.extracted).items ≠
        (CloudOutput.collect codec 0 (fun _ => 0) (fun _ => other) state.extracted).items := by
  rcases exists_overtaken (defaultCodec GaloisField.complete plainOpenSSL .low) with
    ⟨state, run, extracted⟩
  refine ⟨state, run, by rw [extracted]; rfl, ?_⟩
  rw [extracted]
  intro same
  have byte := congrArg (List.map fun item => match item with
    | .fileHeader _ _ => none
    | .share share _ => share.shareFP.bytes[16]?) same
  exact absurd byte (by decide +kernel)

/-- Five steps for each item bring all of them to the collect thread, whichever thread
makes the next step. -/
theorem encoder_run_ends (caontRS : codec.type = .caontRS) {items : List SecretItem}
    {states : Nat → Pipeline SecretItem ShareChunkItem}
    (first : states 0 = Pipeline.start items) (goesOn : GoesOn (Step codec) states) :
    (states (5 * items.length)).extracted = items.map (encodeItem codec (.zero codec)) := by
  apply Pipeline.extracted_of_goesOn _ _ _ _ first goesOn
  · decide
  · decide
  · rintro item result ⟨memory, rfl⟩
    exact encodeItem_convergent caontRS memory _ item
  · exact fun item => ⟨_, .zero codec, rfl⟩

theorem encoder_run_ends_short_file : ∃ states : Nat → Pipeline SecretItem ShareChunkItem,
    GoesOn (Step plainCodec) states ∧
      (states 10).extracted = shortFile.map (encodeItem plainCodec (.zero plainCodec)) := by
  rcases exists_goesOn (Step plainCodec) (Pipeline.start shortFile) with
    ⟨states, first, goesOn⟩
  exact ⟨states, goesOn, encoder_run_ends rfl first goesOn⟩

end MetaDedup.Encoder
