import MetaDedup.Client.EncoderPipeline
import MetaDedup.Client.UploadLoop

/-! # The queues of the upload threads

The collect thread hands the shares of a cloud to its data thread and the metadata
chunks to its metadata thread; both get the file header first. The metadata of every
share ends up in one chunk, and the end of the file is marked once in each queue. -/

namespace MetaDedup.Encoder

open Foundation Wire
open UploadLoop (MarksLast)

variable {gf : GaloisField} {crypto : CryptoPrimitive} {codec : CDCodec gf crypto}

/-! ## The items -/

structure HeaderMemory where
  head : Buffer Byte
  data : Buffer Byte

def fileShareMDHead (memory : HeaderMemory) (fileSize : Int) (name : List Byte) :
    Buffer Byte :=
  (((((memory.head.writeInt fileSizeAt longSize fileSize).writeInt numOfPastSecretsAt
    intSize 0).writeInt sizeOfPastSecretsAt longSize 0).writeInt numOfComingSecretsAt
    intSize 0).writeInt sizeOfComingSecretsAt longSize 0).writeInt fullNameSizeAt intSize
    name.length

def fileHeaderItem (memory : HeaderMemory) (fileSize : Int) (name : List Byte) :
    Uploader.Item :=
  .fileHeader (fileShareMDHead memory fileSize name) (memory.data.write 0 name)

def CollectedItem.queued (memory : HeaderMemory) : CollectedItem → Uploader.Item
  | .fileHeader fileSize name => fileHeaderItem memory fileSize name
  | .share object isEnd => .share object isEnd

def CollectedItem.queuedHeader (memory : HeaderMemory) : CollectedItem → Option Uploader.Item
  | .fileHeader fileSize name => some (fileHeaderItem memory fileSize name)
  | .share _ _ => none

def MetaChunk.shareObject (chunk : MetaChunk) : Uploader.ShareObject where
  shareFP := chunk.shareFP
  secretID := BitVec.ofInt 32 chunk.secretID
  secretSize := BitVec.ofNat 32 chunk.secretSize
  data := chunk.data.slice 0 chunk.shareSize

theorem MetaChunk.shareObject_length (chunk : MetaChunk) :
    chunk.shareObject.data.length = chunk.shareSize :=
  Buffer.slice_length _ _ _

def MetaChunk.queued (chunk : MetaChunk) : Uploader.Item :=
  .share chunk.shareObject chunk.isEnd

def CloudOutput.dataQueue (memory : HeaderMemory) (output : CloudOutput) :
    List Uploader.Item :=
  output.items.map (CollectedItem.queued memory)

/-- The queue of the metadata thread. A file has one header, and it comes first. -/
def CloudOutput.metaQueue (memory : HeaderMemory) (output : CloudOutput) :
    List Uploader.Item :=
  output.items.filterMap (CollectedItem.queuedHeader memory) ++
    output.collection.chunks.map MetaChunk.queued

/-! ## The metadata chunks -/

variable {collection : Collection}

/-- What is known about a collection after `total` shares: every share is in a chunk or
in the buffer. -/
structure Collection.Counts (total : Nat) (collection : Collection) : Prop where
  sum : (collection.chunks.map MetaChunk.secretSize).sum +
    collection.collector.metaChunkCounter * metaNodeSize = total * metaNodeSize
  sizes : ∀ chunk ∈ collection.chunks,
    chunk.shareSize = chunk.secretSize ∧ metaNodeSize ≤ chunk.secretSize

theorem Collection.Counts.start (metaChunkBuffer : Buffer Byte) :
    Counts 0 (Collection.start metaChunkBuffer) := by
  refine ⟨rfl, ?_⟩
  intro chunk member
  cases member

theorem Collection.Counts.add {total : Nat}
    (counts : Counts total collection) (share : DataShare) (memory : StackMemory) :
    Counts (total + 1) (collection.add crypto (share, memory)) := by
  have sum := counts.sum
  rw [Collection.add_eq]
  dsimp only
  split
  · constructor
    · simp only [List.map_append, List.map_singleton, List.sum_append, List.sum_singleton,
        Collector.cutChunk, Collector.addNode, Collector.reset_metaChunkCounter, Nat.add_mul]
      omega
    · intro chunk member
      rcases List.mem_append.mp member with earlier | last
      · exact counts.sizes chunk earlier
      · rw [List.mem_singleton.mp last]
        simp only [Collector.cutChunk, Collector.addNode, Nat.add_mul, true_and]
        omega
  · constructor
    · simp only [Collector.addNode, Nat.add_mul]
      omega
    · exact counts.sizes

theorem Collection.Counts.addAll {total : Nat}
    (counts : Counts total collection) (items : List (DataShare × StackMemory)) :
    Counts (total + items.length) (collection.addAll crypto items) := by
  induction items generalizing collection total with
  | nil => exact counts
  | cons item items induction =>
      rw [List.length_cons, Nat.add_comm items.length, ← Nat.add_assoc]
      exact induction (counts.add item.1 item.2)

theorem Collection.add_unmarked (crypto : CryptoPrimitive)
    {share : DataShare} (notEnd : share.isEnd = false) (memory : StackMemory) :
    ∃ count, (collection.add crypto (share, memory)).chunks.map MetaChunk.isEnd =
      collection.chunks.map MetaChunk.isEnd ++ List.replicate count false := by
  rw [Collection.add_eq]
  dsimp only
  split
  · refine ⟨1, ?_⟩
    rw [List.map_append, List.map_singleton, Collector.cutChunk, notEnd]
    rfl
  · exact ⟨0, (List.append_nil _).symm⟩

theorem Collection.add_marked {share : DataShare}
    (isEnd : share.isEnd = true) (memory : StackMemory) :
    (collection.add crypto (share, memory)).chunks.map MetaChunk.isEnd =
        collection.chunks.map MetaChunk.isEnd ++ [true] ∧
      (collection.add crypto (share, memory)).collector.metaChunkCounter = 0 := by
  have cuts : (collection.collector.addNode share.node).cutsAfter share = true := by
    rw [Collector.cutsAfter, isEnd, Bool.or_true]
  rw [Collection.add_eq]
  dsimp only
  rw [if_pos cuts]
  refine ⟨?_, rfl⟩
  rw [List.map_append, List.map_singleton, Collector.cutChunk, isEnd]

theorem Collection.addAll_marks {items : List (DataShare × StackMemory)}
    (marks : MarksLast (items.map fun item => item.1.isEnd)) :
    (∃ count, (collection.addAll crypto items).chunks.map MetaChunk.isEnd =
        collection.chunks.map MetaChunk.isEnd ++ (List.replicate count false ++ [true])) ∧
      (collection.addAll crypto items).collector.metaChunkCounter = 0 := by
  induction items generalizing collection with
  | nil => exact absurd rfl marks.ne_nil
  | cons item items induction =>
      rcases item with ⟨share, memory⟩
      rw [List.map_cons] at marks
      rcases marks.of_cons with ⟨isEnd, none⟩ | ⟨notEnd, later⟩
      · rw [List.map_eq_nil_iff.mp none]
        rcases Collection.add_marked isEnd memory with ⟨marked, empty⟩
        exact ⟨⟨0, marked⟩, empty⟩
      · rcases Collection.add_unmarked crypto notEnd memory with ⟨first, unmarked⟩
        rcases induction later with ⟨⟨second, rest⟩, empty⟩
        refine ⟨⟨first + second, ?_⟩, empty⟩
        refine rest.trans ?_
        rw [unmarked, List.append_assoc, ← List.append_assoc (List.replicate first false),
          List.replicate_append_replicate]

/-! ## The output for a file -/

variable {secrets : List Secret} {chunks : List ShareChunk}

def shareObjects (cloud : Nat) (items : List (ShareChunk × CollectMemory codec)) :
    List Uploader.ShareObject :=
  items.map fun item => shareObject crypto item.2.node item.1 cloud

def dataShares (cloud : Nat) (items : List (ShareChunk × CollectMemory codec)) :
    List (DataShare × StackMemory) :=
  items.map fun item =>
    (dataShare item.2.node item.1 (shareObject crypto item.2.node item.1 cloud), item.2.chunk)

theorem CloudOutput.addAll_shares (cloud : Nat) (output : CloudOutput)
    (items : List (ShareChunk × CollectMemory codec)) :
    output.addAll codec cloud (items.map fun item => (.share item.1, item.2)) =
      { items := output.items ++ items.map fun item =>
          .share (shareObject crypto item.2.node item.1 cloud) item.1.isEnd
        collection := output.collection.addAll crypto (dataShares cloud items) } := by
  induction items generalizing output with
  | nil => simp [CloudOutput.addAll, Collection.addAll, dataShares]
  | cons item items induction =>
      rw [List.map_cons, CloudOutput.addAll, List.foldl_cons]
      refine (induction _).trans ?_
      rw [CloudOutput.add, List.map_cons, List.append_assoc]
      rfl

def fileItems (head : FileHead) (secrets : List Secret) : List SecretItem :=
  .file head :: secrets.map .secret

def Secret.emitted (secret : Secret) : UploadLoop.EmittedSecret :=
  ⟨secret.data, secret.secretID, secret.isEnd⟩

def EncodedAs (codec : CDCodec gf crypto) (secret : Secret) (chunk : ShareChunk) : Prop :=
  Encodes codec (.secret secret) (.share chunk)

theorem EncodedAs.isEnd {secret : Secret} {chunk : ShareChunk}
    (encoded : EncodedAs codec secret chunk) : chunk.isEnd = secret.isEnd := by
  rcases encoded with ⟨memory, same⟩
  cases same
  rfl

theorem EncodedAs.holdsShares {secret : Secret} {chunk : ShareChunk}
    (encoded : EncodedAs codec secret chunk) :
    (ShareChunkItem.share chunk).HoldsShares codec.n := by
  rcases encoded with ⟨memory, same⟩
  rw [same]
  exact encodeItem_holdsShares codec memory _

theorem emitted_data {buffer : Buffer Byte} {content : List Byte}
    (added : secrets.map Secret.emitted =
      UploadLoop.emission Chunker.defaultChunker buffer content) :
    secrets.map Secret.data = UploadLoop.fileChunks Chunker.defaultChunker content := by
  rw [UploadLoop.emission_eq UploadLoop.default_min_pos] at added
  have data := congrArg (List.map UploadLoop.EmittedSecret.data) added
  rw [UploadLoop.numberChunks_data, List.map_map] at data
  exact data

theorem emitted_marks {buffer : Buffer Byte} {content : List Byte} (nonempty : content ≠ [])
    (added : secrets.map Secret.emitted =
      UploadLoop.emission Chunker.defaultChunker buffer content) :
    MarksLast (secrets.map Secret.isEnd) := by
  rw [UploadLoop.emission_eq UploadLoop.default_min_pos] at added
  have marks := UploadLoop.numberChunks_marks (UploadLoop.fileChunks_ne_nil nonempty)
    (Nat.zero_add _)
  rw [← added, List.map_map] at marks
  exact marks

theorem isEnd_of_encodes (encoded : List.Forall₂ (EncodedAs codec) secrets chunks) :
    chunks.map ShareChunk.isEnd = secrets.map Secret.isEnd := by
  induction encoded with
  | nil => rfl
  | cons first _ induction => rw [List.map_cons, List.map_cons, induction, first.isEnd]

theorem exists_secrets {emitted : List UploadLoop.EmittedSecret}
    (bounded : ∀ secret ∈ emitted, secret.data.length ≤ secretSize) :
    ∃ secrets : List Secret, secrets.map Secret.emitted = emitted := by
  induction emitted with
  | nil => exact ⟨[], rfl⟩
  | cons first rest induction =>
      rcases List.forall_mem_cons.mp bounded with ⟨fits, others⟩
      rcases induction others with ⟨secrets, same⟩
      exact ⟨⟨first.data, first.secretID, first.isEnd, fits⟩ :: secrets,
        by rw [List.map_cons, same]; rfl⟩

theorem exists_encoded (codec : CDCodec gf crypto) (secrets : List Secret) :
    ∃ chunks, List.Forall₂ (EncodedAs codec) secrets chunks := by
  induction secrets with
  | nil => exact ⟨[], .nil⟩
  | cons secret secrets induction =>
      rcases induction with ⟨chunks, encoded⟩
      exact ⟨_ :: chunks, .cons ⟨.zero codec, rfl⟩ encoded⟩

theorem exists_chunks_of_encodes {head : FileHead} {items : List ShareChunkItem}
    (encodes : List.Forall₂ (Encodes codec) (fileItems head secrets) items) :
    ∃ chunks, items = .file head :: chunks.map .share ∧
      List.Forall₂ (EncodedAs codec) secrets chunks := by
  rcases List.forall₂_cons_left_iff.mp encodes with ⟨first, rest, ⟨memory, file⟩, others, same⟩
  rw [same, file]
  clear same encodes
  induction secrets generalizing rest with
  | nil =>
      cases others
      exact ⟨[], rfl, .nil⟩
  | cons secret secrets induction =>
      rcases List.forall₂_cons_left_iff.mp others with
        ⟨next, rest, ⟨encoding, share⟩, others, same⟩
      rcases induction rest others with ⟨chunks, listed, encoded⟩
      rw [encodeItem] at share
      have tail := (List.cons.inj listed).2
      refine ⟨_ :: chunks, ?_, .cons ⟨encoding, rfl⟩ encoded⟩
      rw [same, share, tail]
      rfl

def nameShare (codec : CDCodec gf crypto) (cloud : Nat) (memory : EncodeMemory codec)
    (head : FileHead) : List Byte :=
  let encoded := encode codec memory head.fullName
  encoded.2.slice (cloud * encoded.1) encoded.1

def withMemory (memory : Nat → CollectMemory codec) (chunks : List ShareChunk) :
    List (ShareChunk × CollectMemory codec) :=
  (chunks.zipIdx 1).map fun numbered => (numbered.1, memory numbered.2)

theorem withMemory_fst (memory : Nat → CollectMemory codec) (chunks : List ShareChunk) :
    (withMemory memory chunks).map Prod.fst = chunks := by
  rw [withMemory, List.map_map]
  exact List.zipIdx_map_fst 1 chunks

theorem mem_of_withMemory {memory : Nat → CollectMemory codec}
    {item : ShareChunk × CollectMemory codec} (member : item ∈ withMemory memory chunks) :
    item.1 ∈ chunks := by
  rw [← withMemory_fst memory chunks]
  exact List.mem_map_of_mem (f := Prod.fst) member

theorem dataShares_isEnd (cloud : Nat) (memory : Nat → CollectMemory codec)
    (chunks : List ShareChunk) :
    (dataShares cloud (withMemory memory chunks)).map (fun item => item.1.isEnd) =
      chunks.map ShareChunk.isEnd := by
  conv_rhs => rw [← withMemory_fst memory chunks, List.map_map]
  rw [dataShares, List.map_map]
  rfl

def fileCollection (cloud : Nat) (metaChunkBuffer : Buffer Byte)
    (memory : Nat → CollectMemory codec) (chunks : List ShareChunk) : Collection :=
  (Collection.start metaChunkBuffer).addAll crypto (dataShares cloud (withMemory memory chunks))

theorem fileCollection_counts (cloud : Nat) (metaChunkBuffer : Buffer Byte)
    (memory : Nat → CollectMemory codec) (chunks : List ShareChunk) :
    (fileCollection cloud metaChunkBuffer memory chunks).Counts chunks.length := by
  have counts : (fileCollection cloud metaChunkBuffer memory chunks).Counts
      (0 + (dataShares cloud (withMemory memory chunks)).length) :=
    (Collection.Counts.start metaChunkBuffer).addAll _
  rwa [Nat.zero_add, dataShares, List.length_map, withMemory, List.length_map,
    List.length_zipIdx] at counts

theorem fileCollection_marks (cloud : Nat) (metaChunkBuffer : Buffer Byte)
    (memory : Nat → CollectMemory codec)
    (marked : MarksLast (chunks.map ShareChunk.isEnd)) :
    MarksLast ((fileCollection cloud metaChunkBuffer memory chunks).chunks.map
        MetaChunk.isEnd) ∧
      (fileCollection cloud metaChunkBuffer memory chunks).collector.metaChunkCounter = 0 :=
  Collection.addAll_marks (by rwa [dataShares_isEnd])

theorem CloudOutput.collect_file (cloud : Nat) (metaChunkBuffer : Buffer Byte)
    (memory : Nat → CollectMemory codec) (head : FileHead) (chunks : List ShareChunk) :
    collect codec cloud metaChunkBuffer memory (.file head :: chunks.map .share) =
      { items := .fileHeader head.fileSize (nameShare codec cloud (memory 0).name head) ::
          (withMemory memory chunks).map fun item =>
            .share (shareObject crypto item.2.node item.1 cloud) item.1.isEnd
        collection := fileCollection cloud metaChunkBuffer memory chunks } := by
  have numbered : ((chunks.map ShareChunkItem.share).zipIdx 1).map
      (fun numbered => (numbered.1, memory numbered.2)) =
        (withMemory memory chunks).map fun item => (.share item.1, item.2) := by
    rw [withMemory, List.zipIdx_map, List.map_map, List.map_map]
    rfl
  rw [collect, List.zipIdx_cons, List.map_cons, numbered, CloudOutput.addAll, List.foldl_cons]
  exact CloudOutput.addAll_shares cloud _ _

theorem CloudOutput.dataQueue_file (cloud : Nat) (metaChunkBuffer : Buffer Byte)
    (memory : Nat → CollectMemory codec) (headerMemory : HeaderMemory) (head : FileHead)
    (chunks : List ShareChunk) :
    (collect codec cloud metaChunkBuffer memory (.file head :: chunks.map .share)).dataQueue
        headerMemory =
      fileHeaderItem headerMemory head.fileSize (nameShare codec cloud (memory 0).name head) ::
        (withMemory memory chunks).map fun item =>
          .share (shareObject crypto item.2.node item.1 cloud) item.1.isEnd := by
  rw [dataQueue, collect_file, List.map_cons, List.map_map]
  rfl

theorem CloudOutput.metaQueue_file (cloud : Nat) (metaChunkBuffer : Buffer Byte)
    (memory : Nat → CollectMemory codec) (headerMemory : HeaderMemory) (head : FileHead)
    (chunks : List ShareChunk) :
    (collect codec cloud metaChunkBuffer memory (.file head :: chunks.map .share)).metaQueue
        headerMemory =
      fileHeaderItem headerMemory head.fileSize (nameShare codec cloud (memory 0).name head) ::
        (fileCollection cloud metaChunkBuffer memory chunks).chunks.map MetaChunk.queued := by
  have none : ((withMemory memory chunks).map fun item =>
      CollectedItem.share (shareObject crypto item.2.node item.1 cloud) item.1.isEnd).filterMap
        (CollectedItem.queuedHeader headerMemory) = [] := by
    rw [List.filterMap_eq_nil_iff]
    intro item member
    rcases List.mem_map.mp member with ⟨pair, _, same⟩
    rw [← same]
    rfl
  rw [metaQueue, collect_file, List.filterMap_cons, none]
  rfl

/-! ## The sizes of shares -/

section Sizes

variable {openssl : OpenSSL} {securetype : SecureType}
variable {codec : CDCodec gf (openssl.cryptoPrimitive securetype.cryptoType)}

theorem encode_size (caontRS : codec.type = .caontRS) (memory : EncodeMemory codec)
    {data : List Byte} (bounded : data.length ≤ secretSize) :
    data.length + codec.bytesPerSecretWord ≤ (encode codec memory data).1 * codec.k ∧
      (encode codec memory data).1 * codec.k ≤
        data.length + codec.bytesPerSecretWord * codec.k + codec.bytesPerSecretWord := by
  have systematic : codec.type ≠ .crsss := by rw [caontRS]; decide
  rcases encoding_ok caontRS memory bounded with ⟨encoded, success⟩
  rcases CDCodec.encoding_systematic_spec systematic success with ⟨_, _, size, _⟩
  rcases codec.rsAlignedSecretSize_rows data.length with ⟨rows, filled, covers⟩
  have padded := codec.rsAlignedSecretSize_le data.length
  have whole := CDCodec.rsShareSize_mul_k filled
  rw [← size] at whole
  rw [encode, success]
  dsimp only
  omega

private theorem word_le (codec : CDCodec gf (openssl.cryptoPrimitive securetype.cryptoType)) :
    codec.bytesPerSecretWord ≤ 32 :=
  (hashSize_bounds openssl securetype).2

theorem encode_size_le (caontRS : codec.type = .caontRS) (memory : EncodeMemory codec)
    {data : List Byte} (bounded : data.length ≤ secretSize) :
    1 ≤ (encode codec memory data).1 ∧ (encode codec memory data).1 ≤ data.length + 64 := by
  rcases encode_size caontRS memory bounded with ⟨lower, upper⟩
  have word := word_le codec
  have word_pos := codec.bytesPerSecretWord_pos
  have positive := codec.k_pos
  constructor
  · by_contra none
    rw [Nat.lt_one_iff.mp (Nat.not_le.mp none), Nat.zero_mul] at lower
    omega
  · apply Nat.le_of_mul_le_mul_right _ positive
    have row : data.length + codec.bytesPerSecretWord ≤
        (data.length + codec.bytesPerSecretWord) * codec.k := Nat.le_mul_of_pos_right _ positive
    have rows : codec.bytesPerSecretWord * codec.k ≤ 32 * codec.k :=
      Nat.mul_le_mul_right _ word
    have words : (data.length + codec.bytesPerSecretWord) * codec.k ≤
        (data.length + 32) * codec.k := Nat.mul_le_mul_right _ (by omega)
    have sum : (data.length + 64) * codec.k = (data.length + 32) * codec.k + 32 * codec.k := by
      rw [← Nat.add_mul]
    omega

variable {secret : Secret} {chunk : ShareChunk}

theorem EncodedAs.shareSize (encoded : EncodedAs codec secret chunk) :
    ∃ memory, chunk.shareSize = (encode codec memory secret.data).1 := by
  rcases encoded with ⟨memory, same⟩
  cases same
  exact ⟨memory, rfl⟩

theorem EncodedAs.data_le (caontRS : codec.type = .caontRS)
    (encoded : EncodedAs codec secret chunk) :
    secret.data.length ≤ chunk.shareSize * codec.k := by
  rcases encoded.shareSize with ⟨memory, size⟩
  have lower := (encode_size caontRS memory secret.bounded).1
  rw [size]
  omega

theorem EncodedAs.size_bounds (caontRS : codec.type = .caontRS)
    (encoded : EncodedAs codec secret chunk) :
    1 ≤ chunk.shareSize ∧ chunk.shareSize ≤ secretSize + 64 := by
  rcases encoded.shareSize with ⟨memory, size⟩
  rcases encode_size_le caontRS memory secret.bounded with ⟨lower, upper⟩
  have bounded := secret.bounded
  rw [size]
  omega

variable {secrets : List Secret} {chunks : List ShareChunk}

theorem encodedAs_of_mem (encoded : List.Forall₂ (EncodedAs codec) secrets chunks)
    (member : chunk ∈ chunks) : ∃ secret ∈ secrets, EncodedAs codec secret chunk := by
  induction encoded with
  | nil => cases member
  | cons first _ induction =>
      rcases List.mem_cons.mp member with same | later
      · rw [same]
        exact ⟨_, List.mem_cons_self, first⟩
      · rcases induction later with ⟨secret, listed, found⟩
        exact ⟨secret, List.mem_cons_of_mem _ listed, found⟩

theorem dataShare_shareSize (caontRS : codec.type = .caontRS)
    (encoded : List.Forall₂ (EncodedAs codec) secrets chunks)
    (cloud : Nat) (memory : Nat → CollectMemory codec) :
    ∀ item ∈ dataShares cloud (withMemory memory chunks), ∃ secret ∈ secrets, ∃ chunk,
      EncodedAs codec secret chunk ∧ item.1.node.shareSize.toNat = chunk.shareSize := by
  intro item member
  rcases List.mem_map.mp member with ⟨⟨chunk, found⟩, listed, same⟩
  rcases encodedAs_of_mem encoded (mem_of_withMemory listed) with ⟨secret, secretListed, encodedAs⟩
  have bounds : 1 ≤ chunk.shareSize ∧ chunk.shareSize ≤ secretSize + 64 :=
    encodedAs.size_bounds caontRS
  refine ⟨secret, secretListed, chunk, encodedAs, ?_⟩
  rw [← same]
  change (BitVec.ofNat 32 chunk.shareSize).toNat = chunk.shareSize
  rw [BitVec.toNat_ofNat, Nat.mod_eq_of_lt]
  rw [secretSize] at bounds
  omega

end Sizes

end MetaDedup.Encoder
