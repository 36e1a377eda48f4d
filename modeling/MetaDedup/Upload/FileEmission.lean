import MetaDedup.Client.MetadataSegments
import MetaDedup.Client.NameShares
import MetaDedup.Upload.ThreadRun

/-! # What is emitted for a file

The secrets of a file make up its content, are numbered in order and fit into their
arrays, and the last one is marked, so that every upload thread comes to an end as long as
the collect thread stays inside its arrays. An empty file has no secrets and so no mark:
the threads wait for one for ever. -/

namespace MetaDedup.Upload

open Foundation Wire Encoder UploadLoop
open Chunker (defaultChunker)
open ThreadRun (isEndItem CanExit)
open NameShares (tmpSize NameFits shortestName nameFits_default_iff)

structure Emits (content : List Byte) (secrets : List EmittedSecret) : Prop where
  data : (secrets.map EmittedSecret.data).flatten = content
  numbered : ∀ index (inside : index < secrets.length),
    secrets[index].secretID.toInt = index
  bounded : ∀ secret ∈ secrets, secret.data.length ≤ secretSize
  marked : MarksLast (secrets.map EmittedSecret.isEnd)

/-- The thread with a queue gets one `SHARE_END` and can be joined. -/
def QueueEnds (queue : List Uploader.Item) : Prop :=
  (queue.map isEndItem).count true = 1 ∧
    ∀ thread : Uploader.Thread, thread.phase = .extract → thread.ringBuffer = queue →
      CanExit thread

variable {gf : GaloisField} {crypto : CryptoPrimitive}

/-- The collect thread stays inside its arrays: the shares of the file name fit into `tmp`
and into the file headers, the records into `metaChunkBuffer_` and the metadata chunks into
their items. -/
structure StaysInside (codec : CDCodec gf crypto) (cloud : Nat) (metaChunkBuffer : Buffer Byte)
    (memory : Nat → CollectMemory codec) (head : FileHead) (chunks : List ShareChunk) :
    Prop where
  tmp : codec.n * (encode codec (memory 0).name head.fullName).1 ≤
    tmpSize head.fullName.length
  name : (encode codec (memory 0).name head.fullName).1 ≤ Uploader.ringBufferDataSize
  records : SegmentsFit crypto metaChunkBuffer (dataShares cloud (withMemory memory chunks))

/-- Every upload thread of a file gets one `SHARE_END` and can be joined, whatever the
encoder threads make of the secrets. When the collect thread leaves its arrays, nothing is
known about what it does. -/
def ThreadsEnd (codec : CDCodec gf crypto) (head : FileHead) (secrets : List Secret) : Prop :=
  ∀ chunks, List.Forall₂ (EncodedAs codec) secrets chunks →
    ∀ cloud < codec.n, ∀ metaChunkBuffer memory headerMemory,
      let output := CloudOutput.collect codec cloud metaChunkBuffer memory
        (.file head :: chunks.map .share)
      StaysInside codec cloud metaChunkBuffer memory head chunks ∧
        QueueEnds (output.dataQueue headerMemory) ∧ QueueEnds (output.metaQueue headerMemory)

/-- The records of the shares fit into their arrays, whatever the encoder threads make of
the secrets. -/
def RecordsFit (codec : CDCodec gf crypto) (secrets : List Secret) : Prop :=
  ∀ chunks, List.Forall₂ (EncodedAs codec) secrets chunks →
    ∀ cloud < codec.n, ∀ metaChunkBuffer, ∀ memory : Nat → CollectMemory codec,
      SegmentsFit crypto metaChunkBuffer (dataShares cloud (withMemory memory chunks))

/-- The shares of each cloud are cut into segments in time. -/
def SharesCut (codec : CDCodec gf crypto) (secrets : List Secret) : Prop :=
  ∀ chunks, List.Forall₂ (EncodedAs codec) secrets chunks →
    ∀ cloud < codec.n, ∀ memory : Nat → CollectMemory codec,
      CutInTime ((dataShares cloud (withMemory memory chunks)).map Prod.fst)

/-! ## The secrets -/

theorem toInt_ofNat_of_lt {value : Nat} (small : value < 2 ^ 31) :
    (BitVec.ofNat 32 value).toInt = value := by
  rw [BitVec.toInt_ofNat']
  apply Int.bmod_eq_of_le <;> omega

/-- The secrets of a file are what they have to be, unless the file is empty or has more
chunks than there are numbers. -/
theorem emits_iff (buffer : Buffer Byte) (content : List Byte) :
    Emits content (emission defaultChunker buffer content) ↔
      content ≠ [] ∧ (fileChunks defaultChunker content).length ≤ 2 ^ 31 := by
  have bounded := emission_bounded buffer content
  rw [emission_eq default_min_pos] at bounded ⊢
  constructor
  · intro emits
    constructor
    · rintro rfl
      exact emits.marked.ne_nil rfl
    · by_contra many
      have inside : 2 ^ 31 < (numberChunks (fileChunks defaultChunker content).length 0
          (fileChunks defaultChunker content)).length := by
        rw [numberChunks_length]
        omega
      have number := emits.numbered (2 ^ 31) inside
      rw [numberChunks_secretID] at number
      exact absurd number (by decide)
  · rintro ⟨nonempty, few⟩
    refine ⟨?_, ?_, bounded, numberChunks_marks (fileChunks_ne_nil nonempty) (Nat.zero_add _)⟩
    · rw [numberChunks_data, fileChunks_flatten default_min_pos]
    · intro index inside
      rw [numberChunks_secretID, Nat.zero_add]
      rw [numberChunks_length] at inside
      exact toInt_ofNat_of_lt (by omega)

/-! ## The threads -/

private theorem queueEnds_of_count {queue : List Uploader.Item}
    (once : (queue.map isEndItem).count true = 1) : QueueEnds queue := by
  refine ⟨once, ?_⟩
  intro thread phase ring
  have marked : true ∈ queue.map isEndItem := by
    rw [← List.count_pos_iff, once]
    exact Nat.zero_lt_one
  rcases List.mem_map.mp marked with ⟨item, member, isEnd⟩
  exact (ThreadRun.canExit_iff phase).mpr ⟨item, ring ▸ member, isEnd⟩

theorem queue_marks {codec : CDCodec gf crypto} (cloud : Nat) (metaChunkBuffer : Buffer Byte)
    (memory : Nat → CollectMemory codec) (headerMemory : HeaderMemory) (head : FileHead)
    (chunks : List ShareChunk) :
    let output := CloudOutput.collect codec cloud metaChunkBuffer memory
      (.file head :: chunks.map .share)
    (output.dataQueue headerMemory).map isEndItem = false :: chunks.map ShareChunk.isEnd ∧
      (output.metaQueue headerMemory).map isEndItem =
        false :: (fileCollection cloud metaChunkBuffer memory chunks).chunks.map
          MetaChunk.isEnd := by
  dsimp only
  rw [CloudOutput.dataQueue_file, CloudOutput.metaQueue_file, List.map_cons, List.map_cons,
    List.map_map, List.map_map]
  refine ⟨congrArg _ ?_, rfl⟩
  conv_rhs => rw [← withMemory_fst memory chunks, List.map_map]
  rfl

private theorem threadsEnd_of_marked {codec : CDCodec gf crypto} {head : FileHead}
    {secrets : List Secret} (marked : MarksLast (secrets.map Secret.isEnd))
    (named : NameFits codec head.fullName) (fit : RecordsFit codec secrets) :
    ThreadsEnd codec head secrets := by
  intro chunks encoded cloud listed metaChunkBuffer memory headerMemory
  have flags := isEnd_of_encodes encoded
  rcases queue_marks cloud metaChunkBuffer memory headerMemory head chunks with ⟨data, chunked⟩
  rcases named (memory 0).name with ⟨tmp, name⟩
  refine ⟨⟨tmp, name, fit chunks encoded cloud listed metaChunkBuffer memory⟩, ?_, ?_⟩
  · apply queueEnds_of_count
    rw [data, flags, List.count_cons_of_ne Bool.false_ne_true, marked.count]
  · apply queueEnds_of_count
    have shares := fileCollection_marks cloud metaChunkBuffer memory (flags.symm ▸ marked)
    rw [chunked, List.count_cons_of_ne Bool.false_ne_true, shares.1.count]

theorem ThreadsEnd.recordsFit {codec : CDCodec gf crypto} {head : FileHead}
    {secrets : List Secret} (ends : ThreadsEnd codec head secrets) : RecordsFit codec secrets := by
  intro chunks encoded cloud listed metaChunkBuffer memory
  exact (ends chunks encoded cloud listed metaChunkBuffer memory
    ⟨fun _ => 0, fun _ => 0⟩).1.records

theorem ThreadsEnd.nameFits {codec : CDCodec gf crypto} {head : FileHead}
    {secrets : List Secret} (ends : ThreadsEnd codec head secrets) :
    NameFits codec head.fullName := by
  intro memory
  rcases exists_encoded codec secrets with ⟨chunks, encoded⟩
  have inside := (ends chunks encoded 0 (Int.natCast_pos.mp codec.accepted.1) (fun _ => 0)
    (fun _ => { CollectMemory.zero codec with name := memory }) ⟨fun _ => 0, fun _ => 0⟩).1
  exact ⟨inside.tmp, inside.name⟩

section Files

variable {openssl : OpenSSL} {securetype : SecureType}

end Files

end MetaDedup.Upload
