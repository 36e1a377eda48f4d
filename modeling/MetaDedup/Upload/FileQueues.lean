import MetaDedup.Client.UploadQueues
import MetaDedup.Upload.ThreadRun

/-! # What the upload threads get for a file

The collect thread puts the items of a file into the ring buffers of the threads. In the
form they have there, a run of a thread sends a package for each round of the shares. -/

namespace MetaDedup.Upload

open Foundation Wire Uploader Encoder
open UploadLoop (MarksLast emission emission_bounded headerFileSize)
open Chunker (defaultChunker)

theorem shareItems_of_marks {α : Type} (object : α → ShareObject) (isEnd : α → Bool)
    {items : List α} (marks : MarksLast (items.map isEnd)) :
    items.map (fun item => Item.share (object item) (isEnd item)) =
      shareItems (items.map object) := by
  induction items with
  | nil => rfl
  | cons item items induction =>
      rw [List.map_cons] at marks
      rcases marks.of_cons with ⟨last, none⟩ | ⟨notLast, later⟩
      · rw [List.map_eq_nil_iff.mp none, List.map_singleton, List.map_singleton, last]
        rfl
      · have more : (items.map object).isEmpty = false := by
          rw [List.isEmpty_eq_false_iff, Ne, List.map_eq_nil_iff]
          rintro rfl
          exact later.ne_nil rfl
        rw [List.map_cons, List.map_cons, shareItems, induction later, notLast, more]

private theorem exists_fileQueue (memory : HeaderMemory) (fileSize : Int) {name : List Byte}
    (short : name.length < intBound) {shares : List ShareObject} (nonempty : shares ≠ [])
    (sized : ∀ share ∈ shares, 1 ≤ share.data.length) :
    ∃ queue : FileQueue,
      queue.items = fileHeaderItem memory fileSize name :: shareItems shares ∧
      queue.name = name ∧ queue.fileSize = fileSize.bmod longRange ∧
      queue.shares = shares := by
  refine ⟨⟨fileShareMDHead memory fileSize name, memory.data.write 0 name, name,
    fileSize.bmod longRange, shares, ?_, Buffer.slice_write _ _ _, ?_, ?_, ?_, ?_, nonempty,
    sized⟩, rfl, rfl, rfl, rfl⟩ <;> rw [fileShareMDHead]
  · rw [Buffer.readInt_writeInt]
    exact bmod_of_lt_intBound short
  · iterate 5 rw [Buffer.readInt_congr (Buffer.slice_writeInt_of_disjoint _ _ (by decide))]
    exact Buffer.readInt_writeInt _ _ _ _
  · iterate 3 rw [Buffer.readInt_congr (Buffer.slice_writeInt_of_disjoint _ _ (by decide))]
    exact Buffer.readInt_writeInt _ _ _ _
  · iterate 2 rw [Buffer.readInt_congr (Buffer.slice_writeInt_of_disjoint _ _ (by decide))]
    exact Buffer.readInt_writeInt _ _ _ _
  · rw [Buffer.readInt_congr (Buffer.slice_writeInt_of_disjoint _ _ (by decide))]
    exact Buffer.readInt_writeInt _ _ _ _

/-! ## Uploading a file -/

/-- A thread that is about to handle the items of its ring buffer with empty buffers. -/
structure Fresh (queue : List Item) (thread : Thread) : Prop where
  ringBuffer : thread.ringBuffer = queue
  phase : thread.phase = .extract
  buffers : thread.buffers.metaWP = 0 ∧ thread.buffers.containerWP = 0 ∧
    thread.buffers.numOfShares = 0

theorem Fresh.begins {queue : FileQueue} {thread : Thread} (fresh : Fresh queue.items thread) :
    queue.Begins thread :=
  ⟨fresh.ringBuffer, fresh.phase, fresh.buffers⟩

theorem exists_fresh (queue : List Item) : ∃ thread, Fresh queue thread :=
  ⟨⟨⟨fun _ => 0, 0, 0, fun _ => 0, 0, fun _ => 0, 0⟩, queue, .extract⟩, rfl, rfl, rfl, rfl, rfl⟩

variable {gf : GaloisField} {crypto : CryptoPrimitive}

/-- The upload of a file to a cloud, up to the queues of the upload threads: what `main`
has added to the encoder, what the encoder threads have made of it, and what memory the
collect thread has found. -/
structure CloudUpload (codec : CDCodec gf crypto) (content : List Byte) where
  head : FileHead
  buffer : Buffer Byte
  secrets : List Secret
  chunks : List ShareChunk
  cloud : Nat
  metaChunkBuffer : Buffer Byte
  memory : Nat → CollectMemory codec
  headerMemory : HeaderMemory
  fileSize : head.fileSize = headerFileSize content
  added : secrets.map Secret.emitted = emission defaultChunker buffer content
  encoded : List.Forall₂ (EncodedAs codec) secrets chunks
  listed : cloud < codec.n

namespace CloudUpload

variable {codec : CDCodec gf crypto} {content : List Byte} (upload : CloudUpload codec content)

def output : CloudOutput :=
  CloudOutput.collect codec upload.cloud upload.metaChunkBuffer upload.memory
    (.file upload.head :: upload.chunks.map .share)

def dataQueue : List Item := upload.output.dataQueue upload.headerMemory

def metaQueue : List Item := upload.output.metaQueue upload.headerMemory

def shares : List (DataShare × StackMemory) :=
  dataShares upload.cloud (withMemory upload.memory upload.chunks)

def collection : Collection :=
  fileCollection upload.cloud upload.metaChunkBuffer upload.memory upload.chunks

theorem exists_upload (codec : CDCodec gf crypto) (content : List Byte) {cloud : Nat}
    (listed : cloud < codec.n) : ∃ upload : CloudUpload codec content, upload.cloud = cloud := by
  rcases exists_secrets (emission_bounded (fun _ => 0) content) with ⟨secrets, added⟩
  rcases exists_encoded codec secrets with ⟨chunks, encoded⟩
  exact ⟨⟨⟨[], headerFileSize content, Nat.zero_le _⟩, fun _ => 0, secrets, chunks, cloud,
    fun _ => 0, fun _ => .zero codec, ⟨fun _ => 0, fun _ => 0⟩, rfl, added, encoded,
    listed⟩, rfl⟩

theorem chunks_length :
    upload.chunks.length = (UploadLoop.fileChunks defaultChunker content).length := by
  rw [← emitted_data upload.added, List.length_map, upload.encoded.length_eq]

theorem chunks_marks (nonempty : content ≠ []) :
    MarksLast (upload.chunks.map ShareChunk.isEnd) := by
  rw [isEnd_of_encodes upload.encoded]
  exact emitted_marks nonempty upload.added

def name : List Byte := nameShare codec upload.cloud (upload.memory 0).name upload.head

def dataObjects : List ShareObject :=
  shareObjects upload.cloud (withMemory upload.memory upload.chunks)

def metaObjects : List ShareObject := upload.collection.chunks.map MetaChunk.shareObject

/-- The queue of a thread is for this file. -/
structure Queues (queue : FileQueue) (items : List Item) (shares : List ShareObject) : Prop where
  items : queue.items = items
  name : queue.name = upload.name
  fileSize : queue.fileSize = headerFileSize content
  shares : queue.shares = shares

end CloudUpload

private theorem headerFileSize_bmod (content : List Byte) :
    (headerFileSize content).bmod longRange = headerFileSize content := by
  have lower := BitVec.le_toInt (BitVec.ofNat 32 content.length)
  have upper := BitVec.toInt_lt (x := BitVec.ofNat 32 content.length)
  rw [headerFileSize, longRange]
  apply Int.bmod_eq_of_le <;> omega

namespace CloudUpload

variable {openssl : OpenSSL} {securetype : SecureType} {content : List Byte}
variable {codec : CDCodec gf (openssl.cryptoPrimitive securetype.cryptoType)}

section Queue

variable (caontRS : codec.type = .caontRS) (upload : CloudUpload codec content)

include caontRS

theorem name_length : upload.name.length ≤ secretSize + 64 := by
  have bound := (encode_size_le caontRS (upload.memory 0).name upload.head.bounded).2
  have bounded := upload.head.bounded
  rw [name, nameShare, Buffer.slice_length]
  omega

theorem exists_queue {shares : List ShareObject} (nonempty : shares ≠ [])
    (sized : ∀ share ∈ shares, 1 ≤ share.data.length) :
    ∃ queue, upload.Queues queue
      (fileHeaderItem upload.headerMemory upload.head.fileSize upload.name ::
        shareItems shares) shares := by
  have short : upload.name.length < intBound :=
    Nat.lt_of_le_of_lt (upload.name_length caontRS) (by decide)
  rcases exists_fileQueue upload.headerMemory upload.head.fileSize short nonempty sized with
    ⟨queue, items, name, fileSize, shares⟩
  refine ⟨queue, items, name, ?_, shares⟩
  rw [fileSize, upload.fileSize, headerFileSize_bmod]

theorem exists_dataQueue (nonempty : content ≠ []) :
    ∃ queue, upload.Queues queue upload.dataQueue upload.dataObjects := by
  have flags := upload.chunks_marks nonempty
  rw [← withMemory_fst upload.memory upload.chunks, List.map_map] at flags
  have some_share : upload.dataObjects ≠ [] := by
    intro empty
    rw [List.map_eq_nil_iff.mp empty] at flags
    exact flags.ne_nil rfl
  have sized : ∀ share ∈ upload.dataObjects, 1 ≤ share.data.length := by
    intro share member
    rcases List.mem_map.mp member with ⟨item, chosen, rfl⟩
    rcases encodedAs_of_mem upload.encoded (mem_of_withMemory chosen) with
      ⟨secret, _, encodedAs⟩
    rw [shareObject_length _ _ encodedAs.holdsShares upload.listed]
    exact (encodedAs.size_bounds caontRS).1
  have queue := upload.exists_queue caontRS some_share sized
  rw [dataObjects, shareObjects, ← shareItems_of_marks _ _ flags] at queue
  rw [dataQueue, output, CloudOutput.dataQueue_file]
  exact queue

theorem exists_metaQueue (nonempty : content ≠ []) :
    ∃ queue, upload.Queues queue upload.metaQueue upload.metaObjects := by
  have counts : upload.collection.Counts _ := fileCollection_counts _ _ _ _
  have marks : MarksLast (upload.collection.chunks.map MetaChunk.isEnd) :=
    (fileCollection_marks _ _ _ (upload.chunks_marks nonempty)).1
  have some_chunk : upload.metaObjects ≠ [] := by
    intro empty
    rw [List.map_eq_nil_iff.mp empty] at marks
    exact marks.ne_nil rfl
  have sized : ∀ share ∈ upload.metaObjects, 1 ≤ share.data.length := by
    intro share member
    rcases List.mem_map.mp member with ⟨chunk, listed, rfl⟩
    rw [MetaChunk.shareObject_length]
    have size := counts.sizes chunk listed
    rw [metaNodeSize] at size
    omega
  have queue := upload.exists_queue caontRS some_chunk sized
  rw [metaObjects, ← shareItems_of_marks MetaChunk.shareObject MetaChunk.isEnd marks] at queue
  rw [metaQueue, output, CloudOutput.metaQueue_file]
  exact queue

end Queue

end CloudUpload

end MetaDedup.Upload
