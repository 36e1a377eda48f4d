import MetaDedup.Client.ChunkSizes
import MetaDedup.Client.MetadataSegments
import MetaDedup.Upload.FileEmission
import MetaDedup.Upload.FileQueues

/-! # The end of a file on the metadata port

The server takes a package for the last one of a file when the sizes of the secrets so far
add up to the size of the file. On the metadata port the sizes are those of the metadata
chunks, 64 bytes for each share, while the size of the file is that of its data. -/

namespace MetaDedup.Upload

open Foundation Wire Uploader Encoder UploadLoop
open Chunker (defaultChunker)
open Server (RecipeStore readFile)
open ThreadRun (isEndItem)

/-- The test of the server tells the last package of a file from the earlier ones. -/
def DetectsEnd (packages : List (List Byte)) : Prop :=
  ∀ index (inside : index < packages.length) (buffer : Buffer Byte),
    buffer.slice 0 packages[index].length = packages[index] →
      (RecipeStore.EndsHere (readFile buffer 0) ↔ index + 1 = packages.length)

/-! ## Rounds -/

private theorem packRounds_ne_nil {placed : List ShareObject} (nonempty : placed ≠ [])
    (left : List ShareObject) : ∀ round ∈ packRounds placed left, round ≠ [] :=
  @packRounds_forall (· ≠ []) (fun _ => List.cons_ne_nil _ _)
    (fun _ _ _ => List.append_ne_nil_of_right_ne_nil _ (List.cons_ne_nil _ _)) _ nonempty left

private theorem packRounds_tail (placed left : List ShareObject) :
    ∀ round ∈ (packRounds placed left).tail, round ≠ [] := by
  induction left generalizing placed with
  | nil => exact fun round member => nomatch member
  | cons share left induction =>
      rw [packRounds]
      split
      · exact packRounds_ne_nil (List.cons_ne_nil _ _) left
      · exact induction _

private theorem planRounds_ne_nil (shares : List ShareObject) : planRounds shares ≠ [] := by
  have nonempty : ∀ placed left, packRounds placed left ≠ [] := by
    intro placed left
    induction left generalizing placed with
    | nil => exact List.cons_ne_nil _ _
    | cons share left induction =>
        rw [packRounds]
        split
        · exact List.cons_ne_nil _ _
        · exact induction _
  exact nonempty [] shares

/-! ## Sizes -/

variable {shares first second : List ShareObject} {packages : List (List Byte)}

/-- The secrets of shares have positive sizes, and together they fit into a `long`. -/
structure Countable (shares : List ShareObject) : Prop where
  positive : ∀ share ∈ shares, 1 ≤ share.secretSize.toInt
  total : secretTotal shares < 2 ^ 63

theorem secretTotal_nonneg
    (positive : ∀ share ∈ shares, 1 ≤ share.secretSize.toInt) : 0 ≤ secretTotal shares := by
  induction shares with
  | nil => exact le_refl _
  | cons share shares induction =>
      rcases List.forall_mem_cons.mp positive with ⟨first, others⟩
      have rest := induction others
      rw [secretTotal] at rest
      rw [secretTotal, List.map_cons, List.sum_cons]
      omega

private theorem secretTotal_pos
    (positive : ∀ share ∈ shares, 1 ≤ share.secretSize.toInt) (nonempty : shares ≠ []) :
    0 < secretTotal shares := by
  cases shares with
  | nil => exact absurd rfl nonempty
  | cons share shares =>
      rcases List.forall_mem_cons.mp positive with ⟨first, others⟩
      have rest := secretTotal_nonneg others
      rw [secretTotal] at rest
      rw [secretTotal, List.map_cons, List.sum_cons]
      omega

theorem Countable.left (countable : Countable (first ++ second)) :
    Countable first := by
  have rest := secretTotal_nonneg fun share member =>
    countable.positive share (List.mem_append_right _ member)
  have total := countable.total
  rw [secretTotal_append] at total
  exact ⟨fun share member => countable.positive share (List.mem_append_left _ member), by omega⟩

theorem Countable.right (countable : Countable (first ++ second)) : Countable second := by
  have rest := secretTotal_nonneg fun share member =>
    countable.positive share (List.mem_append_left _ member)
  have total := countable.total
  rw [secretTotal_append] at total
  exact ⟨fun share member => countable.positive share (List.mem_append_right _ member), by omega⟩

theorem Countable.bmod (countable : Countable shares) :
    (secretTotal shares).bmod longRange = secretTotal shares := by
  have lower := secretTotal_nonneg countable.positive
  have upper := countable.total
  rw [longRange]
  apply Int.bmod_eq_of_le <;> omega

/-- The test is true in a package exactly if the sizes of its round and of those before
add up to the size of the file. -/
theorem Announced.endsHere_iff {name : List Byte} {fileSize : Int} {past : List ShareObject}
    {rounds : List (List ShareObject)}
    (announced : Announced name fileSize past rounds packages)
    (countable : Countable (past ++ rounds.flatten)) :
    rounds.length = packages.length ∧
    ∀ index (inside : index < packages.length) (buffer : Buffer Byte),
      buffer.slice 0 packages[index].length = packages[index] →
        (RecipeStore.EndsHere (readFile buffer 0) ↔
          secretTotal (past ++ (rounds.take (index + 1)).flatten) = fileSize) := by
  induction announced with
  | nil past => exact ⟨rfl, fun index inside => nomatch inside⟩
  | @cons past round rounds package packages first rest induction =>
      rw [List.flatten_cons, ← List.append_assoc] at countable
      rcases induction countable with ⟨lengths, later⟩
      refine ⟨by rw [List.length_cons, List.length_cons, lengths], ?_⟩
      intro index inside buffer holds
      cases index with
      | zero =>
          rcases first.fields buffer holds with ⟨size, pastSize, comingSize⟩
          rw [RecipeStore.EndsHere, size, pastSize, comingSize, countable.left.left.bmod,
            countable.left.right.bmod, List.take_succ_cons, List.take_zero,
            List.flatten_singleton, secretTotal_append]
      | succ index =>
          rw [List.take_succ_cons, List.flatten_cons, ← List.append_assoc]
          exact later index (Nat.lt_of_succ_lt_succ inside) buffer holds

private theorem secretTotal_take_rounds_lt (countable : Countable shares)
    {index : Nat} (more : index + 1 < (planRounds shares).length) :
    secretTotal ((planRounds shares).take (index + 1)).flatten < secretTotal shares := by
  have parts : shares = ((planRounds shares).take (index + 1)).flatten ++
      ((planRounds shares).drop (index + 1)).flatten := by
    rw [← List.flatten_append, List.take_append_drop, planRounds_flatten]
  have follows : ((planRounds shares).drop (index + 1)).flatten ≠ [] := by
    have next : (planRounds shares)[index + 1] ∈ (planRounds shares).tail := by
      rw [← List.getElem_tail (by rw [List.length_tail]; omega)]
      exact List.getElem_mem _
    rw [List.drop_eq_getElem_cons more, List.flatten_cons]
    exact List.append_ne_nil_of_left_ne_nil (packRounds_tail [] shares _ next) _
  have rest := secretTotal_pos (fun share member => countable.positive share (by
    rw [parts]
    exact List.mem_append_right _ member)) follows
  conv_rhs => rw [parts, secretTotal_append]
  omega

theorem Announced.detectsEnd_iff {name : List Byte} {fileSize : Int}
    (announced : Announced name fileSize [] (planRounds shares) packages)
    (countable : Countable shares) :
    DetectsEnd packages ↔ secretTotal shares = fileSize := by
  have whole := planRounds_flatten shares
  have some_round := List.length_pos_iff.mpr (planRounds_ne_nil shares)
  have sum : Countable ([] ++ (planRounds shares).flatten) := by
    rwa [List.nil_append, whole]
  rcases announced.endsHere_iff sum with ⟨lengths, test⟩
  rw [lengths] at some_round
  constructor
  · intro detects
    have inside : packages.length - 1 < packages.length := by omega
    have last : packages.length - 1 + 1 = (planRounds shares).length := by omega
    have holds := Buffer.slice_getD packages[packages.length - 1] 0 (le_refl _)
    rw [List.take_length] at holds
    have ends := (detects _ inside _ holds).mpr (by omega)
    rw [test _ inside _ holds, last, List.take_length, List.nil_append, whole] at ends
    exact ends
  · intro agrees index inside buffer holds
    rw [test index inside buffer holds, List.nil_append, ← agrees]
    constructor
    · intro reached
      by_contra earlier
      have smaller := secretTotal_take_rounds_lt countable
        (show index + 1 < (planRounds shares).length by omega)
      omega
    · intro last
      rw [last, ← lengths, List.take_length, whole]

/-! ## The metadata thread of a file -/

/-- A thread that gets a file ends, and whether the end is detected in what it sends then
does not depend on the run. -/
theorem FileQueue.detectsEnd_iff {queue : FileQueue} (countable : Countable queue.shares)
    {thread : Thread} (begins : queue.Begins thread) :
    (∀ final : ThreadRun, Relation.ReflTransGen ThreadRun.Step ⟨thread, []⟩ final →
      final.thread.phase = .exited → DetectsEnd final.packages) ↔
    secretTotal queue.shares = queue.fileSize := by
  have announced : ∀ final : ThreadRun,
      Relation.ReflTransGen ThreadRun.Step ⟨thread, []⟩ final → final.thread.phase = .exited →
      (DetectsEnd final.packages ↔ secretTotal queue.shares = queue.fileSize) :=
    fun final run exits =>
      (((invariant_start begins).run run).announced_all exits).detectsEnd_iff countable
  constructor
  · intro detects
    rcases @ThreadRun.exists_exit ⟨thread, []⟩ begins.phase _ begins.ringBuffer
      queue.items_end with ⟨final, run, exits⟩
    exact (announced final run exits).mp (detects final run exits)
  · intro agrees final run exits
    exact (announced final run exits).mpr agrees

/-- A file whose size `ftell` can return. -/
structure RegularFile where
  content : List Byte
  measured : content.length < 2 ^ 63

namespace CloudUpload

variable {openssl : OpenSSL} {securetype : SecureType} {gf : GaloisField}
variable {codec : CDCodec gf (openssl.cryptoPrimitive securetype.cryptoType)}

/-- The end of a file is detected in what the metadata thread has sent when it exits. -/
def EndDetected {content : List Byte} (upload : CloudUpload codec content) : Prop :=
  ∀ thread, Fresh upload.metaQueue thread → ∀ final : ThreadRun,
    Relation.ReflTransGen ThreadRun.Step ⟨thread, []⟩ final →
    final.thread.phase = .exited → DetectsEnd final.packages

private theorem secretTotal_metaObjects {content : List Byte} (caontRS : codec.type = .caontRS)
    (upload : CloudUpload codec content) :
    (∀ share ∈ upload.metaObjects, 1 ≤ share.secretSize.toInt) ∧
      secretTotal upload.metaObjects =
        ((upload.collection.chunks.map MetaChunk.secretSize).sum : Nat) := by
  have counts : upload.collection.Counts _ := fileCollection_counts _ _ _ _
  have sizes := fileCollection_size_le caontRS upload.encoded upload.cloud
    upload.metaChunkBuffer upload.memory
  have exact_size : ∀ chunk ∈ upload.collection.chunks,
      chunk.shareObject.secretSize.toInt = chunk.secretSize := by
    intro chunk member
    have bound := sizes chunk member
    have limit : (maxSegmentSize + 1) * metaNodeSize < 2 ^ 31 := by decide
    exact toInt_ofNat_of_lt (by omega)
  constructor
  · intro share member
    rcases List.mem_map.mp member with ⟨chunk, listed, rfl⟩
    have size := (counts.sizes chunk listed).2
    rw [metaNodeSize] at size
    rw [exact_size chunk listed]
    omega
  · rw [secretTotal, metaObjects, List.map_map, Nat.cast_list_sum, List.map_map]
    exact congrArg List.sum (List.map_congr_left exact_size)

private theorem metaObjects_countable (caontRS : codec.type = .caontRS) (file : RegularFile)
    (nonempty : file.content ≠ []) (upload : CloudUpload codec file.content) :
    Countable upload.metaObjects ∧ secretTotal upload.metaObjects =
      (metaNodeSize * (fileChunks defaultChunker file.content).length : Nat) := by
  have counts : upload.collection.Counts _ := fileCollection_counts _ _ _ _
  have closed : upload.collection.collector.metaChunkCounter = 0 :=
    (fileCollection_marks _ _ _ (upload.chunks_marks nonempty)).2
  have sum := counts.sum
  rw [closed, Nat.zero_mul, Nat.add_zero, upload.chunks_length, Nat.mul_comm] at sum
  rcases upload.secretTotal_metaObjects caontRS with ⟨positive, total⟩
  rw [sum] at total
  refine ⟨⟨positive, ?_⟩, total⟩
  have few := fileChunks_length_le default_min_pos (by decide) file.content
  have measured := file.measured
  rw [total, metaNodeSize]
  change 2048 * _ ≤ _ + 2 * 2048 at few
  omega

theorem endDetected_iff (caontRS : codec.type = .caontRS) (file : RegularFile)
    (nonempty : file.content ≠ []) (upload : CloudUpload codec file.content) :
    upload.EndDetected ↔ headerFileSize file.content =
      (metaNodeSize * (fileChunks defaultChunker file.content).length : Nat) := by
  rcases upload.metaObjects_countable caontRS file nonempty with ⟨countable, total⟩
  rcases upload.exists_metaQueue caontRS nonempty with ⟨queue, queues⟩
  rw [← queues.shares] at countable total
  rw [← total, ← queues.fileSize, eq_comm, EndDetected, ← queues.items]
  constructor
  · intro detected
    rcases exists_fresh queue.items with ⟨thread, fresh⟩
    exact (queue.detectsEnd_iff countable fresh.begins).mp (detected thread fresh)
  · intro agrees thread fresh
    exact (queue.detectsEnd_iff countable fresh.begins).mpr agrees

private theorem endDetected_of_empty {content : List Byte} (empty : content = [])
    (upload : CloudUpload codec content) : upload.EndDetected := by
  intro thread fresh final run exits
  have none : upload.chunks = [] := by
    rw [← List.length_eq_zero_iff, upload.chunks_length, empty]
    rfl
  have unmarked : upload.metaQueue.map isEndItem = [false] := by
    rw [metaQueue, output, none]
    exact (queue_marks upload.cloud upload.metaChunkBuffer upload.memory upload.headerMemory
      upload.head []).2
  rcases (ThreadRun.canExit_iff fresh.phase).mp ⟨final, run, exits⟩ with ⟨item, member, isEnd⟩
  rw [fresh.ringBuffer] at member
  have found := List.mem_map_of_mem (f := isEndItem) member
  rw [unmarked, isEnd] at found
  exact absurd (List.mem_singleton.mp found) Bool.true_eq_false.mp

end CloudUpload

/-- The server detects the end of a file on the metadata port of every cloud exactly if
the size in the file header happens to be 64 bytes for each chunk of the file, or if the
file is empty, so that no package is sent. -/
theorem metadata_end_detected_iff {gf : GaloisField} {openssl : OpenSSL}
    {securetype : SecureType}
    {codec : CDCodec gf (openssl.cryptoPrimitive securetype.cryptoType)}
    (caontRS : codec.type = .caontRS) (file : RegularFile) :
    (∀ upload : CloudUpload codec file.content, upload.EndDetected) ↔
      file.content = [] ∨ headerFileSize file.content =
        (metaNodeSize * (fileChunks defaultChunker file.content).length : Nat) := by
  constructor
  · intro detected
    by_cases empty : file.content = []
    · exact .inl empty
    · rcases CloudUpload.exists_upload codec file.content
        (Int.natCast_pos.mp codec.accepted.1) with ⟨upload, _⟩
      exact .inr ((upload.endDetected_iff caontRS file empty).mp (detected upload))
  · intro agrees upload
    by_cases empty : file.content = []
    · exact upload.endDetected_of_empty empty
    · exact (upload.endDetected_iff caontRS file empty).mpr (agrees.resolve_left empty)

private theorem recordFile_measured : (List.replicate 64 (7 : Byte)).length < 2 ^ 63 := by
  rw [List.length_replicate]
  decide

def recordFile : RegularFile := ⟨List.replicate 64 7, recordFile_measured⟩

/-- The end of a file of 64 bytes is detected: its size is that of its only record. -/
theorem metadata_end_detected_record :
    ∃ upload : CloudUpload plainCodec recordFile.content,
      upload.cloud = 0 ∧ upload.EndDetected := by
  rcases CloudUpload.exists_upload plainCodec recordFile.content (show 0 < 4 by decide) with
    ⟨upload, first⟩
  refine ⟨upload, first, (metadata_end_detected_iff rfl recordFile).mpr ?_ upload⟩
  right
  rw [fileChunks_short default_min_pos (by decide) (by decide) (by decide)]
  decide

/-- The end of a file of five bytes is not detected on the metadata port. -/
theorem metadata_end_missed :
    ∃ upload : CloudUpload plainCodec [1, 2, 3, 4, 5],
      upload.cloud = 0 ∧ ¬upload.EndDetected := by
  rcases CloudUpload.exists_upload plainCodec [1, 2, 3, 4, 5] (show 0 < 4 by decide) with
    ⟨upload, first⟩
  refine ⟨upload, first, ?_⟩
  rw [upload.endDetected_iff rfl ⟨[1, 2, 3, 4, 5], by decide⟩ (by decide),
    fileChunks_short default_min_pos (by decide) (by decide) (by decide)]
  decide

end MetaDedup.Upload
