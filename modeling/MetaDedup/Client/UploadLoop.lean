import MetaDedup.Client.ChunkLocality
import MetaDedup.Client.Collector

/-! # The upload loop of the client

`main` reads a file in blocks, has each block divided into chunks and adds every chunk
to the encoder as a secret. The chunks are numbered through all blocks, and the last
chunk of the last block is marked as the end of the file. -/

namespace MetaDedup.UploadLoop

open Foundation
open Encoder (secretSize)

/-- The size of the buffer a file is read into (`bufferSize_`). -/
def bufferSize : Nat := 128 * 1024 * 1024

/-- A secret as it is added to the encoder. The list is what has been copied to its
array. -/
structure EmittedSecret where
  data : List Byte
  secretID : BitVec 32
  isEnd : Bool
  deriving DecidableEq

def emitChunks (buffer : Buffer Byte) (total ret size numOfChunks : Nat) :
    (count totalChunks : Nat) → (preEnd : Int) → (chunkEndIndexList : List Int) →
      List EmittedSecret
  | _, _, _, [] => []
  | count, totalChunks, preEnd, chunkEndIndex :: rest =>
      { data := buffer.slice (preEnd + 1).toNat (chunkEndIndex - preEnd).toNat
        secretID := BitVec.ofNat 32 totalChunks
        isEnd := decide (total + ret = size ∧ count + 1 = numOfChunks) } ::
      emitChunks buffer total ret size numOfChunks (count + 1) (totalChunks + 1)
        chunkEndIndex rest

variable (chunker : Chunker)

/-- The loop over the blocks. `fin` is what is left of the file; `fread` returns full
blocks as long as there are any. -/
def readBlocks (size : Nat) :
    (fuel : Nat) → Buffer Byte → (fin : List Byte) → (total totalChunks : Nat) →
      List EmittedSecret
  | 0, _, _, _, _ => []
  | fuel + 1, buffer, fin, total, totalChunks =>
      if total < size then
        let block := fin.take bufferSize
        let buffer := buffer.write 0 block
        let chunkEndIndexList := chunker.varSizeChunking buffer block.length
        emitChunks buffer total block.length size chunkEndIndexList.length 0 totalChunks (-1)
            chunkEndIndexList ++
          readBlocks size fuel buffer (fin.drop bufferSize) (total + block.length)
            (totalChunks + chunkEndIndexList.length)
      else []

/-- The secrets that are added for a file. Every block has a byte, so the loop makes at
most as many passes as the file has bytes. -/
def emission (buffer : Buffer Byte) (content : List Byte) : List EmittedSecret :=
  readBlocks chunker content.length content.length buffer content 0 0

/-- The size of the file as the file header has it: a `long` in an `int` field. -/
def headerFileSize (content : List Byte) : Int := (BitVec.ofNat 32 content.length).toInt

/-! ## Blocks -/

def splitBlocks : (fuel : Nat) → List Byte → List (List Byte)
  | 0, _ => []
  | fuel + 1, content =>
      if content = [] then []
      else content.take bufferSize :: splitBlocks fuel (content.drop bufferSize)

def fileBlocks (content : List Byte) : List (List Byte) := splitBlocks content.length content

def blockEnds (block : List Byte) : List Int :=
  chunker.varSizeChunking (Buffer.ofList block 0) block.length

def cutAt (buffer : Buffer Byte) : (previous : Int) → (ends : List Int) → List (List Byte)
  | _, [] => []
  | previous, next :: ends =>
      buffer.slice (previous + 1).toNat (next - previous).toNat :: cutAt buffer next ends

def blockChunks (block : List Byte) : List (List Byte) :=
  cutAt (Buffer.ofList block 0) (-1) (blockEnds chunker block)

def fileChunks (content : List Byte) : List (List Byte) :=
  (fileBlocks content).flatMap (blockChunks chunker)

def numberChunks (overall : Nat) : Nat → List (List Byte) → List EmittedSecret
  | _, [] => []
  | index, chunk :: rest =>
      ⟨chunk, BitVec.ofNat 32 index, decide (index + 1 = overall)⟩ ::
        numberChunks overall (index + 1) rest

/-! ## The end of the file -/

variable {flags : List Bool}

/-- Only the last of some flags is set. -/
def MarksLast (flags : List Bool) : Prop := ∃ count, flags = List.replicate count false ++ [true]

theorem MarksLast.cons_false (marks : MarksLast flags) :
    MarksLast (false :: flags) := by
  rcases marks with ⟨count, same⟩
  exact ⟨count + 1, by rw [same, List.replicate_succ, List.cons_append]⟩

theorem MarksLast.ne_nil (marks : MarksLast flags) : flags ≠ [] := by
  rcases marks with ⟨count, same⟩
  rw [same]
  exact List.append_ne_nil_of_right_ne_nil _ (List.cons_ne_nil _ _)

theorem MarksLast.count (marks : MarksLast flags) :
    flags.count true = 1 := by
  rcases marks with ⟨count, same⟩
  rw [same, List.count_append, List.count_replicate]
  rfl

theorem MarksLast.of_cons {flag : Bool} (marks : MarksLast (flag :: flags)) :
    (flag = true ∧ flags = []) ∨ (flag = false ∧ MarksLast flags) := by
  rcases marks with ⟨count, same⟩
  cases count with
  | zero =>
      rw [List.replicate_zero, List.nil_append] at same
      exact .inl ⟨(List.cons.inj same).1, (List.cons.inj same).2⟩
  | succ count =>
      rw [List.replicate_succ, List.cons_append] at same
      exact .inr ⟨(List.cons.inj same).1, count, (List.cons.inj same).2⟩

section Numbering

variable {overall index : Nat} {chunks : List (List Byte)}

theorem numberChunks_data : (numberChunks overall index chunks).map EmittedSecret.data =
    chunks := by
  induction chunks generalizing index with
  | nil => rfl
  | cons chunk chunks induction => rw [numberChunks, List.map_cons, induction]

@[simp] theorem numberChunks_length : (numberChunks overall index chunks).length =
    chunks.length := by
  rw [← congrArg List.length (numberChunks_data : _ = chunks), List.length_map]

theorem numberChunks_secretID {place : Nat}
    (inside : place < (numberChunks overall index chunks).length) :
    (numberChunks overall index chunks)[place].secretID = BitVec.ofNat 32 (index + place) := by
  induction chunks generalizing index place with
  | nil => cases inside
  | cons chunk chunks induction =>
      cases place with
      | zero => rfl
      | succ place =>
          have shifted : index + (place + 1) = index + 1 + place := by omega
          rw [shifted]
          exact induction (Nat.lt_of_succ_lt_succ inside)

theorem numberChunks_marks (nonempty : chunks ≠ []) (last : index + chunks.length = overall) :
    MarksLast ((numberChunks overall index chunks).map EmittedSecret.isEnd) := by
  induction chunks generalizing index with
  | nil => exact absurd rfl nonempty
  | cons chunk chunks induction =>
      rw [List.length_cons] at last
      rw [numberChunks, List.map_cons]
      cases chunks with
      | nil =>
          have only : index + 1 = overall := last
          refine ⟨0, ?_⟩
          rw [decide_eq_true only]
          rfl
      | cons next chunks =>
          rw [List.length_cons] at last
          have other : ¬ index + 1 = overall := by omega
          rw [decide_eq_false other]
          exact (induction (List.cons_ne_nil _ _) (by rw [List.length_cons]; omega)).cons_false

end Numbering

section Chunks

variable {chunker} {buffer other : Buffer Byte} {size : Nat}

@[simp] theorem cutAt_length (previous : Int) (ends : List Int) :
    (cutAt buffer previous ends).length = ends.length := by
  induction ends generalizing previous with
  | nil => rfl
  | cons next ends induction => rw [cutAt, List.length_cons, induction, List.length_cons]

variable {previous : Int} {ends : List Int}

private theorem cutAt_flatten (positive : 0 < chunker.minChunkSize)
    (boundaries : chunker.Boundaries buffer size previous ends)
    (begun : -1 ≤ previous) (inside : previous ≤ size - 1) :
    (cutAt buffer previous ends).flatten =
      buffer.slice (previous + 1).toNat (size - 1 - previous).toNat := by
  induction boundaries with
  | @next previous next ends room first rest induction =>
      have lower := first.lower
      have upper : next ≤ size - 1 := first.upper.trans (min_le_right _ _)
      have start : (next + 1).toNat = (previous + 1).toNat + (next - previous).toNat := by
        omega
      have length : (size - 1 - previous).toNat =
          (next - previous).toNat + (size - 1 - next).toNat := by omega
      rw [cutAt, List.flatten_cons, induction (by omega) upper, start, length,
        Buffer.slice_add]
  | @complete previous full last =>
      have none : (size - 1 - previous).toNat = 0 := by omega
      rw [none]
      rfl
  | tail full unfinished => exact List.append_nil _

private theorem cutAt_sizes (positive : 0 < chunker.minChunkSize)
    (boundaries : chunker.Boundaries buffer size previous ends)
    (inside : previous ≤ size - 1) :
    ∀ chunk ∈ cutAt buffer previous ends,
      1 ≤ chunk.length ∧ chunk.length ≤ chunker.maxChunkSize := by
  have order := chunker.min_lt_avg.trans chunker.avg_lt_max
  induction boundaries with
  | @next previous next ends room first rest induction =>
      have lower := first.lower
      have upper : next ≤ size - 1 := first.upper.trans (min_le_right _ _)
      have limit := first.upper.trans (min_le_left _ _)
      intro chunk member
      rcases List.mem_cons.mp member with same | later
      · rw [same, Buffer.slice_length]
        omega
      · exact induction upper chunk later
  | complete =>
      intro chunk member
      cases member
  | tail full unfinished =>
      intro chunk member
      rw [List.mem_singleton.mp member, Buffer.slice_length]
      omega

theorem cutAt_large (boundaries : chunker.Boundaries buffer size previous ends) :
    ∀ chunk ∈ (cutAt buffer previous ends).dropLast, chunker.minChunkSize ≤ chunk.length := by
  induction boundaries with
  | @next previous next ends room first rest induction =>
      intro chunk member
      cases ends with
      | nil => cases member
      | cons after ends =>
          rw [cutAt, cutAt, List.dropLast_cons_cons] at member
          rcases List.mem_cons.mp member with same | later
          · have lower := first.lower
            rw [same, Buffer.slice_length]
            omega
          · exact induction chunk later
  | complete =>
      intro chunk member
      cases member
  | tail =>
      intro chunk member
      cases member

private theorem cutAt_congr (positive : 0 < chunker.minChunkSize)
    (agree : ∀ position < size, buffer position = other position)
    (boundaries : chunker.Boundaries buffer size previous ends) (begun : -1 ≤ previous) :
    cutAt buffer previous ends = cutAt other previous ends := by
  have slices : ∀ {previous next : Int}, -1 ≤ previous → next ≤ size - 1 →
      buffer.slice (previous + 1).toNat (next - previous).toNat =
        other.slice (previous + 1).toNat (next - previous).toNat := by
    intro previous next begun inside
    apply Buffer.slice_congr
    intro position bounded
    exact agree _ (by omega)
  induction boundaries with
  | @next previous next ends room first rest induction =>
      have lower := first.lower
      have upper : next ≤ size - 1 := first.upper.trans (min_le_right _ _)
      rw [cutAt, cutAt, slices begun upper, induction (by omega)]
  | complete => rfl
  | tail => rw [cutAt, cutAt, slices begun (le_refl _), cutAt, cutAt]

end Chunks

/-! ## The chunks of a file -/

section File

variable {chunker} (positive : 0 < chunker.minChunkSize)

variable {fin : List Byte}

theorem block_ne_nil (nonempty : fin ≠ []) : fin.take bufferSize ≠ [] := by
  rw [ne_eq, List.take_eq_nil_iff, bufferSize]
  exact not_or.mpr ⟨by decide, nonempty⟩

theorem block_length (fin : List Byte) :
    (fin.take bufferSize).length + (fin.drop bufferSize).length = fin.length := by
  rw [← List.length_append, List.take_append_drop]

variable {fuel : Nat} {content : List Byte}

theorem splitBlocks_flatten
    (enough : content.length ≤ fuel) : (splitBlocks fuel content).flatten = content := by
  induction fuel generalizing content with
  | zero => exact (List.length_eq_zero_iff.mp (Nat.le_zero.mp enough)).symm
  | succ fuel induction =>
      rw [splitBlocks]
      split
      next empty => exact empty.symm
      next nonempty =>
        have shorter : (content.drop bufferSize).length ≤ fuel := by
          have length := List.length_pos_iff.mpr nonempty
          rw [List.length_drop, bufferSize]
          omega
        rw [List.flatten_cons, induction shorter, List.take_append_drop]

theorem splitBlocks_ne_nil (fuel : Nat) (content : List Byte) :
    ∀ block ∈ splitBlocks fuel content, block ≠ [] := by
  induction fuel generalizing content with
  | zero =>
      intro block member
      cases member
  | succ fuel induction =>
      rw [splitBlocks]
      split
      next =>
        intro block member
        cases member
      next nonempty =>
        intro block member
        rcases List.mem_cons.mp member with same | later
        · rw [same]
          exact block_ne_nil nonempty
        · exact induction _ block later

theorem splitBlocks_nil (fuel : Nat) : splitBlocks fuel [] = [] := by
  cases fuel with
  | zero => rfl
  | succ fuel => rw [splitBlocks, if_pos rfl]

theorem fileBlocks_single (nonempty : content ≠ [])
    (small : content.length ≤ bufferSize) : fileBlocks content = [content] := by
  rw [fileBlocks]
  cases length : content.length with
  | zero => exact absurd (List.length_eq_zero_iff.mp length) nonempty
  | succ rest =>
      rw [splitBlocks, if_neg nonempty, List.take_of_length_le small,
        List.drop_eq_nil_of_le small, splitBlocks_nil]

include positive

variable {block : List Byte}

theorem blockEnds_boundaries (nonempty : block ≠ []) :
    chunker.Boundaries (Buffer.ofList block 0) block.length (-1) (blockEnds chunker block) :=
  Chunker.varSizeChunking_boundaries positive (List.length_pos_iff.mpr nonempty)

theorem blockChunks_flatten (nonempty : block ≠ []) :
    (blockChunks chunker block).flatten = block := by
  have length := List.length_pos_iff.mpr nonempty
  have size : ((block.length : Int) - 1 - -1).toNat = block.length := by omega
  rw [blockChunks, cutAt_flatten positive (blockEnds_boundaries positive nonempty) (le_refl _)
    (by omega), size]
  exact (Buffer.slice_getD block 0 (le_refl _)).trans List.take_length

theorem blockChunks_sizes (nonempty : block ≠ []) :
    ∀ chunk ∈ blockChunks chunker block,
      1 ≤ chunk.length ∧ chunk.length ≤ chunker.maxChunkSize := by
  have length := List.length_pos_iff.mpr nonempty
  exact cutAt_sizes positive (blockEnds_boundaries positive nonempty) (by omega)

theorem blockChunks_flatMap_flatten {blocks : List (List Byte)}
    (nonempty : ∀ block ∈ blocks, block ≠ []) :
    (blocks.flatMap (blockChunks chunker)).flatten = blocks.flatten := by
  induction blocks with
  | nil => rfl
  | cons block blocks induction =>
      rcases List.forall_mem_cons.mp nonempty with ⟨first, rest⟩
      rw [List.flatMap_cons, List.flatten_append, induction rest,
        blockChunks_flatten positive first, List.flatten_cons]

theorem fileChunks_flatten (content : List Byte) :
    (fileChunks chunker content).flatten = content := by
  rw [fileChunks, fileBlocks,
    blockChunks_flatMap_flatten positive (splitBlocks_ne_nil _ _)]
  exact splitBlocks_flatten (le_refl _)

private theorem fileChunks_sizes (content : List Byte) :
    ∀ chunk ∈ fileChunks chunker content,
      1 ≤ chunk.length ∧ chunk.length ≤ chunker.maxChunkSize := by
  intro chunk member
  rcases List.mem_flatMap.mp member with ⟨block, listed, cut⟩
  exact blockChunks_sizes positive (splitBlocks_ne_nil _ _ block listed) chunk cut

/-! ## The loops -/

variable {total size overall totalChunks : Nat}

omit positive in
private theorem emitChunks_eq {buffer : Buffer Byte} {ret numOfChunks before : Nat}
    (marks : ∀ count < numOfChunks,
      (total + ret = size ∧ count + 1 = numOfChunks) ↔ before + count + 1 = overall)
    {count : Nat} {preEnd : Int} {ends : List Int} (left : count + ends.length = numOfChunks) :
    emitChunks buffer total ret size numOfChunks count (before + count) preEnd ends =
      numberChunks overall (before + count) (cutAt buffer preEnd ends) := by
  induction ends generalizing count preEnd with
  | nil => rfl
  | cons next ends induction =>
      rw [List.length_cons] at left
      have mark := marks count (by omega)
      rw [emitChunks, cutAt, numberChunks, decide_eq_decide.mpr mark]
      exact congrArg _ (induction (by omega))

omit positive in
private theorem numberChunks_append (overall index : Nat) (first second : List (List Byte)) :
    numberChunks overall index (first ++ second) =
      numberChunks overall index first ++
        numberChunks overall (index + first.length) second := by
  induction first generalizing index with
  | nil => rfl
  | cons chunk first induction =>
      rw [List.cons_append, numberChunks, induction, numberChunks, List.length_cons,
        List.cons_append, Nat.add_assoc, Nat.add_comm 1]

private theorem splitBlocks_chunks_pos (enough : content.length ≤ fuel) (nonempty : content ≠ []) :
    0 < ((splitBlocks fuel content).flatMap (blockChunks chunker)).length := by
  rw [List.length_pos_iff]
  intro empty
  have whole := blockChunks_flatMap_flatten positive (splitBlocks_ne_nil fuel content)
  rw [empty, splitBlocks_flatten enough] at whole
  exact nonempty whole.symm

private theorem chunking_of_read (buffer : Buffer Byte) (nonempty : block ≠ []) :
    chunker.varSizeChunking (buffer.write 0 block) block.length = blockEnds chunker block ∧
      cutAt (buffer.write 0 block) (-1) (blockEnds chunker block) =
        blockChunks chunker block := by
  have agree : ∀ position < block.length,
      Buffer.ofList block 0 position = buffer.write 0 block position := by
    intro position inside
    have written := Buffer.write_inside buffer 0 inside
    rw [Nat.zero_add] at written
    rw [written, Buffer.ofList, List.getD_eq_getElem?_getD, List.getElem?_eq_getElem inside,
      Option.getD_some]
  have boundaries := blockEnds_boundaries positive nonempty
  refine ⟨?_, (cutAt_congr positive agree boundaries (le_refl _)).symm⟩
  exact (Chunker.varSizeChunking_congr positive agree (List.length_pos_iff.mpr nonempty)).symm

/-- A chunk of a block is the last one of the file exactly if it is the last one of the
block and the block reaches the end of the file. -/
theorem block_mark_iff {count : Nat}
    (left : total + fin.length = size) (enough : (fin.drop bufferSize).length ≤ fuel)
    (counted : totalChunks + ((blockEnds chunker (fin.take bufferSize)).length +
      ((splitBlocks fuel (fin.drop bufferSize)).flatMap (blockChunks chunker)).length) = overall)
    (inside : count < (blockEnds chunker (fin.take bufferSize)).length) :
    (total + (fin.take bufferSize).length = size ∧
        count + 1 = (blockEnds chunker (fin.take bufferSize)).length) ↔
      totalChunks + count + 1 = overall := by
  have parts := block_length fin
  by_cases last : fin.drop bufferSize = []
  · rw [last, List.length_nil] at parts
    rw [last, splitBlocks_nil, List.flatMap_nil, List.length_nil] at counted
    omega
  · have rest := @splitBlocks_chunks_pos _ positive fuel _ enough last
    have more := List.length_pos_iff.mpr last
    omega

private theorem readBlocks_eq {buffer : Buffer Byte} (left : total + fin.length = size)
    (enough : fin.length ≤ fuel)
    (counted : totalChunks +
      ((splitBlocks fuel fin).flatMap (blockChunks chunker)).length = overall) :
    readBlocks chunker size fuel buffer fin total totalChunks =
      numberChunks overall totalChunks
        ((splitBlocks fuel fin).flatMap (blockChunks chunker)) := by
  induction fuel generalizing buffer fin total totalChunks with
  | zero => rfl
  | succ fuel induction =>
      rw [readBlocks]
      split
      next more =>
        have nonempty : fin ≠ [] := by
          rintro rfl
          rw [List.length_nil] at left
          omega
        have block := block_ne_nil nonempty
        have parts := block_length fin
        have filled := List.length_pos_iff.mpr block
        rcases chunking_of_read positive buffer block with ⟨ends, chunks⟩
        have number : (blockEnds chunker (fin.take bufferSize)).length =
            (blockChunks chunker (fin.take bufferSize)).length := by
          rw [blockChunks, cutAt_length]
        rw [splitBlocks, if_neg nonempty, List.flatMap_cons] at counted ⊢
        rw [List.length_append, ← number] at counted
        rw [numberChunks_append]
        simp only [ends]
        congr 1
        · rw [← chunks]
          exact emitChunks_eq (fun _ inside =>
            block_mark_iff positive left (by omega) counted inside) (Nat.zero_add _)
        · rw [number]
          exact induction (by omega) (by omega) (by omega)
      next done =>
        have empty : fin = [] := List.length_eq_zero_iff.mp (by omega)
        rw [splitBlocks, if_pos empty]
        rfl

theorem emission_eq (buffer : Buffer Byte) (content : List Byte) :
    emission chunker buffer content =
      numberChunks (fileChunks chunker content).length 0 (fileChunks chunker content) :=
  readBlocks_eq positive (Nat.zero_add _) (le_refl _) (Nat.zero_add _)

end File

/-! ## The default chunker -/

theorem default_min_pos : 0 < Chunker.defaultChunker.minChunkSize := by decide

theorem emission_bounded (buffer : Buffer Byte) (content : List Byte) :
    ∀ secret ∈ emission Chunker.defaultChunker buffer content, secret.data.length ≤ secretSize := by
  intro secret member
  rw [emission_eq default_min_pos] at member
  have chunk := List.mem_map_of_mem (f := EmittedSecret.data) member
  rw [numberChunks_data] at chunk
  exact (fileChunks_sizes default_min_pos content _ chunk).2

theorem fileChunks_ne_nil {content : List Byte} (nonempty : content ≠ []) :
    fileChunks Chunker.defaultChunker content ≠ [] := by
  intro empty
  have whole := fileChunks_flatten default_min_pos content
  rw [empty] at whole
  exact nonempty whole.symm

end MetaDedup.UploadLoop
