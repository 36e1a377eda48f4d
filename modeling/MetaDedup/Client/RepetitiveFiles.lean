import MetaDedup.Client.UploadQueues

/-! # Files of zeros

In a file of zeros the hash of every window is zero, so that every chunk is as small as a
chunk may be. All chunks are alike, and so are their shares. -/

namespace MetaDedup.UploadLoop

open Foundation Encoder
open Chunker (defaultChunker)

/-! ## The chunks -/

section Chunks

variable {chunker : Chunker}

def zeroBuffer : Buffer Byte := fun _ => 0

private theorem anchor_zero (index : Int) : chunker.Anchor zeroBuffer index := by
  have hash : chunker.windowHash zeroBuffer index.toNat = 0 := by
    rw [Chunker.windowHash, Finset.sum_eq_zero, Nat.zero_mod]
    intro position _
    exact Nat.zero_mul _
  rw [Chunker.Anchor, hash, Nat.zero_and]

private theorem slice_zero (offset length : Nat) :
    zeroBuffer.slice offset length = List.replicate length 0 := by
  rw [Buffer.slice, List.eq_replicate_iff]
  refine ⟨by rw [List.length_map, List.length_range], ?_⟩
  intro byte member
  rcases List.mem_map.mp member with ⟨position, _, same⟩
  exact same.symm

variable {count : Nat}

private theorem zero_boundaries (positive : 0 < chunker.minChunkSize) {size : Nat}
    {previous : Int} (left : (size : Int) = previous + 1 + count * chunker.minChunkSize) :
    ∃ ends, chunker.Boundaries zeroBuffer size previous ends ∧
      cutAt zeroBuffer previous ends =
        List.replicate count (List.replicate chunker.minChunkSize 0) := by
  induction count generalizing previous with
  | zero =>
      rw [Nat.cast_zero, Int.zero_mul] at left
      exact ⟨[], .complete (by omega) (by omega), rfl⟩
  | succ count induction =>
      have order := chunker.min_lt_avg.trans chunker.avg_lt_max
      rw [Nat.cast_succ, Int.add_mul, Int.one_mul] at left
      have product : 0 ≤ (count : Int) * chunker.minChunkSize := by positivity
      rcases @induction (previous + chunker.minChunkSize) (by omega) with ⟨ends, rest, cut⟩
      refine ⟨(previous + chunker.minChunkSize) :: ends, .next (by omega) ⟨?_, ?_, ?_, ?_⟩ rest, ?_⟩
      · exact le_refl _
      · rw [Chunker.upperLimit]
        omega
      · intro earlier after before
        omega
      · exact .inl (anchor_zero _)
      · have length : (previous + chunker.minChunkSize - previous).toNat =
            chunker.minChunkSize := by omega
        rw [cutAt, cut, slice_zero, length, List.replicate_succ]

private theorem ofList_replicate_zero (size : Nat) :
    Buffer.ofList (List.replicate size (0 : Byte)) 0 = zeroBuffer := by
  funext position
  rw [Buffer.ofList, List.getD_eq_getElem?_getD, List.getElem?_replicate]
  split <;> rfl

private theorem blockChunks_zero (positive : 0 < chunker.minChunkSize) (nonempty : 0 < count) :
    blockChunks chunker (List.replicate (count * chunker.minChunkSize) 0) =
      List.replicate count (List.replicate chunker.minChunkSize 0) := by
  have size : ((count * chunker.minChunkSize : Nat) : Int) =
      -1 + 1 + count * chunker.minChunkSize := by
    rw [Nat.cast_mul]
    omega
  rcases zero_boundaries positive size with ⟨ends, boundaries, cut⟩
  have found : chunker.Boundaries zeroBuffer (count * chunker.minChunkSize) (-1) _ :=
    Chunker.varSizeChunking_boundaries positive (Nat.mul_pos nonempty positive)
  rw [blockChunks, blockEnds, ofList_replicate_zero, List.length_replicate,
    found.unique boundaries, cut]

theorem fileChunks_zero (positive : 0 < chunker.minChunkSize)
    (nonempty : 0 < count) (small : count * chunker.minChunkSize ≤ bufferSize) :
    fileChunks chunker (List.replicate (count * chunker.minChunkSize) 0) =
      List.replicate count (List.replicate chunker.minChunkSize 0) := by
  have filled : List.replicate (count * chunker.minChunkSize) (0 : Byte) ≠ [] := by
    rw [Ne, List.replicate_eq_nil_iff]
    exact (Nat.mul_pos nonempty positive).ne'
  have fits : (List.replicate (count * chunker.minChunkSize) (0 : Byte)).length ≤
      bufferSize := by
    rwa [List.length_replicate]
  rw [fileChunks, fileBlocks_single filled fits, List.flatMap_singleton,
    blockChunks_zero positive nonempty]

end Chunks

/-- A file of as many of the smallest chunks. -/
def zeroFile (count : Nat) : List Byte :=
  List.replicate (count * defaultChunker.minChunkSize) 0

theorem zeroFile_ne_nil {count : Nat} (nonempty : 0 < count) : zeroFile count ≠ [] := by
  rw [zeroFile, Ne, List.replicate_eq_nil_iff]
  exact (Nat.mul_pos nonempty default_min_pos).ne'

end MetaDedup.UploadLoop

namespace MetaDedup.Encoder

open Foundation Wire
open Server (Fingerprint)
open UploadLoop (MarksLast emission zeroFile bufferSize)
open Chunker (defaultChunker)

/-! ## The shares -/

variable {secrets : List Secret} {chunks : List ShareChunk}

variable {openssl : OpenSSL} {securetype : SecureType} {gf : GaloisField}
variable {codec : CDCodec gf (openssl.cryptoPrimitive securetype.cryptoType)} {cloud : Nat}

/-- The shares of a file of zeros for one cloud: there are `count`, they are small, and
the last one is marked. -/
structure ZeroShares (count : Nat) (items : List (DataShare × StackMemory)) : Prop where
  length : items.length = count
  small : ∀ item ∈ items,
    item.1.node.shareSize.toNat ≤ defaultChunker.minChunkSize + 64
  marks : MarksLast (items.map fun item => item.1.isEnd)

theorem zeroShares_of_encoded (caontRS : codec.type = .caontRS) {buffer : Buffer Byte}
    {count : Nat} (nonempty : 0 < count)
    (read : count * defaultChunker.minChunkSize ≤ bufferSize)
    (added : secrets.map Secret.emitted = emission defaultChunker buffer (zeroFile count))
    (encoded : List.Forall₂ (EncodedAs codec) secrets chunks)
    (memory : Nat → CollectMemory codec) :
    ZeroShares count (dataShares cloud (withMemory memory chunks)) := by
  have data := emitted_data added
  rw [zeroFile, UploadLoop.fileChunks_zero UploadLoop.default_min_pos nonempty read] at data
  refine ⟨?_, ?_, ?_⟩
  · have number := congrArg List.length data
    rw [List.length_map, List.length_replicate] at number
    rw [dataShares, List.length_map, ← List.length_map (f := Prod.fst), withMemory_fst,
      ← encoded.length_eq, number]
  · intro item member
    rcases dataShare_shareSize caontRS encoded cloud memory item member with
      ⟨secret, listed, chunk, encodedAs, size⟩
    rcases encodedAs.shareSize with ⟨encodeMemory, shareSize⟩
    have bound := (encode_size_le caontRS encodeMemory secret.bounded).2
    have zeros : secret.data.length = defaultChunker.minChunkSize := by
      have found : secret.data ∈ secrets.map Secret.data := List.mem_map_of_mem listed
      rw [data] at found
      rw [List.eq_of_mem_replicate found, List.length_replicate]
    rw [size, shareSize]
    omega
  · rw [dataShares_isEnd, isEnd_of_encodes encoded]
    exact emitted_marks (UploadLoop.zeroFile_ne_nil nonempty) added

theorem ZeroShares.exists_last {count : Nat} {items : List (DataShare × StackMemory)}
    (zeros : ZeroShares (count + 1) items) :
    ∃ before last, items = before ++ [last] ∧ before.length = count ∧
      ∀ item ∈ before, item.1.isEnd = false := by
  rcases zeros.marks with ⟨earlier, flags⟩
  rcases List.map_eq_append_iff.mp flags with ⟨before, rest, split, unmarked, marked⟩
  rcases List.map_eq_singleton_iff.mp marked with ⟨last, single, _⟩
  have length := zeros.length
  rw [split, single, List.length_append, List.length_singleton] at length
  refine ⟨before, last, by rw [split, single], by omega, ?_⟩
  intro item member
  have flag : item.1.isEnd ∈ before.map fun item => item.1.isEnd := List.mem_map_of_mem member
  rw [unmarked] at flag
  exact List.eq_of_mem_replicate flag

/-- Where all fingerprints have the same beginning, all shares match the pattern or none
does. -/
theorem dataShares_matchesPattern {matched : Bool} (listed : cloud < codec.n)
    (equal : ∀ data (shareFP : Fingerprint), shareFP.bytes.take intSize =
      ((openssl.cryptoPrimitive securetype.cryptoType).digest data).slice 0 intSize →
      matchesPattern shareFP = matched)
    (encoded : List.Forall₂ (EncodedAs codec) secrets chunks)
    (memory : Nat → CollectMemory codec) :
    ∀ item ∈ dataShares cloud (withMemory memory chunks),
      matchesPattern item.1.node.shareFP = matched := by
  have written : intSize ≤ (openssl.cryptoPrimitive securetype.cryptoType).hashSize :=
    Nat.le_trans (by decide) (hashSize_bounds openssl securetype).1
  intro item member
  rcases List.mem_map.mp member with ⟨⟨chunk, found⟩, chosen, same⟩
  rcases encodedAs_of_mem encoded (mem_of_withMemory chosen) with ⟨secret, _, encodedAs⟩
  rw [← same]
  exact equal _ _ (shareObject_shareFP _ found.node encodedAs.holdsShares listed written
    (by decide))

/-- A client whose fingerprints all match the pattern. -/
def matchingOpenSSL : OpenSSL := { plainOpenSSL with sha256 := fun _ _ => 255 }

def matchingCodec := defaultCodec GaloisField.complete matchingOpenSSL .high

theorem matching_matched (data : List Byte) (shareFP : Fingerprint)
    (hashed : shareFP.bytes.take intSize =
      ((matchingOpenSSL.cryptoPrimitive SecureType.high.cryptoType).digest data).slice 0
        intSize) :
    matchesPattern shareFP = true := by
  have ones : shareFP.bytes.take intSize = List.replicate intSize 255 := hashed
  rw [matchesPattern, ones]
  decide

theorem plain_unmatched (data : List Byte) (shareFP : Fingerprint)
    (hashed : shareFP.bytes.take intSize =
      ((plainOpenSSL.cryptoPrimitive SecureType.high.cryptoType).digest data).slice 0 intSize) :
    matchesPattern shareFP = false := by
  have zeros : shareFP.bytes.take intSize = List.replicate intSize 0 := hashed
  rw [matchesPattern, zeros]
  decide

end MetaDedup.Encoder
