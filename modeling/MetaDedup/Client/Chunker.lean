import MetaDedup.Client.GaloisField
import MetaDedup.Foundation.Buffer
import MetaDedup.Foundation.RollingHash

/-! # The chunker

A variable-size `Chunker` ends a chunk where the fingerprint of a sliding window has
its low bits zero. The fingerprint is a polynomial modulo a power of two, computed in
`uint32_t` words with two lookup tables. Indices are integers of any size: the sums of
an index and a chunk size are taken to fit into an `int`. -/

namespace MetaDedup

open Foundation

/-- The parameters of a variable-size chunker. The constructor exits unless the average
is between the two bounds, and uses the entry of `powerLUT_` for the oldest byte of the
window. -/
structure Chunker where
  avgChunkSize : Nat
  minChunkSize : Nat
  maxChunkSize : Nat
  slidingWinSize : Nat
  min_lt_avg : minChunkSize < avgChunkSize
  avg_lt_max : avgChunkSize < maxChunkSize
  window_pos : 0 < slidingWinSize

namespace Chunker

/-! ## The constructor -/

def polyBase : BitVec 32 := 257

def fingerprintBits : Nat := 23

def polyMOD : BitVec 32 := 1 <<< fingerprintBits

def powerLUT : Nat → BitVec 32
  | 0 => 1
  | index + 1 => (powerLUT index * polyBase) &&& (polyMOD - 1)

/-- The loop that counts the bits of the mask. -/
def countMaskBits (avgChunkSize : Nat) : (fuel numOfMaskBits : Nat) → Nat
  | 0, numOfMaskBits => numOfMaskBits
  | fuel + 1, numOfMaskBits =>
      if avgChunkSize >>> numOfMaskBits ≠ 1 then
        countMaskBits avgChunkSize fuel (numOfMaskBits + 1)
      else numOfMaskBits

def anchorValue : BitVec 32 := 0

variable (chunker : Chunker)

def removeLUT (byte : Byte) : BitVec 32 :=
  let product := (byte.setWidth 32 * powerLUT (chunker.slidingWinSize - 1)) &&&
    (polyMOD - 1)
  if product ≠ 0 then polyMOD - product else product

def anchorMask : BitVec 32 :=
  (1 <<< countMaskBits chunker.avgChunkSize chunker.avgChunkSize 1) - 1

/-! ## Fingerprints -/

variable (buffer : Buffer Byte)

def byteAt (index : Int) : BitVec 32 := (buffer index.toNat).setWidth 32

def firstFingerprint (chunkEndIndex : Int) : BitVec 32 :=
  (List.range chunker.slidingWinSize).foldl
    (fun winFp (index : Nat) =>
      winFp + ((byteAt buffer (chunkEndIndex - index) * powerLUT index) &&& (polyMOD - 1)))
    0 &&& (polyMOD - 1)

def rollFingerprint (chunkEndIndex : Int) (winFp : BitVec 32) : BitVec 32 :=
  ((winFp + chunker.removeLUT (buffer (chunkEndIndex - chunker.slidingWinSize).toNat)) *
    polyBase + byteAt buffer chunkEndIndex) &&& (polyMOD - 1)

/-! ## Chunking -/

def slide (chunkEndIndexLimit : Int) : (fuel : Nat) → Int → BitVec 32 → Int
  | 0, chunkEndIndex, _ => chunkEndIndex
  | fuel + 1, chunkEndIndex, winFp =>
      if winFp &&& chunker.anchorMask ≠ anchorValue ∧ chunkEndIndex < chunkEndIndexLimit then
        slide chunkEndIndexLimit fuel (chunkEndIndex + 1)
          (chunker.rollFingerprint buffer (chunkEndIndex + 1) winFp)
      else chunkEndIndex

def chunkEnd (chunkEndIndexLimit chunkEndIndex : Int) : Int :=
  chunker.slide buffer chunkEndIndexLimit (chunkEndIndexLimit - chunkEndIndex).toNat
    chunkEndIndex (chunker.firstFingerprint buffer chunkEndIndex)

def divide (bufferSize : Nat) : (fuel : Nat) → Int → Int → List Int
  | 0, _, _ => []
  | fuel + 1, chunkEndIndex, chunkEndIndexLimit =>
      if chunkEndIndex < bufferSize then
        let limit : Int := if chunkEndIndexLimit ≥ bufferSize then bufferSize - 1
          else chunkEndIndexLimit
        let chunkEndIndex := chunker.chunkEnd buffer limit chunkEndIndex
        chunkEndIndex :: divide bufferSize fuel (chunkEndIndex + chunker.minChunkSize)
          (chunkEndIndex + chunker.maxChunkSize)
      else []

def addTail (bufferSize : Nat) (chunkEndIndexList : List Int) : List Int :=
  if chunkEndIndexList.getLast? = some (bufferSize - 1 : Int) then chunkEndIndexList
  else chunkEndIndexList ++ [(bufferSize - 1 : Int)]

/-- Divide a buffer into chunks; the result are the indices of their last bytes. Every
chunk has a byte, so the loop makes at most `bufferSize` passes. -/
def varSizeChunking (bufferSize : Nat) : List Int :=
  addTail bufferSize (chunker.divide buffer bufferSize bufferSize
    (-1 + chunker.minChunkSize) (-1 + chunker.maxChunkSize))

/-- The chunker of the client: 8 KiB on average, 2 KiB at least, 16 KiB at most, and a
window of 48 bytes. -/
def defaultChunker : Chunker where
  avgChunkSize := 8 <<< 10
  minChunkSize := 2 <<< 10
  maxChunkSize := 16 <<< 10
  slidingWinSize := 48
  min_lt_avg := by decide
  avg_lt_max := by decide
  window_pos := by decide

def sampleChunker : Chunker where
  avgChunkSize := 4
  minChunkSize := 2
  maxChunkSize := 6
  slidingWinSize := 2
  min_lt_avg := by decide
  avg_lt_max := by decide
  window_pos := by decide

def sampleBytes : Buffer Byte := fun index => BitVec.ofNat 8 (index * index * index + index / 3)

example : sampleChunker.varSizeChunking sampleBytes 20 = [3, 6, 12, 15, 18, 19] := by decide

/-! ## Fingerprints are window hashes -/

variable {winFp : BitVec 32} {last : Nat}

/-- The hash of the window that ends at an index: the sum of its bytes, each multiplied
with the power of the base for its place, modulo the power of two. -/
def windowHash (last : Nat) : Nat :=
  (∑ index ∈ Finset.range chunker.slidingWinSize,
    (buffer (last - index)).toNat * 257 ^ index) % 2 ^ fingerprintBits

def residues (index : Nat) : ZMod (2 ^ fingerprintBits) := (buffer index).toNat

private theorem polyMOD_toNat : polyMOD.toNat = 2 ^ fingerprintBits := rfl

theorem mask_toNat : (polyMOD - 1).toNat = 2 ^ fingerprintBits - 1 := rfl

theorem fingerprintBits_le : fingerprintBits ≤ 32 := by decide

theorem residue_polyBase : RollingHash.residue fingerprintBits polyBase = 257 := rfl

theorem residue_byte (byte : Byte) :
    RollingHash.residue fingerprintBits (byte.setWidth 32) = (byte.toNat : ZMod _) := by
  rw [RollingHash.residue, BitVec.toNat_setWidth_of_le (by decide)]

theorem toNat_eq_windowHash (small : winFp.toNat < 2 ^ fingerprintBits)
    (same : RollingHash.residue fingerprintBits winFp =
      RollingHash.window 257 (residues buffer) chunker.slidingWinSize last) :
    winFp.toNat = chunker.windowHash buffer last := by
  apply RollingHash.toNat_eq_of_residue small
  rw [same, RollingHash.window, Nat.cast_sum]
  apply Finset.sum_congr rfl
  intro index _
  rw [Nat.cast_mul, Nat.cast_pow, residues]
  rfl

private theorem residue_of_windowHash (same : winFp.toNat = chunker.windowHash buffer last) :
    RollingHash.residue fingerprintBits winFp =
      RollingHash.window 257 (residues buffer) chunker.slidingWinSize last := by
  rw [RollingHash.residue, same, windowHash, ZMod.natCast_mod, Nat.cast_sum,
    RollingHash.window]
  apply Finset.sum_congr rfl
  intro index _
  rw [Nat.cast_mul, Nat.cast_pow, residues]
  rfl

theorem masked_lt (word : BitVec 32) :
    (word &&& (polyMOD - 1)).toNat < 2 ^ fingerprintBits := by
  rw [RollingHash.toNat_and_mask mask_toNat]
  exact Nat.mod_lt _ (Nat.two_pow_pos _)

theorem residue_powerLUT (index : Nat) :
    RollingHash.residue fingerprintBits (powerLUT index) = 257 ^ index := by
  induction index with
  | zero => rfl
  | succ index induction =>
      rw [powerLUT, RollingHash.residue_and_mask mask_toNat,
        RollingHash.residue_mul fingerprintBits_le, induction, residue_polyBase, pow_succ]

private theorem residue_removeLUT (byte : Byte) :
    RollingHash.residue fingerprintBits (chunker.removeLUT byte) =
      -((byte.toNat : ZMod _) * 257 ^ (chunker.slidingWinSize - 1)) := by
  have product : RollingHash.residue fingerprintBits
      ((byte.setWidth 32 * powerLUT (chunker.slidingWinSize - 1)) &&& (polyMOD - 1)) =
      (byte.toNat : ZMod _) * 257 ^ (chunker.slidingWinSize - 1) := by
    rw [RollingHash.residue_and_mask mask_toNat, RollingHash.residue_mul fingerprintBits_le,
      residue_byte, residue_powerLUT]
  rw [removeLUT, ← product]
  split
  · exact RollingHash.residue_modulus_sub polyMOD_toNat (masked_lt _).le
  next zero =>
    rw [Decidable.not_not.mp zero, RollingHash.residue]
    simp

private theorem residue_sum (size : Nat) :
    RollingHash.residue fingerprintBits ((List.range size).foldl
      (fun winFp (index : Nat) =>
        winFp + ((byteAt buffer ((last : Int) - index) * powerLUT index) &&& (polyMOD - 1)))
      0) = RollingHash.window 257 (residues buffer) size last := by
  induction size with
  | zero => rfl
  | succ size induction =>
      have place : ((last : Int) - size).toNat = last - size := by omega
      rw [List.range_succ, List.foldl_append, List.foldl_cons, List.foldl_nil,
        RollingHash.residue_add fingerprintBits_le, induction,
        RollingHash.residue_and_mask mask_toNat, RollingHash.residue_mul fingerprintBits_le,
        residue_powerLUT, byteAt, residue_byte, place, RollingHash.window_succ, residues]

theorem firstFingerprint_toNat (last : Nat) :
    (chunker.firstFingerprint buffer last).toNat = chunker.windowHash buffer last := by
  rw [firstFingerprint]
  apply toNat_eq_windowHash _ _ (masked_lt _)
  rw [RollingHash.residue_and_mask mask_toNat, residue_sum]

/-- Rolling the fingerprint of a window gives the hash of the next one, although the
product may overflow. -/
theorem rollFingerprint_toNat (current : winFp.toNat = chunker.windowHash buffer last) :
    (chunker.rollFingerprint buffer (last + 1) winFp).toNat =
      chunker.windowHash buffer (last + 1) := by
  have size : chunker.slidingWinSize = chunker.slidingWinSize - 1 + 1 := by
    have positive := chunker.window_pos
    omega
  have oldest : ((last : Int) + 1 - chunker.slidingWinSize).toNat =
      last - (chunker.slidingWinSize - 1) := by omega
  have newest : ((last : Int) + 1).toNat = last + 1 := by omega
  have hash := chunker.residue_of_windowHash buffer current
  rw [rollFingerprint]
  apply toNat_eq_windowHash _ _ (masked_lt _)
  rw [RollingHash.residue_and_mask mask_toNat,
    RollingHash.residue_add fingerprintBits_le, RollingHash.residue_mul fingerprintBits_le,
    RollingHash.residue_add fingerprintBits_le, residue_removeLUT, residue_polyBase, byteAt,
    residue_byte, hash, oldest, newest, ← sub_eq_add_neg, size]
  exact (RollingHash.window_roll _ _ _ _).symm

end Chunker

end MetaDedup
