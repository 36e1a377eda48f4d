import Mathlib.Algebra.BigOperators.Fin
import Mathlib.Data.Matrix.Mul
import MetaDedup.Client.GaloisField
import MetaDedup.Foundation.Buffer

/-! # Region arithmetic

The codec combines whole blocks of bytes at a time through the
`multiply_region` function of its `gf_t` object. The two loops over it, which
the source writes out in every encoder and decoder, compute a matrix product in
each byte column. -/

namespace MetaDedup.RegionArithmetic

open Foundation

variable {gf : GaloisField} {k : Nat}

/-- `multiply_region`: multiply `size` bytes of `source` by `coef` and store the
products at `destination + offset`, or XOR them into it. -/
def multiplyRegion (source destination : Buffer Byte) (offset : Nat)
    (coef : gf.Element) (size : Nat) (add : Bool) : Buffer Byte :=
  destination.copy offset
    (fun position =>
      if add then
        destination (offset + position) ^^^ gf.multiply coef.byte (source position)
      else gf.multiply coef.byte (source position))
    size

/-- The loop over `j` that stores at `destination + offset` the combination of
`k` blocks of `source` with the coefficients of one matrix row. -/
def combineBlocks (coefficients : Fin k → gf.Element) (source : Buffer Byte)
    (blockSize : Nat) (destination : Buffer Byte) (offset : Nat) : Buffer Byte :=
  (List.finRange k).foldl
    (fun destination j =>
      multiplyRegion (source.advance (blockSize * j.val)) destination offset
        (coefficients j) blockSize (decide (j.val ≠ 0)))
    destination

/-- The loop over `i` and `j` that multiplies the rows of a matrix with `k`
blocks of `source`, from `destination + offset` on. -/
def multiplyBlocks (rows : Nat → Fin k → gf.Element) (count : Nat)
    (source : Buffer Byte) (blockSize : Nat) (destination : Buffer Byte)
    (offset : Nat) : Buffer Byte :=
  (List.range count).foldl
    (fun destination i =>
      combineBlocks (rows i) source blockSize destination (offset + blockSize * i))
    destination

def blockColumn (gf : GaloisField) (k : Nat) (buffer : Buffer Byte)
    (blockSize position : Nat) : Fin k → gf.Element :=
  fun j => ⟨buffer (blockSize * j.val + position)⟩

variable {size position : Nat}

theorem multiplyRegion_outside (source destination : Buffer Byte)
    {offset : Nat} (coef : gf.Element) (add : Bool)
    (outside : position < offset ∨ offset + size ≤ position) :
    multiplyRegion source destination offset coef size add position =
      destination position :=
  Buffer.copy_outside destination _ outside

theorem multiplyRegion_add (source destination : Buffer Byte) (offset : Nat)
    (coef : gf.Element) (inside : position < size) :
    multiplyRegion source destination offset coef size true (offset + position) =
      destination (offset + position) ^^^ gf.multiply coef.byte (source position) := by
  rw [multiplyRegion, Buffer.copy_inside _ _ _ inside, if_pos rfl]

private theorem multiplyRegion_store (source destination : Buffer Byte) (offset : Nat)
    (coef : gf.Element) (inside : position < size) :
    multiplyRegion source destination offset coef size false (offset + position) =
      gf.multiply coef.byte (source position) := by
  rw [multiplyRegion, Buffer.copy_inside _ _ _ inside]
  rfl

theorem multiplyRegion_one (source destination : Buffer Byte) (offset size position : Nat) :
    multiplyRegion source destination offset (1 : gf.Element) size true position =
      if offset ≤ position ∧ position < offset + size then
        destination position ^^^ source (position - offset)
      else destination position := by
  by_cases inside : offset ≤ position ∧ position < offset + size
  · rw [if_pos inside]
    have split : position = offset + (position - offset) := by omega
    rw [split, multiplyRegion_add _ _ _ _ (by omega), GaloisField.Element.one_byte,
      gf.one_multiply, Nat.add_sub_cancel_left]
  · rw [if_neg inside, multiplyRegion_outside _ _ _ _ (by omega)]

private theorem foldl_multiplyRegion_add (columns : List (Fin k))
    (coefficients : Fin k → gf.Element) (sources : Fin k → Buffer Byte)
    (destination : Buffer Byte) (offset : Nat) (inside : position < size) :
    columns.foldl (fun destination j =>
      multiplyRegion (sources j) destination offset (coefficients j) size true)
      destination (offset + position) =
    ((⟨destination (offset + position)⟩ : gf.Element) +
      (columns.map fun j => coefficients j * ⟨sources j position⟩).sum).byte := by
  induction columns generalizing destination with
  | nil => simp
  | cons j rest induction =>
      rw [List.foldl_cons, induction, multiplyRegion_add _ _ _ _ inside, List.map_cons,
        List.sum_cons, ← add_assoc]
      rfl

variable {blockSize : Nat}

private theorem combineBlocks_outside (coefficients : Fin k → gf.Element)
    (source : Buffer Byte) (destination : Buffer Byte) {offset : Nat}
    (outside : position < offset ∨ offset + blockSize ≤ position) :
    combineBlocks coefficients source blockSize destination offset position =
      destination position := by
  unfold combineBlocks
  generalize List.finRange k = columns
  induction columns generalizing destination with
  | nil => rfl
  | cons j rest induction =>
      rw [List.foldl_cons, induction, multiplyRegion_outside _ _ _ _ outside]

/-- One row of the product: the first block overwrites the destination, the
others are added to it. -/
theorem combineBlocks_inside (positive : 0 < k) (coefficients : Fin k → gf.Element)
    (source : Buffer Byte) (destination : Buffer Byte)
    (offset : Nat) (inside : position < blockSize) :
    combineBlocks coefficients source blockSize destination offset
      (offset + position) =
      (coefficients ⬝ᵥ blockColumn gf k source blockSize position).byte := by
  cases k with
  | zero => exact absurd positive (lt_irrefl 0)
  | succ k =>
      rw [combineBlocks, List.finRange_succ, List.foldl_cons, List.foldl_map]
      simp only [Fin.val_succ, ne_eq, Nat.add_eq_zero_iff, one_ne_zero, and_false,
        not_false_eq_true, decide_true, Fin.val_zero, not_true_eq_false, decide_false]
      have accumulated := foldl_multiplyRegion_add (List.finRange k)
        (fun j => coefficients j.succ)
        (fun j => source.advance (blockSize * (j.val + 1)))
        (multiplyRegion (source.advance (blockSize * 0)) destination offset
          (coefficients 0) blockSize false) offset inside
      rw [accumulated, multiplyRegion_store _ _ _ _ inside, dotProduct,
        Fin.sum_univ_succ, ← List.sum_ofFn, List.ofFn_eq_map]
      rfl

theorem multiplyBlocks_apply (positive : 0 < k) (rows : Nat → Fin k → gf.Element)
    (count : Nat) (source : Buffer Byte) (blockSize : Nat)
    (destination : Buffer Byte) (offset position : Nat) :
    multiplyBlocks rows count source blockSize destination offset position =
      if offset ≤ position ∧ position < offset + blockSize * count then
        (rows ((position - offset) / blockSize) ⬝ᵥ
          blockColumn gf k source blockSize ((position - offset) % blockSize)).byte
      else destination position := by
  apply Buffer.foldl_blocks _ _ offset blockSize count
  intro buffer i _ position
  split
  · rename_i inside
    have within : position - (offset + blockSize * i) < blockSize := by omega
    have split : position - offset =
        position - (offset + blockSize * i) + blockSize * i := by omega
    have whole : position =
        offset + blockSize * i + (position - (offset + blockSize * i)) := by omega
    rw [split, Nat.add_mul_mod_self_left, Nat.mod_eq_of_lt within,
      Nat.add_mul_div_left _ _ (by omega), Nat.div_eq_of_lt within, Nat.zero_add]
    conv_lhs => rw [whole]
    exact combineBlocks_inside positive _ _ _ _ within
  · rename_i outside
    exact combineBlocks_outside _ _ _ (by omega)

theorem multiplyBlocks_block (positive : 0 < k) (rows : Nat → Fin k → gf.Element)
    {count : Nat} (source : Buffer Byte)
    (destination : Buffer Byte) (offset : Nat) {i : Nat}
    (row : i < count) (inside : position < blockSize) :
    multiplyBlocks rows count source blockSize destination offset
      (offset + (blockSize * i + position)) =
      (rows i ⬝ᵥ blockColumn gf k source blockSize position).byte := by
  have fits : blockSize * i + position < blockSize * count :=
    Layout.block_lt row inside
  rw [multiplyBlocks_apply positive, if_pos (by omega), Nat.add_sub_cancel_left,
    Nat.mul_add_mod, Nat.mod_eq_of_lt inside, Nat.mul_add_div (by omega),
    Nat.div_eq_of_lt inside, Nat.add_zero]

end MetaDedup.RegionArithmetic
