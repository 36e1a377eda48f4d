import Mathlib.Algebra.BigOperators.Ring.Finset
import Mathlib.Data.ZMod.Basic

/-! # Rolling hashes

The hash of a window of values is a polynomial in a base, the newest value being the
constant coefficient. Moving the window by one value multiplies the hash by the base,
once the part of the oldest value has been taken away. A program computes the hash in
machine words and keeps only their low bits, which is arithmetic modulo a power of two
as long as the words are wider. -/

namespace MetaDedup.Foundation

namespace RollingHash

/-! ## Windows -/

section Window

variable {R : Type u} [CommRing R] (base : R) (value : Nat → R)

/-- The polynomial of the `size` values up to the one at `last`. -/
def window (size last : Nat) : R :=
  ∑ index ∈ Finset.range size, value (last - index) * base ^ index

theorem window_succ (size last : Nat) :
    window base value (size + 1) last =
      window base value size last + value (last - size) * base ^ size :=
  Finset.sum_range_succ _ _

theorem window_newest (size last : Nat) :
    window base value (size + 1) (last + 1) =
      window base value size last * base + value (last + 1) := by
  have shifted : ∀ index, value (last + 1 - (index + 1)) * base ^ (index + 1) =
      value (last - index) * base ^ index * base := by
    intro index
    rw [Nat.add_sub_add_right, pow_succ, mul_assoc]
  rw [window, Finset.sum_range_succ', Finset.sum_congr rfl fun index _ => shifted index,
    ← Finset.sum_mul, Nat.sub_zero, pow_zero, mul_one, window]

theorem window_roll (size last : Nat) :
    window base value (size + 1) (last + 1) =
      (window base value (size + 1) last - value (last - size) * base ^ size) * base +
        value (last + 1) := by
  rw [window_newest, window_succ, add_sub_cancel_right]

end Window

/-! ## Low bits of words -/

section Residue

variable {width bits : Nat}

/-- The low bits of a word. -/
def residue (bits : Nat) (word : BitVec width) : ZMod (2 ^ bits) := word.toNat

theorem natCast_mod_width (narrow : bits ≤ width) (value : Nat) :
    ((value % 2 ^ width : Nat) : ZMod (2 ^ bits)) = value := by
  rw [ZMod.natCast_eq_natCast_iff]
  exact (Nat.mod_modEq value (2 ^ width)).of_dvd (pow_dvd_pow 2 narrow)

theorem residue_add (narrow : bits ≤ width) (left right : BitVec width) :
    residue bits (left + right) = residue bits left + residue bits right := by
  rw [residue, BitVec.toNat_add, natCast_mod_width narrow, Nat.cast_add, residue, residue]

theorem residue_mul (narrow : bits ≤ width) (left right : BitVec width) :
    residue bits (left * right) = residue bits left * residue bits right := by
  rw [residue, BitVec.toNat_mul, natCast_mod_width narrow, Nat.cast_mul, residue, residue]

theorem toNat_and_mask {mask : BitVec width} (low : mask.toNat = 2 ^ bits - 1)
    (word : BitVec width) : (word &&& mask).toNat = word.toNat % 2 ^ bits := by
  rw [BitVec.toNat_and, low, Nat.and_two_pow_sub_one_eq_mod]

theorem residue_and_mask {mask : BitVec width} (low : mask.toNat = 2 ^ bits - 1)
    (word : BitVec width) : residue bits (word &&& mask) = residue bits word := by
  rw [residue, toNat_and_mask low, residue, ZMod.natCast_eq_natCast_iff]
  exact Nat.mod_modEq _ _

theorem residue_modulus_sub {modulus word : BitVec width} (power : modulus.toNat = 2 ^ bits)
    (small : word.toNat ≤ 2 ^ bits) : residue bits (modulus - word) = -residue bits word := by
  have difference : (modulus - word).toNat = 2 ^ bits - word.toNat := by
    rw [BitVec.toNat_sub_of_le (BitVec.le_def.mpr (power ▸ small)), power]
  rw [residue, difference, Nat.cast_sub small, ZMod.natCast_self, zero_sub, residue]

theorem toNat_eq_of_residue {word : BitVec width} {value : Nat}
    (small : word.toNat < 2 ^ bits) (same : residue bits word = (value : ZMod (2 ^ bits))) :
    word.toNat = value % 2 ^ bits := by
  rw [residue, ZMod.natCast_eq_natCast_iff] at same
  rw [← Nat.mod_eq_of_lt small]
  exact same

end Residue

end RollingHash

end MetaDedup.Foundation
