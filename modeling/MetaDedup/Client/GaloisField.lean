import Mathlib.Algebra.Field.Basic
import Mathlib.Data.BitVec

/-! # GF(2^8) arithmetic

The codec multiplies and divides bytes through a GF-Complete `gf_t` object with
`w = 8`. That library is not part of the repository, so the object is a
parameter here: `GaloisField` lists the functions the codec calls together with
their documented behaviour, field arithmetic whose addition is XOR. -/

namespace MetaDedup

abbrev Byte := BitVec 8

structure GaloisField where
  multiply : Byte → Byte → Byte
  divide : Byte → Byte → Byte
  multiply_comm : ∀ left right, multiply left right = multiply right left
  multiply_assoc : ∀ left middle right,
    multiply (multiply left middle) right =
      multiply left (multiply middle right)
  one_multiply : ∀ value, multiply 1#8 value = value
  multiply_xor : ∀ factor left right,
    multiply factor (left ^^^ right) =
      multiply factor left ^^^ multiply factor right
  divide_multiply : ∀ value divisor, divisor ≠ 0#8 →
    multiply (divide value divisor) divisor = value

namespace GaloisField

/-- A byte as an element of the field that `gf` computes in. -/
@[ext]
structure Element (gf : GaloisField) where
  byte : Byte
  deriving DecidableEq

variable (gf : GaloisField)

theorem multiply_zero (value : Byte) : gf.multiply value 0#8 = 0#8 := by
  have doubled := gf.multiply_xor value 0#8 0#8
  rw [BitVec.xor_self] at doubled
  rw [doubled, BitVec.xor_self]

private theorem zero_multiply (value : Byte) : gf.multiply 0#8 value = 0#8 := by
  rw [gf.multiply_comm, gf.multiply_zero]

theorem multiply_one (value : Byte) : gf.multiply value 1#8 = value := by
  rw [gf.multiply_comm, gf.one_multiply]

private theorem xor_multiply (left right factor : Byte) :
    gf.multiply (left ^^^ right) factor =
      gf.multiply left factor ^^^ gf.multiply right factor := by
  rw [gf.multiply_comm, gf.multiply_xor, gf.multiply_comm factor left,
    gf.multiply_comm factor right]

namespace Element

instance : Zero gf.Element := ⟨⟨0#8⟩⟩
instance : One gf.Element := ⟨⟨1#8⟩⟩
instance : Add gf.Element := ⟨fun left right => ⟨left.byte ^^^ right.byte⟩⟩
instance : Neg gf.Element := ⟨id⟩
instance : Mul gf.Element := ⟨fun left right => ⟨gf.multiply left.byte right.byte⟩⟩
instance : Inv gf.Element :=
  ⟨fun value => ⟨if value.byte = 0#8 then 0#8 else gf.divide 1#8 value.byte⟩⟩

variable {gf}

@[simp] theorem zero_byte : (0 : gf.Element).byte = 0#8 := rfl
@[simp] theorem one_byte : (1 : gf.Element).byte = 1#8 := rfl
@[simp] theorem add_byte (left right : gf.Element) :
    (left + right).byte = left.byte ^^^ right.byte := rfl
@[simp] theorem neg_byte (value : gf.Element) : (-value).byte = value.byte := rfl
@[simp] theorem mul_byte (left right : gf.Element) :
    (left * right).byte = gf.multiply left.byte right.byte := rfl
theorem inv_byte (value : gf.Element) :
    value⁻¹.byte = if value.byte = 0#8 then 0#8 else gf.divide 1#8 value.byte := rfl

theorem eq_zero_iff (value : gf.Element) : value = 0 ↔ value.byte = 0#8 :=
  Element.ext_iff

instance : CommRing gf.Element where
  add_assoc := fun _ _ _ => Element.ext (BitVec.xor_assoc _ _ _)
  zero_add := fun _ => Element.ext BitVec.zero_xor
  add_zero := fun _ => Element.ext BitVec.xor_zero
  add_comm := fun _ _ => Element.ext (BitVec.xor_comm _ _)
  neg_add_cancel := fun _ => Element.ext BitVec.xor_self
  nsmul := nsmulRec
  zsmul := zsmulRec
  mul_assoc := fun _ _ _ => Element.ext (gf.multiply_assoc _ _ _)
  mul_comm := fun _ _ => Element.ext (gf.multiply_comm _ _)
  one_mul := fun _ => Element.ext (gf.one_multiply _)
  mul_one := fun _ => Element.ext (gf.multiply_one _)
  zero_mul := fun _ => Element.ext (gf.zero_multiply _)
  mul_zero := fun _ => Element.ext (gf.multiply_zero _)
  left_distrib := fun _ _ _ => Element.ext (gf.multiply_xor _ _ _)
  right_distrib := fun _ _ _ => Element.ext (gf.xor_multiply _ _ _)

instance : Field gf.Element where
  exists_pair_ne := ⟨0, 1, by simp [Element.ext_iff]⟩
  mul_inv_cancel := by
    intro value nonzero
    have byteNonzero : value.byte ≠ 0#8 := mt (eq_zero_iff value).mpr nonzero
    apply Element.ext
    rw [mul_byte, inv_byte, if_neg byteNonzero, gf.multiply_comm]
    exact gf.divide_multiply 1#8 value.byte byteNonzero
  inv_zero := rfl
  nnqsmul := _
  qsmul := _

theorem add_self (value : gf.Element) : value + value = 0 :=
  Element.ext BitVec.xor_self

end Element

/-! ## The field GF-Complete builds

`gf_init_easy` with `w = 8` reduces modulo `x^8 + x^4 + x^3 + x^2 + 1`. -/

def bit (value power : Nat) : Nat := value / 2 ^ power % 2

/-- Multiplication by `x`, for a polynomial given by the bits of a number. -/
def timesX (value : Nat) : Nat := 2 * value ^^^ 0x11d * bit value 7

/-- Horner's scheme over the bits of `factor`, from the highest down. -/
def polynomialMultiply (value factor : Byte) : Byte :=
  BitVec.ofNat 8 ((List.range 8).foldr (fun power total =>
    value.toNat * bit factor.toNat power ^^^ timesX total) 0)

private def polynomialSquare (value : Byte) : Byte := polynomialMultiply value value

/-- `value^254`, by squaring and multiplying. -/
def polynomialInverse (value : Byte) : Byte :=
  (List.range 6).foldr
    (fun _ power => polynomialMultiply (polynomialSquare power) (polynomialSquare value))
    (polynomialSquare value)

def Additive (function : Byte → Byte) : Prop :=
  ∀ left right, function (left ^^^ right) = function left ^^^ function right

namespace Additive

private theorem zero (additive : Additive function) : function 0#8 = 0#8 := by
  have doubled := additive 0#8 0#8
  rw [BitVec.xor_self] at doubled
  rw [doubled, BitVec.xor_self]

private theorem comp (outer : Additive function) (inner : Additive argument) :
    Additive (fun value => function (argument value)) := by
  intro left right
  simp only [inner left right, outer (argument left) (argument right)]

private theorem byte_eq_foldr_bits (value : Byte) :
    (List.range 8).foldr (fun power total =>
      (if value.getLsbD power then 1#8 <<< power else 0#8) ^^^ total) 0#8 = value := by
  revert value
  decide +kernel

theorem ext (left : Additive function) (right : Additive other)
    (agree : ∀ power < 8, function (1#8 <<< power) = other (1#8 <<< power))
    (value : Byte) : function value = other value := by
  have agreeOn : ∀ powers : List Nat, (∀ power ∈ powers, power < 8) →
      function (powers.foldr (fun power total =>
        (if value.getLsbD power then 1#8 <<< power else 0#8) ^^^ total) 0#8) =
      other (powers.foldr (fun power total =>
        (if value.getLsbD power then 1#8 <<< power else 0#8) ^^^ total) 0#8) := by
    intro powers bounded
    induction powers with
    | nil => exact left.zero.trans right.zero.symm
    | cons power rest induction =>
        rw [List.foldr_cons, left, right,
          induction fun each member => bounded each (List.mem_cons_of_mem _ member)]
        congr 1
        split
        · exact agree power (bounded power List.mem_cons_self)
        · exact left.zero.trans right.zero.symm
  have whole := agreeOn (List.range 8) fun power member => List.mem_range.mp member
  rwa [byte_eq_foldr_bits] at whole

end Additive

theorem bit_eq_toNat_testBit (value power : Nat) :
    bit value power = (value.testBit power).toNat :=
  (Nat.toNat_testBit value power).symm

theorem mul_bit_xor (factor left right power : Nat) :
    factor * bit (left ^^^ right) power =
      factor * bit left power ^^^ factor * bit right power := by
  simp only [bit_eq_toNat_testBit, Nat.testBit_xor]
  cases left.testBit power <;> cases right.testBit power <;> simp

private theorem xor_mul_bit (left right value power : Nat) :
    (left ^^^ right) * bit value power =
      left * bit value power ^^^ right * bit value power := by
  rw [bit_eq_toNat_testBit]
  cases value.testBit power <;> simp

private theorem timesX_xor (left right : Nat) :
    timesX (left ^^^ right) = timesX left ^^^ timesX right := by
  have doubled : 2 * (left ^^^ right) = 2 * left ^^^ 2 * right := by
    simpa [Nat.shiftLeft_eq, Nat.mul_comm] using
      (Nat.shiftLeft_xor_distrib : (left ^^^ right) <<< 1 = _)
  unfold timesX
  rw [doubled, mul_bit_xor]
  ac_rfl

theorem foldr_horner_xor (left right : Nat → Nat) (powers : List Nat) :
    powers.foldr (fun power total => (left power ^^^ right power) ^^^ timesX total) 0 =
      powers.foldr (fun power total => left power ^^^ timesX total) 0 ^^^
        powers.foldr (fun power total => right power ^^^ timesX total) 0 := by
  induction powers with
  | nil => simp
  | cons power rest induction =>
      simp only [List.foldr_cons, induction, timesX_xor]
      ac_rfl

theorem polynomialMultiply_additive (factor : Byte) :
    Additive (fun value => polynomialMultiply value factor) := by
  intro left right
  simp only [polynomialMultiply, BitVec.toNat_xor]
  rw [← BitVec.ofNat_xor, ← foldr_horner_xor]
  simp only [xor_mul_bit]

theorem polynomialMultiply_factor_additive (value : Byte) :
    Additive (polynomialMultiply value) := by
  intro left right
  simp only [polynomialMultiply, BitVec.toNat_xor]
  rw [← BitVec.ofNat_xor, ← foldr_horner_xor]
  simp only [mul_bit_xor]

private theorem polynomialMultiply_comm (left right : Byte) :
    polynomialMultiply left right = polynomialMultiply right left := by
  refine Additive.ext (polynomialMultiply_additive right)
    (polynomialMultiply_factor_additive right) ?_ left
  intro leftPower leftBound
  refine Additive.ext (polynomialMultiply_factor_additive _)
    (polynomialMultiply_additive _) ?_ right
  revert leftPower
  decide +kernel

private theorem polynomialMultiply_assoc (left middle right : Byte) :
    polynomialMultiply (polynomialMultiply left middle) right =
      polynomialMultiply left (polynomialMultiply middle right) := by
  refine Additive.ext
    ((polynomialMultiply_additive right).comp (polynomialMultiply_additive middle))
    (polynomialMultiply_additive _) ?_ left
  intro leftPower leftBound
  refine Additive.ext
    ((polynomialMultiply_additive right).comp (polynomialMultiply_factor_additive _))
    ((polynomialMultiply_factor_additive _).comp (polynomialMultiply_additive right))
    ?_ middle
  intro middlePower middleBound
  refine Additive.ext (polynomialMultiply_factor_additive _)
    ((polynomialMultiply_factor_additive _).comp (polynomialMultiply_factor_additive _))
    ?_ right
  revert leftPower middlePower
  decide +kernel

private theorem one_polynomialMultiply (value : Byte) : polynomialMultiply 1#8 value = value := by
  refine Additive.ext (polynomialMultiply_factor_additive 1#8)
    (show Additive id from fun _ _ => rfl) ?_ value
  decide +kernel

private theorem polynomialInverse_multiply (divisor : Byte) :
    divisor ≠ 0#8 → polynomialMultiply (polynomialInverse divisor) divisor = 1#8 := by
  revert divisor
  decide +kernel

/-- The field of `gf_init_easy(&gfObj_, 8)`. -/
def complete : GaloisField where
  multiply := polynomialMultiply
  divide := fun value divisor => polynomialMultiply value (polynomialInverse divisor)
  multiply_comm := polynomialMultiply_comm
  multiply_assoc := polynomialMultiply_assoc
  one_multiply := one_polynomialMultiply
  multiply_xor := polynomialMultiply_factor_additive
  divide_multiply := by
    intro value divisor nonzero
    rw [polynomialMultiply_assoc, polynomialInverse_multiply divisor nonzero,
      polynomialMultiply_comm, one_polynomialMultiply]

end GaloisField

end MetaDedup
