import MetaDedup.Foundation.Buffer

/-! # All-or-nothing packages

A package masks a secret with a stream derived from a key, and appends the key
XORed with a hash of the masked part. Whoever holds the whole package recovers
the key from the hash, and with it the secret. -/

namespace MetaDedup.Foundation

/-- The sizes and functions of a package format; `mask` sees the key as the list
of its symbols. -/
structure AllOrNothing (width : Nat) where
  size : Nat
  keySize : Nat
  digest : List (BitVec width) → Buffer (BitVec width)
  mask : List (BitVec width) → Buffer (BitVec width)

namespace AllOrNothing

variable {width : Nat} (format : AllOrNothing width)

def masked (key secret : Buffer (BitVec width)) : Buffer (BitVec width) :=
  fun position => secret position ^^^ format.mask (key.slice 0 format.keySize) position

def package (key secret : Buffer (BitVec width)) : Buffer (BitVec width) :=
  fun position =>
    if position < format.size then format.masked key secret position
    else
      format.digest ((format.masked key secret).slice 0 format.size)
        (position - format.size) ^^^ key (position - format.size)

def keyOf (data : Buffer (BitVec width)) : Buffer (BitVec width) :=
  fun position => format.digest (data.slice 0 format.size) position ^^^
    data (format.size + position)

def secretOf (data : Buffer (BitVec width)) : Buffer (BitVec width) :=
  fun position => data position ^^^
    format.mask ((format.keyOf data).slice 0 format.keySize) position

variable {format} {key secret data : Buffer (BitVec width)}

variable {position : Nat}

section

variable (packaged : ∀ position < format.size + format.keySize,
  data position = format.package key secret position)
include packaged

theorem keyOf_package (inside : position < format.keySize) :
    format.keyOf data position = key position := by
  have main : data.slice 0 format.size =
      (format.masked key secret).slice 0 format.size := by
    apply Buffer.slice_zero_congr
    intro position within
    rw [packaged position (by omega), package, if_pos within]
  rw [keyOf, main, packaged _ (by omega), package, if_neg (by omega),
    Nat.add_sub_cancel_left, ← BitVec.xor_assoc, BitVec.xor_self, BitVec.zero_xor]

theorem secretOf_package (inside : position < format.size) :
    format.secretOf data position = secret position := by
  have sameKey : (format.keyOf data).slice 0 format.keySize =
      key.slice 0 format.keySize :=
    Buffer.slice_zero_congr fun _ => keyOf_package packaged
  rw [secretOf, sameKey, packaged position (by omega), package, if_pos inside, masked,
    BitVec.xor_assoc, BitVec.xor_self, BitVec.xor_zero]

end

theorem package_congr {otherKey otherSecret : Buffer (BitVec width)}
    (sameKey : ∀ position < format.keySize, key position = otherKey position)
    (sameSecret : ∀ position < format.size, secret position = otherSecret position)
    (inside : position < format.size + format.keySize) :
    format.package key secret position = format.package otherKey otherSecret position := by
  have main : ∀ position < format.size,
      format.masked key secret position = format.masked otherKey otherSecret position := by
    intro position within
    rw [masked, masked, Buffer.slice_zero_congr sameKey, sameSecret position within]
  rw [package, package]
  split
  · exact main position (by assumption)
  · rw [Buffer.slice_zero_congr main, sameKey _ (by omega)]

theorem package_of_parts
    (sameKey : ∀ position < format.keySize, key position = format.keyOf data position)
    (sameSecret : ∀ position < format.size,
      secret position = format.secretOf data position)
    (inside : position < format.size + format.keySize) :
    format.package key secret position = data position := by
  have main : format.masked (format.keyOf data) (format.secretOf data) = data := by
    funext position
    rw [masked, secretOf, BitVec.xor_assoc, BitVec.xor_self, BitVec.xor_zero]
  rw [package_congr sameKey sameSecret inside, package, main]
  split
  · rfl
  · rw [keyOf, ← BitVec.xor_assoc, BitVec.xor_self, BitVec.zero_xor,
      Nat.add_sub_cancel' (by omega)]

end AllOrNothing

end MetaDedup.Foundation
