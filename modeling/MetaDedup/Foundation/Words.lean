import Mathlib.Data.Nat.Digits.Defs
import MetaDedup.Foundation.Buffer

/-! # Words in memory

Integers as C programs keep them in a buffer of bytes: little-endian, of a fixed
number of bytes, and signed in two's complement. -/

namespace MetaDedup.Foundation

/-- The number that bytes stand for, least significant first. -/
def littleEndian (bytes : List (BitVec 8)) : Nat :=
  Nat.ofDigits 256 (bytes.map BitVec.toNat)

/-- The low bytes of a number, least significant first. -/
def wordBytes : Nat → Nat → List (BitVec 8)
  | 0, _ => []
  | count + 1, value => BitVec.ofNat 8 value :: wordBytes count (value / 256)

@[simp] theorem wordBytes_length (count value : Nat) :
    (wordBytes count value).length = count := by
  induction count generalizing value with
  | zero => rfl
  | succ count induction => rw [wordBytes, List.length_cons, induction]

theorem littleEndian_wordBytes (count value : Nat) :
    littleEndian (wordBytes count value) = value % 256 ^ count := by
  induction count generalizing value with
  | zero => simp [littleEndian, wordBytes, Nat.mod_one]
  | succ count induction =>
      have split : littleEndian (wordBytes (count + 1) value) =
          value % 256 + 256 * littleEndian (wordBytes count (value / 256)) := by
        simp [littleEndian, wordBytes, Nat.ofDigits_cons]
      rw [split, induction, Nat.pow_succ', Nat.mod_mul]

namespace Buffer

variable {α : Type u}

def write (buffer : Buffer α) (offset : Nat) (values : List α) : Buffer α :=
  fun position =>
    if offset ≤ position then (values[position - offset]?).getD (buffer position)
    else buffer position

variable {values : List α}

section

variable (buffer : Buffer α)
include buffer

theorem write_inside (offset : Nat) {position : Nat} (inside : position < values.length) :
    buffer.write offset values (offset + position) = values[position] := by
  rw [write, if_pos (Nat.le_add_right _ _), Nat.add_sub_cancel_left,
    List.getElem?_eq_getElem inside, Option.getD_some]

variable {offset : Nat}

theorem write_outside {position : Nat}
    (outside : position < offset ∨ offset + values.length ≤ position) :
    buffer.write offset values position = buffer position := by
  rw [write]
  split
  · rw [List.getElem?_eq_none (by omega), Option.getD_none]
  · rfl

theorem slice_write (offset : Nat) (values : List α) :
    (buffer.write offset values).slice offset values.length = values := by
  apply List.ext_getElem
  · rw [slice_length]
  · intro position _ inside
    simp only [slice, List.getElem_map, List.getElem_range, advance_apply]
    exact write_inside buffer offset inside

variable {length : Nat}

theorem slice_write_of_length (offset : Nat) (size : values.length = length) :
    (buffer.write offset values).slice offset length = values := by
  rw [← size, slice_write]

variable {start : Nat}

theorem slice_write_of_disjoint
    (apart : start + length ≤ offset ∨ offset + values.length ≤ start) :
    (buffer.write offset values).slice start length = buffer.slice start length := by
  apply slice_congr
  intro position inside
  exact write_outside buffer (by omega)

theorem slice_add (offset first second : Nat) :
    buffer.slice offset (first + second) =
      buffer.slice offset first ++ buffer.slice (offset + first) second := by
  simp only [slice, List.range_add, List.map_append, List.map_map]
  congr 1
  apply List.map_congr_left
  intro position _
  simp [Nat.add_assoc]

end

variable {buffer : Buffer α}

theorem slice_write_append {written : List α}
    (offset : Nat) (holds : buffer.slice start written.length = written)
    (next : offset = start + written.length) (values : List α) :
    (buffer.write offset values).slice start (written ++ values).length =
      written ++ values := by
  rw [List.length_append, slice_add, ← next, slice_write,
    slice_write_of_disjoint buffer (.inl (Nat.le_of_eq next.symm)), holds]

theorem slice_write_end (buffer : Buffer α) (used : Nat) (values : List α) :
    (buffer.write used values).slice 0 (used + values.length) =
      buffer.slice 0 used ++ values := by
  rw [slice_add, slice_write_of_disjoint buffer (.inl (by omega)), Nat.zero_add, slice_write]

theorem slice_copy (destination : Buffer α) (offset : Nat) (source : Buffer α)
    (length : Nat) :
    (destination.copy offset source length).slice offset length = source.slice 0 length := by
  apply slice_congr
  intro position inside
  rw [copy_inside destination offset source inside, Nat.zero_add]

variable {size : Nat}

theorem slice_copy_of_disjoint (destination : Buffer α)
    (source : Buffer α) (apart : start + size ≤ offset ∨ offset + length ≤ start) :
    (destination.copy offset source length).slice start size =
      destination.slice start size := by
  apply slice_congr
  intro position inside
  exact copy_outside destination source (by omega)

theorem slice_advance (buffer : Buffer α) (offset start length : Nat) :
    (buffer.advance offset).slice start length = buffer.slice (offset + start) length := by
  apply slice_congr
  intro position _
  rw [advance_apply, Nat.add_assoc]

theorem copy_advance_zero (buffer : Buffer α) (length : Nat) :
    buffer.copy 0 (buffer.advance 0) length = buffer := by
  funext position
  rw [copy_apply, advance_apply, Nat.sub_zero, Nat.zero_add, Nat.zero_add, ite_self]

variable {count : Nat}

theorem slice_take (buffer : Buffer α) (offset : Nat) (shorter : count ≤ length) :
    (buffer.slice offset length).take count = buffer.slice offset count := by
  rw [slice, slice, ← List.map_take, List.take_range, Nat.min_eq_left shorter]

variable {rightOffset : Nat}

theorem slice_sub {left right : Buffer α} {leftOffset : Nat}
    (same : left.slice leftOffset length = right.slice rightOffset length)
    (inside : start + size ≤ length) :
    left.slice (leftOffset + start) size = right.slice (rightOffset + start) size := by
  rw [slice_eq_slice_iff] at same
  apply slice_congr
  intro position bounded
  rw [Nat.add_assoc, Nat.add_assoc]
  exact same (start + position) (by omega)

theorem slice_copy_zero (destination source : Buffer α) (inside : start + size ≤ length) :
    (destination.copy 0 source length).slice start size = source.slice start size := by
  simpa using slice_sub (slice_copy destination 0 source length) inside

theorem slice_getD (values : List α) (rest : α) (shorter : count ≤ values.length) :
    slice (fun position => values.getD position rest) 0 count = values.take count := by
  apply List.ext_getElem
  · rw [slice_length, List.length_take, Nat.min_eq_left shorter]
  · intro position _ inside
    rw [List.length_take] at inside
    simp only [slice, List.getElem_map, List.getElem_range, advance_apply, Nat.zero_add,
      List.getElem_take]
    rw [List.getD_eq_getElem?_getD, List.getElem?_eq_getElem (by omega), Option.getD_some]

/-! ## Integers -/

/-- The signed integer of `count` bytes at an offset. -/
def readInt (buffer : Buffer (BitVec 8)) (offset count : Nat) : Int :=
  (BitVec.ofNat (8 * count) (littleEndian (buffer.slice offset count))).toInt

def writeInt (buffer : Buffer (BitVec 8)) (offset count : Nat) (value : Int) :
    Buffer (BitVec 8) :=
  buffer.write offset (wordBytes count (BitVec.ofInt (8 * count) value).toNat)

theorem readInt_congr {left right : Buffer (BitVec 8)} {leftOffset : Nat}
    (same : left.slice leftOffset count = right.slice rightOffset count) :
    left.readInt leftOffset count = right.readInt rightOffset count := by
  rw [readInt, readInt, same]

theorem ofNat_littleEndian_wordBytes (count : Nat) (word : BitVec (8 * count)) :
    BitVec.ofNat (8 * count) (littleEndian (wordBytes count word.toNat)) = word := by
  have bound : word.toNat < 256 ^ count := by
    have small := word.isLt
    rwa [Nat.pow_mul] at small
  rw [littleEndian_wordBytes, Nat.mod_eq_of_lt bound, BitVec.ofNat_toNat,
    BitVec.setWidth_eq]

theorem readInt_of_slice {buffer : Buffer (BitVec 8)}
    {word : BitVec (8 * count)} (holds : buffer.slice offset count = wordBytes count word.toNat) :
    buffer.readInt offset count = word.toInt := by
  rw [readInt, holds, ofNat_littleEndian_wordBytes]

theorem slice_writeInt (buffer : Buffer (BitVec 8)) (offset count : Nat) (value : Int) :
    (buffer.writeInt offset count value).slice offset count =
      wordBytes count (BitVec.ofInt (8 * count) value).toNat :=
  buffer.slice_write_of_length offset (wordBytes_length _ _)

theorem readInt_writeInt (buffer : Buffer (BitVec 8)) (offset count : Nat) (value : Int) :
    (buffer.writeInt offset count value).readInt offset count =
      value.bmod (2 ^ (8 * count)) := by
  rw [readInt, slice_writeInt, ofNat_littleEndian_wordBytes, BitVec.toInt_ofInt]

theorem slice_writeInt_of_disjoint (buffer : Buffer (BitVec 8)) (value : Int)
    (apart : start + length ≤ offset ∨ offset + count ≤ start) :
    (buffer.writeInt offset count value).slice start length = buffer.slice start length :=
  buffer.slice_write_of_disjoint (by rw [wordBytes_length]; exact apart)

end Buffer

end MetaDedup.Foundation
