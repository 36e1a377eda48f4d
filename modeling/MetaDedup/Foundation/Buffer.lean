import Mathlib.Data.List.Range
import Mathlib.Tactic.SplitIfs

/-! # Buffers

A buffer is the memory behind a pointer: a value at every position. Its
operations are those of a C program, copying a run of values to an offset and
reading a run as a list. -/

namespace MetaDedup.Foundation

abbrev Buffer (α : Type u) := Nat → α

/-! ## Positions in a sequence of blocks -/

namespace Layout

variable {position size : Nat}

theorem block_lt {block count : Nat} (bounded : block < count)
    (inside : position < size) : size * block + position < size * count :=
  calc size * block + position < size * block + size := by omega
    _ = size * (block + 1) := (Nat.mul_succ size block).symm
    _ ≤ size * count := Nat.mul_le_mul_left size bounded

theorem div_mod_words {stride word words : Nat} (block : Nat)
    (whole : stride = size * words) (bounded : word < words) (inside : position < size) :
    (stride * block + size * word + position) / stride = block ∧
      (stride * block + size * word + position) % stride / size = word ∧
      (stride * block + size * word + position) % stride % size = position := by
  have within : size * word + position < stride := by
    rw [whole]
    exact block_lt bounded inside
  have rest : (stride * block + size * word + position) % stride =
      size * word + position := by
    rw [Nat.add_assoc, Nat.mul_add_mod, Nat.mod_eq_of_lt within]
  refine ⟨?_, ?_, ?_⟩
  · rw [Nat.add_assoc, Nat.mul_add_div (by omega), Nat.div_eq_of_lt within, Nat.add_zero]
  · rw [rest, Nat.mul_add_div (by omega), Nat.div_eq_of_lt inside, Nat.add_zero]
  · rw [rest, Nat.mul_add_mod, Nat.mod_eq_of_lt inside]

theorem exists_words {stride words count : Nat}
    (whole : stride = size * words) (inside : position < stride * count) :
    ∃ block < count, ∃ word < words, ∃ rest < size,
      position = stride * block + size * word + rest := by
  have stridePositive : 0 < stride := by
    rcases Nat.eq_zero_or_pos stride with zero | positive
    · rw [zero, Nat.zero_mul] at inside
      cases inside
    · exact positive
  have sizePositive : 0 < size := by
    rcases Nat.eq_zero_or_pos size with zero | positive
    · rw [whole, zero, Nat.zero_mul] at stridePositive
      cases stridePositive
    · exact positive
  have within : position % stride < size * words := by
    rw [← whole]
    exact Nat.mod_lt _ stridePositive
  refine ⟨position / stride, Nat.div_lt_of_lt_mul inside, position % stride / size,
    Nat.div_lt_of_lt_mul within, position % stride % size, Nat.mod_lt _ sizePositive, ?_⟩
  rw [Nat.add_assoc, Nat.div_add_mod, Nat.div_add_mod]

end Layout

namespace Buffer

variable {α : Type u}

/-- The buffer seen from the pointer `buffer + offset`. -/
def advance (buffer : Buffer α) (offset : Nat) : Buffer α :=
  fun position => buffer (offset + position)

/-- The `length` values from `offset` on. -/
def slice (buffer : Buffer α) (offset length : Nat) : List α :=
  (List.range length).map (buffer.advance offset)

/-- `memcpy(destination + offset, source, length)`. -/
def copy (destination : Buffer α) (offset : Nat) (source : Buffer α)
    (length : Nat) : Buffer α :=
  fun position =>
    if offset ≤ position ∧ position < offset + length then
      source (position - offset)
    else destination position

/-- A buffer that starts with the values of a list. -/
def ofList (values : List α) (rest : α) : Buffer α :=
  fun position => values.getD position rest

@[simp]
theorem advance_apply (buffer : Buffer α) (offset position : Nat) :
    buffer.advance offset position = buffer (offset + position) := rfl

@[simp]
theorem slice_length (buffer : Buffer α) (offset length : Nat) :
    (buffer.slice offset length).length = length := by
  simp [slice]

theorem slice_eq_slice_iff (left right : Buffer α) (leftOffset rightOffset length : Nat) :
    left.slice leftOffset length = right.slice rightOffset length ↔
      ∀ position < length,
        left (leftOffset + position) = right (rightOffset + position) := by
  simp [slice, List.map_inj_left]

variable {length : Nat}

theorem slice_congr {left right : Buffer α} {leftOffset rightOffset : Nat}
    (agree : ∀ position < length,
      left (leftOffset + position) = right (rightOffset + position)) :
    left.slice leftOffset length = right.slice rightOffset length :=
  (slice_eq_slice_iff left right leftOffset rightOffset length).mpr agree

theorem slice_zero_congr {left right : Buffer α}
    (agree : ∀ position < length, left position = right position) :
    left.slice 0 length = right.slice 0 length :=
  slice_congr (by simpa only [Nat.zero_add] using agree)

theorem slice_succ (buffer : Buffer α) (offset length : Nat) :
    buffer.slice offset (length + 1) =
      buffer.slice offset length ++ [buffer (offset + length)] := by
  simp [slice, List.range_succ]

theorem copy_apply (destination : Buffer α) (offset : Nat) (source : Buffer α)
    (length position : Nat) :
    destination.copy offset source length position =
      if offset ≤ position ∧ position < offset + length then
        source (position - offset)
      else destination position := rfl

theorem copy_inside (destination : Buffer α) (offset : Nat)
    (source : Buffer α) {position : Nat} (inside : position < length) :
    destination.copy offset source length (offset + position) =
      source position := by
  rw [copy_apply, if_pos (by omega), Nat.add_sub_cancel_left]

theorem copy_outside (destination : Buffer α) {offset : Nat}
    (source : Buffer α) {position : Nat}
    (outside : position < offset ∨ offset + length ≤ position) :
    destination.copy offset source length position = destination position := by
  rw [copy_apply, if_neg (by omega)]

theorem copy_congr (destination : Buffer α) (offset : Nat) {left right : Buffer α}
    (agree : ∀ position < length, left position = right position) :
    destination.copy offset left length = destination.copy offset right length := by
  funext position
  rw [copy_apply, copy_apply]
  split
  · exact agree _ (by omega)
  · rfl

/-- A loop whose pass number `index` rewrites block number `index` with values
that depend on the position alone rewrites all the blocks. -/
theorem foldl_blocks (step : Buffer α → Nat → Buffer α) (value : Nat → α)
    (offset stride count : Nat)
    (pass : ∀ buffer index, index < count → ∀ position,
      step buffer index position =
        if offset + stride * index ≤ position ∧
            position < offset + stride * index + stride then value position
        else buffer position)
    (buffer : Buffer α) (position : Nat) :
    (List.range count).foldl step buffer position =
      if offset ≤ position ∧ position < offset + stride * count then
        value position
      else buffer position := by
  induction count generalizing position with
  | zero => simp
  | succ count induction =>
      have earlier := induction
        (fun buffer index bounded => pass buffer index (by omega)) position
      rw [List.range_succ, List.foldl_append, List.foldl_cons, List.foldl_nil,
        pass _ count (Nat.lt_succ_self count), earlier, Nat.mul_succ]
      split_ifs <;> first | rfl | omega

/-- A loop that copies runs of one length, each holding what `value` gives for
its positions. -/
theorem foldl_copies (target : Nat → Nat) (source : Nat → Buffer α)
    (value : Nat → α) (length count : Nat)
    (values : ∀ index < count, ∀ position < length,
      source index position = value (target index + position))
    (buffer : Buffer α) (position : Nat) :
    ((∃ index < count, target index ≤ position ∧ position < target index + length) →
      (List.range count).foldl
        (fun buffer index => buffer.copy (target index) (source index) length)
        buffer position = value position) ∧
    ((∀ index < count, position < target index ∨ target index + length ≤ position) →
      (List.range count).foldl
        (fun buffer index => buffer.copy (target index) (source index) length)
        buffer position = buffer position) := by
  induction count with
  | zero => exact ⟨fun ⟨_, bound, _⟩ => absurd bound (Nat.not_lt_zero _), fun _ => rfl⟩
  | succ count induction =>
      have earlier := induction fun index bound => values index (by omega)
      simp only [List.range_succ, List.foldl_append, List.foldl_cons, List.foldl_nil]
      constructor
      · rintro ⟨index, bound, inside⟩
        by_cases last : target count ≤ position ∧ position < target count + length
        · rw [copy_apply, if_pos last, values count (by omega) _ (by omega)]
          congr 1
          omega
        · rw [copy_apply, if_neg last]
          refine earlier.1 ⟨index, ?_, inside⟩
          refine lt_of_le_of_ne (Nat.lt_succ_iff.mp bound) ?_
          rintro rfl
          exact last inside
      · intro outside
        rw [copy_outside _ _ (outside count (Nat.lt_succ_self _))]
        exact earlier.2 fun index bound => outside index (by omega)

/-- A loop whose pass number `index` rewrites positions of column `index` only, from
values in that column, does to each position what its own column's pass does to it. -/
theorem foldl_columns (step : Buffer α → Nat → Buffer α) (column : Nat → Nat) (count : Nat)
    (frame : ∀ buffer, ∀ index < count, ∀ position, column position ≠ index →
      step buffer index position = buffer position)
    (locality : ∀ left right : Buffer α, ∀ index < count,
      (∀ position, column position = index → left position = right position) →
      ∀ position, column position = index →
        step left index position = step right index position)
    (buffer : Buffer α) (position : Nat) :
    (List.range count).foldl step buffer position =
      if column position < count then step buffer (column position) position
      else buffer position := by
  induction count generalizing position with
  | zero => simp
  | succ count induction =>
      have earlier := induction (fun buffer index bound => frame buffer index (by omega))
        (fun left right index bound => locality left right index (by omega))
      rw [List.range_succ, List.foldl_append, List.foldl_cons, List.foldl_nil]
      by_cases last : column position = count
      · rw [if_pos (by omega), last]
        refine locality _ _ count (Nat.lt_succ_self _) ?_ position last
        intro other same
        rw [earlier other, if_neg (by omega)]
      · rw [frame _ count (Nat.lt_succ_self _) position last, earlier position]
        by_cases before : column position < count
        · rw [if_pos before, if_pos (by omega)]
        · rw [if_neg before, if_neg (by omega)]

end Buffer

end MetaDedup.Foundation
