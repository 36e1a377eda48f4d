import MetaDedup.Foundation.Words

/-! # Reading a file through a sliding window

A memory of a fixed size holds a piece of a file. Records of one length are taken from it
one after the other. When the rest of the memory is shorter than a record, it is moved to
the front and as many values are read from the file as have been taken. At the end of the
file fewer values come, and the memory behind them keeps what it held before. -/

namespace MetaDedup.Foundation

variable {α : Type u}

structure SlidingWindow (α : Type u) where
  memory : Buffer α
  offset : Nat
  unread : List α

namespace SlidingWindow

/-- Read the first piece of a file; nothing comes from an empty one. -/
def openAt (size : Nat) (memory : Buffer α) (file : List α) (offset : Nat) :
    Option (SlidingWindow α) :=
  if file.take size = [] then none
  else
    some
      { memory := memory.write 0 (file.take size)
        offset := offset
        unread := file.drop size }

/-- Move the rest of the memory to the front and read on; nothing comes at the end of the
file. -/
def slide (size : Nat) (window : SlidingWindow α) : Option (SlidingWindow α) :=
  let tailLen := size - window.offset
  let moved := window.memory.copy 0 (window.memory.advance window.offset) tailLen
  if window.unread.take window.offset = [] then none
  else
    some
      { memory := moved.write tailLen (window.unread.take window.offset)
        offset := 0
        unread := window.unread.drop window.offset }

/-- The record at the current place. -/
def record (length : Nat) (window : SlidingWindow α) : List α :=
  window.memory.slice window.offset length

def skip (length : Nat) (window : SlidingWindow α) : SlidingWindow α :=
  { window with offset := window.offset + length }

/-- The memory shows the file from `base` on, as far as the file goes; what has been taken
is of no interest. -/
structure Shows (size : Nat) (file : List α) (base : Nat) (window : SlidingWindow α) :
    Prop where
  inside : window.offset ≤ size
  shown : ∀ position, window.offset ≤ position → position < size →
    base + position < file.length → file[base + position]? = some (window.memory position)
  follows : window.unread = file.drop (base + size)

variable {size base length : Nat} {file : List α} {window : SlidingWindow α}

theorem openAt_shows {offset : Nat} (inside : offset ≤ size) (positive : 0 < size)
    (memory : Buffer α) (nonempty : file ≠ []) :
    ∃ window, openAt size memory file offset = some window ∧ window.offset = offset ∧
      window.Shows size file 0 := by
  have some_read : file.take size ≠ [] := by
    rw [ne_eq, List.take_eq_nil_iff]
    rintro (zero | none_left)
    · omega
    · exact nonempty none_left
  refine ⟨_, if_neg some_read, rfl, inside, ?_, by rw [Nat.zero_add]⟩
  intro position _ bounded within
  rw [Nat.zero_add] at within ⊢
  have taken : position < (file.take size).length := by
    rw [List.length_take]
    omega
  have written := memory.write_inside 0 taken
  rw [Nat.zero_add, List.getElem_take] at written
  dsimp only
  rw [written, List.getElem?_eq_getElem within]

theorem Shows.record (shows_ : window.Shows size file base)
    (room : window.offset + length ≤ size)
    (holds : base + window.offset + length ≤ file.length) :
    window.record length = (file.drop (base + window.offset)).take length := by
  apply List.ext_getElem
  · rw [SlidingWindow.record, Buffer.slice_length, List.length_take, List.length_drop]
    omega
  · intro index inside _
    rw [SlidingWindow.record, Buffer.slice_length] at inside
    have shown := shows_.shown (window.offset + index) (by omega) (by omega) (by omega)
    rw [← Nat.add_assoc] at shown
    rcases List.getElem?_eq_some_iff.mp shown with ⟨_, value⟩
    rw [List.getElem_take, List.getElem_drop, value]
    simp [SlidingWindow.record, Buffer.slice]

theorem Shows.skip (shows_ : window.Shows size file base)
    (room : window.offset + length ≤ size) : (window.skip length).Shows size file base :=
  ⟨room, fun position late => shows_.shown position (Nat.le_of_add_right_le late),
    shows_.follows⟩

/-- Sliding keeps the place in the file. It succeeds when the file has more values than
the memory shows. -/
theorem Shows.slide (shows_ : window.Shows size file base) (taken : 0 < window.offset)
    (more : base + size < file.length) :
    ∃ next, window.slide size = some next ∧ next.offset = 0 ∧
      next.Shows size file (base + window.offset) := by
  have inside := shows_.inside
  have some_read : window.unread.take window.offset ≠ [] := by
    rw [ne_eq, List.take_eq_nil_iff, shows_.follows, List.drop_eq_nil_iff]
    omega
  refine ⟨_, if_neg some_read, rfl, Nat.zero_le _, ?_, ?_⟩
  · intro position _ bounded within
    dsimp only
    by_cases moved : position < size - window.offset
    · -- the part that was moved to the front
      rw [Buffer.write_outside _ (.inl moved), ← Nat.zero_add position,
        Buffer.copy_inside _ _ _ moved, Nat.zero_add, Buffer.advance_apply]
      rw [Nat.add_assoc] at within ⊢
      exact shows_.shown _ (by omega) (by omega) within
    · -- the part that was read behind it
      have place : size - window.offset + (position - (size - window.offset)) = position := by
        omega
      have read : position - (size - window.offset) <
          (window.unread.take window.offset).length := by
        rw [List.length_take, shows_.follows, List.length_drop]
        omega
      have written := Buffer.write_inside
        (window.memory.copy 0 (window.memory.advance window.offset) (size - window.offset))
        (size - window.offset) read
      rw [place] at written
      rw [written, List.getElem_take, ← List.getElem?_eq_getElem]
      simp only [shows_.follows, List.getElem?_drop]
      congr 1
      omega
  · simp only [shows_.follows, List.drop_drop]
    congr 1
    omega

end SlidingWindow

end MetaDedup.Foundation
