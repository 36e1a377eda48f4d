import Mathlib.Data.List.Basic
import Mathlib.Data.Nat.ModEq
import Mathlib.Logic.Function.Basic

/-! # Queues in circular arrays

A queue is kept in an array of `capacity` slots. It begins at some slot and goes on with
the next ones, from the last slot of the array to the first one. -/

namespace MetaDedup.Foundation

universe u

variable {α : Type u} {capacity first count : Nat}

def window (slots : Nat → α) (capacity first count : Nat) : List α :=
  (List.range count).map fun offset => slots ((first + offset) % capacity)

theorem window_mod (slots : Nat → α) (capacity first count : Nat) :
    window slots capacity (first % capacity) count = window slots capacity first count := by
  rw [window, window]
  apply List.map_congr_left
  intro offset _
  rw [Nat.mod_add_mod]

theorem window_succ (slots : Nat → α) (capacity first count : Nat) :
    window slots capacity first (count + 1) =
      slots (first % capacity) :: window slots capacity (first + 1) count := by
  rw [window, List.range_succ_eq_map, List.map_cons, List.map_map, Nat.add_zero, window]
  congr 1
  apply List.map_congr_left
  intro offset _
  rw [Function.comp_apply, Nat.succ_eq_add_one, Nat.add_assoc, Nat.add_comm 1 offset]

theorem slot_ne (room : count < capacity) {offset : Nat} (inside : offset < count) :
    (first + offset) % capacity ≠ (first + count) % capacity := by
  intro same
  have close : count - offset < capacity := Nat.lt_of_le_of_lt (Nat.sub_le _ _) room
  have apart : capacity ∣ (first + count) - (first + offset) :=
    (Nat.modEq_iff_dvd' (by omega)).mp same
  rw [Nat.add_sub_add_left] at apart
  have whole := Nat.eq_zero_of_dvd_of_lt apart close
  omega

theorem window_push (slots : Nat → α) (room : count < capacity) (item : α) :
    window (Function.update slots ((first + count) % capacity) item) capacity first
        (count + 1) =
      window slots capacity first count ++ [item] := by
  rw [window, List.range_succ, List.map_append, List.map_singleton, Function.update_self,
    window]
  congr 1
  apply List.map_congr_left
  intro offset member
  exact Function.update_of_ne (slot_ne room (List.mem_range.mp member)) _ _

end MetaDedup.Foundation
