import Mathlib.Data.List.Nodup
import MetaDedup.Foundation.Words

/-! # The order of use

The keys that have been used, most recent first, and an array whose entries are kept in
that order by moving one entry to the front. -/

namespace MetaDedup.Foundation

open Function

/-! ## Keys in the order of their last use -/

section Recent

variable {Key : Type u} [DecidableEq Key]

/-- The keys of a sequence of uses, each once, the one that was used last at the front. -/
def recent (used : List Key) : List Key :=
  used.foldl (fun keys key => key :: keys.erase key) []

@[simp] theorem recent_nil : recent ([] : List Key) = [] := rfl

@[simp]
theorem recent_concat (used : List Key) (key : Key) :
    recent (used ++ [key]) = key :: (recent used).erase key := by
  simp [recent]

theorem recent_nodup (used : List Key) : (recent used).Nodup := by
  induction used using List.reverseRecOn with
  | nil => exact List.nodup_nil
  | append_singleton used key induction =>
      rw [recent_concat]
      exact List.nodup_cons.mpr ⟨induction.not_mem_erase, induction.erase key⟩

variable {key : Key}

theorem take_erase_of_mem {keys : List Key} {count : Nat}
    (member : key ∈ keys.take (count + 1)) :
    (keys.erase key).take count = (keys.take (count + 1)).erase key := by
  induction keys generalizing count with
  | nil => simp at member
  | cons first rest induction =>
      rw [List.take_succ_cons] at member ⊢
      by_cases same : first = key
      · rw [same, List.erase_cons_head, List.erase_cons_head]
      · have later : key ∈ rest.take count :=
          (List.mem_cons.mp member).resolve_left (Ne.symm same)
        rw [List.erase_cons_tail (by simpa using same),
          List.erase_cons_tail (by simpa using same)]
        cases count with
        | zero => simp at later
        | succ count => rw [List.take_succ_cons, induction later]

theorem take_erase_of_not_mem {keys : List Key} {count : Nat}
    (missing : key ∉ keys.take count) : (keys.erase key).take count = keys.take count := by
  induction keys generalizing count with
  | nil => rfl
  | cons first rest induction =>
      cases count with
      | zero => rfl
      | succ count =>
          rw [List.take_succ_cons] at missing ⊢
          have different : first ≠ key := fun same => missing (same ▸ List.mem_cons_self)
          rw [List.erase_cons_tail (by simpa using different), List.take_succ_cons,
            induction fun member => missing (List.mem_cons_of_mem _ member)]

theorem take_recent_hit {used : List Key} {capacity position : Nat}
    (hit : ((recent used).take capacity)[position]? = some key) :
    (recent (used ++ [key])).take capacity =
      key :: ((recent used).take capacity).eraseIdx position := by
  rcases List.getElem?_eq_some_iff.mp hit with ⟨inside, found⟩
  have nodup := (recent_nodup used).sublist (List.take_sublist capacity (recent used))
  cases capacity with
  | zero => simp at hit
  | succ capacity =>
      have member := List.getElem_mem inside
      rw [found] at member
      rw [recent_concat, List.take_succ_cons, take_erase_of_mem member, ← found,
        nodup.erase_getElem]

theorem take_recent_miss {used : List Key} {capacity : Nat}
    (missing : key ∉ (recent used).take (capacity + 1)) :
    (recent (used ++ [key])).take (capacity + 1) =
      key :: ((recent used).take (capacity + 1)).take capacity := by
  rw [recent_concat, List.take_succ_cons, List.take_take,
    Nat.min_eq_left (Nat.le_succ capacity), take_erase_of_not_mem]
  intro member
  exact missing ((List.take_sublist_take_left (Nat.le_succ capacity)).subset member)

end Recent

/-! ## An array in the order of use -/

namespace Buffer

variable {α : Type u}

/-- Move the entries before position `last` up by one: `for (k = last; k > 0; k--)
index[k] = index[k - 1]`. -/
def shiftUp (index : Buffer α) : (last : Nat) → Buffer α
  | 0 => index
  | k + 1 => shiftUp (update index (k + 1) (index k)) k

/-- Move the entries before position `last` up and put an entry before them. -/
def putFront (index : Buffer α) (last : Nat) (front : α) : Buffer α :=
  update (index.shiftUp last) 0 front

theorem shiftUp_apply (index : Buffer α) (last position : Nat) :
    index.shiftUp last position =
      if 0 < position ∧ position ≤ last then index (position - 1) else index position := by
  induction last generalizing index with
  | zero => rw [if_neg (by omega)]; rfl
  | succ k induction =>
      rw [shiftUp, induction]
      by_cases top : position = k + 1
      · rw [top, if_neg (by omega), if_pos (by omega), update_self]
        rfl
      · rw [update_of_ne top]
        split
        · rw [if_pos (by omega), update_of_ne (by omega)]
        · rw [if_neg (by omega)]

theorem slice_putFront (index : Buffer α) {last count : Nat} (front : α)
    (inside : last < count) :
    (index.putFront last front).slice 0 count =
      front :: (index.slice 0 count).eraseIdx last := by
  apply List.ext_getElem
  · rw [slice_length, List.length_cons, List.length_eraseIdx_of_lt
      (by rw [slice_length]; exact inside), slice_length]
    omega
  · intro position leftBound rightBound
    cases position with
    | zero => simp [slice, putFront]
    | succ position =>
        rw [List.getElem_cons_succ, List.getElem_eraseIdx]
        simp only [slice, List.getElem_map, List.getElem_range, advance_apply, Nat.zero_add,
          putFront]
        rw [update_of_ne (Nat.succ_ne_zero position), shiftUp_apply]
        split
        · rw [dif_pos (by omega), Nat.succ_sub_one]
        · rw [dif_neg (by omega)]

theorem slice_putFront_grow (index : Buffer α) (count : Nat) (front : α) :
    (index.putFront count front).slice 0 (count + 1) = front :: index.slice 0 count := by
  rw [slice_putFront index front (Nat.lt_succ_self count), slice_succ,
    List.eraseIdx_append_of_length_le (by rw [slice_length]), slice_length, Nat.sub_self]
  rw [List.eraseIdx_cons_zero, List.append_nil]

end Buffer

end MetaDedup.Foundation
