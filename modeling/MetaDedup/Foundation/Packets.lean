import Mathlib.Algebra.GroupWithZero.Nat
import Mathlib.Data.List.Basic

/-! # Records in packets of bounded size

A sender puts records into a packet as long as they fit and starts a new packet when
the next record does not. No record is split. -/

namespace MetaDedup.Foundation

namespace Packets

variable {α : Type u} (limit : Nat) (size : α → Nat)

/-- The records that still go into a packet of which `used` is taken, and the packets
after it. -/
def pack : Nat → List α → List α × List (List α)
  | _, [] => ([], [])
  | used, record :: rest =>
      if used + size record > limit then
        ([], (record :: (pack (size record) rest).1) :: (pack (size record) rest).2)
      else
        (record :: (pack (used + size record) rest).1, (pack (used + size record) rest).2)

def total (records : List α) : Nat := (records.map size).sum

variable {limit size}

theorem pack_singleton {used : Nat} {record : α} (fits : used + size record ≤ limit) :
    pack limit size used [record] = ([record], []) := by
  rw [pack, if_neg (Nat.not_lt.mpr fits)]
  rfl

theorem pack_map {β : Type v} (value : β → α) (used : Nat) (records : List β) :
    pack limit size used (records.map value) =
      ((pack limit (size ∘ value) used records).1.map value,
        (pack limit (size ∘ value) used records).2.map (List.map value)) := by
  induction records generalizing used with
  | nil => rfl
  | cons record rest induction =>
      simp only [List.map_cons, pack, induction, Function.comp_apply]
      split
      · rfl
      · rfl

theorem pack_flatten (used : Nat) (records : List α) :
    (pack limit size used records).1 ++ (pack limit size used records).2.flatten =
      records := by
  induction records generalizing used with
  | nil => rfl
  | cons record rest induction =>
      rw [pack]
      split
      · simpa using induction (size record)
      · simpa using induction (used + size record)

theorem pack_ne_nil (used : Nat) (records : List α) :
    ∀ packet ∈ (pack limit size used records).2, packet ≠ [] := by
  induction records generalizing used with
  | nil =>
      intro packet member
      cases member
  | cons record rest induction =>
      rw [pack]
      split
      · intro packet member
        rcases List.mem_cons.mp member with same | later
        · rw [same]
          exact List.cons_ne_nil _ _
        · exact induction (size record) packet later
      · exact induction (used + size record)

theorem pack_bounded {used : Nat} {records : List α} (fits : used ≤ limit)
    (small : ∀ record ∈ records, size record ≤ limit) :
    used + total size (pack limit size used records).1 ≤ limit ∧
      ∀ packet ∈ (pack limit size used records).2, total size packet ≤ limit := by
  induction records generalizing used with
  | nil => exact ⟨fits, fun _ member => nomatch member⟩
  | cons record rest induction =>
      have rest_small : ∀ other ∈ rest, size other ≤ limit := fun other member =>
        small other (List.mem_cons_of_mem _ member)
      rw [pack]
      split
      next full =>
        have later := induction (small record List.mem_cons_self) rest_small
        refine ⟨fits, ?_⟩
        intro packet member
        rcases List.mem_cons.mp member with same | listed
        · rw [same, total, List.map_cons, List.sum_cons]
          exact later.1
        · exact later.2 packet listed
      next room =>
        have here := induction (Nat.not_lt.mp room) rest_small
        refine ⟨?_, here.2⟩
        rw [total, List.map_cons, List.sum_cons, ← Nat.add_assoc]
        exact here.1

end Packets

end MetaDedup.Foundation
