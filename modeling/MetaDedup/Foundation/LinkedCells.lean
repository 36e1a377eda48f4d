import Mathlib.Data.List.Nodup
import Mathlib.Logic.Function.Basic

/-! # Linked lists in a heap

A cell holds a value and the address of the next cell. A list is given by the addresses of
its first and its last cell. An item of the list is an address together with the value
there. -/

namespace MetaDedup.Foundation

open Function

structure Cell (α : Type u) where
  value : α
  next : Option Nat

/-- The cells that are allocated. -/
abbrev Heap (α : Type u) := Nat → Option (Cell α)

namespace Heap

variable {α : Type u}

def store (heap : Heap α) (address : Nat) (cell : Cell α) : Heap α :=
  update heap address (some cell)

def free (heap : Heap α) (address : Nat) : Heap α := update heap address none

@[simp] theorem store_self (heap : Heap α) (address : Nat) (cell : Cell α) :
    heap.store address cell address = some cell :=
  update_self address _ heap

theorem store_of_ne (heap : Heap α) {address other : Nat} (cell : Cell α)
    (different : other ≠ address) : heap.store address cell other = heap other :=
  update_of_ne different _ heap

@[simp] theorem free_self (heap : Heap α) (address : Nat) :
    heap.free address address = none :=
  update_self address _ heap

theorem free_of_ne (heap : Heap α) {address other : Nat} (different : other ≠ address) :
    heap.free address other = heap other :=
  update_of_ne different _ heap

/-- The address of the first item, or where the list goes on when there is none. -/
def first : List (Nat × α) → Option Nat → Option Nat
  | [], stop => stop
  | item :: _, _ => some item.1

/-- The items lie in cells of the heap, each linked to the next one and the last one to
`stop`. -/
def Segment (heap : Heap α) (stop : Option Nat) : List (Nat × α) → Prop
  | [] => True
  | item :: rest => heap item.1 = some ⟨item.2, first rest stop⟩ ∧ heap.Segment stop rest

@[simp] theorem first_cons (item : Nat × α) (rest : List (Nat × α)) (stop : Option Nat) :
    first (item :: rest) stop = some item.1 := rfl

theorem first_append (before after : List (Nat × α)) (stop : Option Nat) :
    first (before ++ after) stop = first before (first after stop) := by
  cases before with
  | nil => rfl
  | cons item rest => rfl

theorem segment_append (heap : Heap α) (stop : Option Nat) (before after : List (Nat × α)) :
    heap.Segment stop (before ++ after) ↔
      heap.Segment (first after stop) before ∧ heap.Segment stop after := by
  induction before with
  | nil => exact (and_iff_right trivial).symm
  | cons item rest induction =>
      rw [List.cons_append, Segment, Segment, induction, first_append, and_assoc]

/-- The heap determines what a first address leads to. -/
theorem Segment.unique {heap : Heap α} {left right : List (Nat × α)}
    (leftward : heap.Segment none left) (rightward : heap.Segment none right)
    (same : first left none = first right none) : left = right := by
  induction left generalizing right with
  | nil =>
      cases right with
      | nil => rfl
      | cons other others => cases same
  | cons item rest induction =>
      cases right with
      | nil => cases same
      | cons other others =>
          have address : item.1 = other.1 := Option.some.inj same
          have cell := leftward.1
          rw [address, rightward.1, Option.some.injEq, Cell.mk.injEq] at cell
          rw [Prod.ext address cell.1.symm, induction leftward.2 rightward.2 cell.2.symm]

theorem Segment.congr {heap changed : Heap α} {stop : Option Nat} {items : List (Nat × α)}
    (segment : heap.Segment stop items)
    (same : ∀ address ∈ items.map Prod.fst, changed address = heap address) :
    changed.Segment stop items := by
  induction items with
  | nil => trivial
  | cons item rest induction =>
      refine ⟨(same item.1 (by simp)).trans segment.1, induction segment.2 ?_⟩
      intro address member
      exact same address (List.mem_cons_of_mem _ member)

end Heap

structure LinkedList (α : Type u) where
  heap : Heap α
  head : Option Nat
  tail : Option Nat

namespace LinkedList

open Heap

variable {α : Type u}

def empty : LinkedList α := ⟨fun _ => none, none, none⟩

/-- The list has these items: following `next` from the first cell leads through them to
the last cell, and no other cell is allocated. -/
structure Links (list : LinkedList α) (items : List (Nat × α)) : Prop where
  head : list.head = first items none
  tail : list.tail = items.getLast?.map Prod.fst
  chain : list.heap.Segment none items
  distinct : (items.map Prod.fst).Nodup
  owned : ∀ address, address ∉ items.map Prod.fst → list.heap address = none

def Follows (list : LinkedList α) (items : List (Nat × α)) : Prop :=
  list.head = first items none ∧ list.tail = items.getLast?.map Prod.fst ∧
    list.heap.Segment none items

variable {items : List (Nat × α)}

theorem Links.follows {list : LinkedList α}
    (links : list.Links items) : list.Follows items :=
  ⟨links.head, links.tail, links.chain⟩

theorem Follows.isSome_iff {list : LinkedList α}
    (follows : list.Follows items) : list.head.isSome = list.tail.isSome := by
  rcases follows with ⟨head, tail, _⟩
  rw [head, tail]
  cases items with
  | nil => rfl
  | cons item rest =>
      rw [List.getLast?_eq_some_getLast (List.cons_ne_nil _ _)]
      rfl

theorem empty_links : (empty : LinkedList α).Links [] :=
  ⟨rfl, rfl, trivial, List.nodup_nil, fun _ _ => rfl⟩

variable {list : LinkedList α} {before after : List (Nat × α)} {item previous : Nat × α}

section

variable (links : list.Links (before ++ item :: after))
include links

theorem Links.cell :
    list.heap item.1 = some ⟨item.2, first after none⟩ :=
  ((segment_append _ _ before (item :: after)).mp links.chain).2.1

theorem Links.apart :
    item.1 ∉ before.map Prod.fst ∧ item.1 ∉ after.map Prod.fst := by
  have distinct := links.distinct
  rw [List.map_append, List.map_cons, List.nodup_middle, List.nodup_cons,
    List.mem_append, not_or] at distinct
  exact distinct.1

theorem Links.isHead_iff :
    some item.1 = list.head ↔ before = [] := by
  rw [links.head, first_append]
  cases before with
  | nil => exact iff_of_true rfl rfl
  | cons other rest =>
      refine iff_of_false ?_ (List.cons_ne_nil _ _)
      intro same
      exact links.apart.1 (by simp [Option.some.inj same])

theorem Links.isTail_iff :
    some item.1 = list.tail ↔ after = [] := by
  rw [links.tail, List.getLast?_append_cons]
  cases after with
  | nil => exact iff_of_true rfl rfl
  | cons other rest =>
      refine iff_of_false ?_ (List.cons_ne_nil _ _)
      intro same
      rw [List.getLast?_cons_cons, List.getLast?_eq_some_getLast (List.cons_ne_nil _ _),
        Option.map_some, Option.some_inj] at same
      apply links.apart.2
      rw [same]
      exact List.mem_map_of_mem (List.getLast_mem _)

theorem Links.tail_of_ne_nil
    (more : after ≠ []) : list.tail = after.getLast?.map Prod.fst := by
  rw [links.tail, List.getLast?_append_cons]
  cases after with
  | nil => exact absurd rfl more
  | cons other rest => rw [List.getLast?_cons_cons]

end

/-! ## Operations -/

theorem Links.setValue (links : list.Links (before ++ item :: after)) (value : α) :
    LinkedList.Links
      { list with heap := list.heap.store item.1 ⟨value, first after none⟩ }
      (before ++ (item.1, value) :: after) := by
  have addresses : (before ++ (item.1, value) :: after).map Prod.fst =
      (before ++ item :: after).map Prod.fst := by
    simp only [List.map_append, List.map_cons]
  have parts := (segment_append _ _ before (item :: after)).mp links.chain
  have unchanged : ∀ address, address ≠ item.1 →
      list.heap.store item.1 ⟨value, first after none⟩ address = list.heap address :=
    fun _ different => list.heap.store_of_ne _ different
  refine ⟨?_, ?_, ?_, ?_, ?_⟩
  · rw [links.head, first_append, first_append]
    rfl
  · rw [links.tail, List.getLast?_append_cons, List.getLast?_append_cons]
    cases after with
    | nil => rfl
    | cons other rest => rw [List.getLast?_cons_cons, List.getLast?_cons_cons]
  · rw [segment_append]
    refine ⟨parts.1.congr ?_, list.heap.store_self _ _, parts.2.2.congr ?_⟩
    · intro address member
      exact unchanged address (ne_of_mem_of_not_mem member links.apart.1)
    · intro address member
      exact unchanged address (ne_of_mem_of_not_mem member links.apart.2)
  · rw [addresses]
    exact links.distinct
  · intro address absent
    rw [addresses] at absent
    rw [← links.owned address absent]
    apply unchanged
    rintro rfl
    exact absent (by simp)

theorem Links.removeHead (links : list.Links (item :: after)) {tail : Option Nat}
    (ends : tail = after.getLast?.map Prod.fst) :
    LinkedList.Links ⟨list.heap.free item.1, first after none, tail⟩ after := by
  have whole : list.Links ([] ++ item :: after) := links
  have apart := whole.apart.2
  have distinct := links.distinct
  rw [List.map_cons, List.nodup_cons] at distinct
  refine ⟨rfl, ends, links.chain.2.congr ?_, distinct.2, ?_⟩
  · intro address member
    exact list.heap.free_of_ne (ne_of_mem_of_not_mem member apart)
  · intro address absent
    by_cases same : address = item.1
    · rw [same]
      exact list.heap.free_self _
    · refine (list.heap.free_of_ne same).trans (links.owned address ?_)
      rw [List.map_cons, List.mem_cons, not_or]
      exact ⟨same, absent⟩

theorem Links.removeAfter (links : list.Links (before ++ previous :: item :: after))
    {tail : Option Nat} (ends : tail = (previous :: after).getLast?.map Prod.fst) :
    LinkedList.Links
      ⟨(list.heap.store previous.1 ⟨previous.2, first after none⟩).free item.1, list.head,
        tail⟩
      (before ++ previous :: after) := by
  have split : before ++ previous :: item :: after = (before ++ [previous]) ++ item :: after := by
    simp
  have previousApart := links.apart
  have itemApart := Links.apart (split ▸ links)
  rw [List.map_cons, List.mem_cons, not_or] at previousApart
  rw [List.map_append, List.mem_append, not_or, List.map_singleton,
    List.mem_singleton] at itemApart
  have parts := (segment_append _ _ before (previous :: item :: after)).mp links.chain
  have unchanged : ∀ address, address ≠ previous.1 → address ≠ item.1 →
      ((list.heap.store previous.1 ⟨previous.2, first after none⟩).free item.1) address =
        list.heap address := by
    intro address notPrevious notItem
    rw [free_of_ne _ notItem, store_of_ne _ _ notPrevious]
  refine ⟨?_, ?_, ?_, ?_, ?_⟩
  · rw [links.head, first_append, first_append]
    rfl
  · rw [ends, List.getLast?_append_cons]
  · rw [segment_append]
    refine ⟨parts.1.congr ?_, ?_, parts.2.2.2.congr ?_⟩
    · intro address member
      exact unchanged address (ne_of_mem_of_not_mem member previousApart.1)
        (ne_of_mem_of_not_mem member itemApart.1.1)
    · exact (free_of_ne _ (Ne.symm itemApart.1.2)).trans (store_self _ _ _)
    · intro address member
      exact unchanged address (ne_of_mem_of_not_mem member previousApart.2.2)
        (ne_of_mem_of_not_mem member itemApart.2)
  · have distinct := links.distinct
    rw [split, List.map_append, List.map_cons, List.nodup_middle, List.nodup_cons] at distinct
    simpa using distinct.2
  · intro address absent
    by_cases isItem : address = item.1
    · rw [isItem]
      exact free_self _ _
    · have notPrevious : address ≠ previous.1 := by
        rintro rfl
        exact absent (by simp)
      refine (unchanged address notPrevious isItem).trans (links.owned address ?_)
      simp only [List.map_append, List.map_cons, List.mem_append, List.mem_cons, not_or]
        at absent ⊢
      exact ⟨absent.1, absent.2.1, isItem, absent.2.2⟩

theorem Links.linkFirst (links : list.Links []) (address : Nat) (value : α) :
    LinkedList.Links
      ⟨list.heap.store address ⟨value, none⟩, some address, some address⟩
      [(address, value)] := by
  refine ⟨rfl, rfl, ⟨list.heap.store_self _ _, trivial⟩, List.nodup_singleton _, ?_⟩
  intro other absent
  have different : other ≠ address := by
    rintro rfl
    exact absent (by simp)
  exact (store_of_ne _ _ different).trans (links.owned other List.not_mem_nil)

theorem Links.linkLast (links : list.Links (before ++ [previous])) {address : Nat}
    (fresh : address ∉ (before ++ [previous]).map Prod.fst) (value : α) :
    LinkedList.Links
      ⟨(list.heap.store address ⟨value, none⟩).store previous.1 ⟨previous.2, some address⟩,
        list.head, some address⟩
      (before ++ [previous, (address, value)]) := by
  have apart := links.apart
  have parts := (segment_append _ _ before [previous]).mp links.chain
  rw [List.map_append, List.mem_append, not_or, List.map_singleton, List.mem_singleton]
    at fresh
  have unchanged : ∀ other, other ≠ previous.1 → other ≠ address →
      ((list.heap.store address ⟨value, none⟩).store previous.1 ⟨previous.2, some address⟩)
        other = list.heap other := by
    intro other notPrevious notNew
    rw [store_of_ne _ _ notPrevious, store_of_ne _ _ notNew]
  refine ⟨?_, ?_, ?_, ?_, ?_⟩
  · rw [links.head, first_append, first_append]
    rfl
  · simp
  · rw [segment_append]
    refine ⟨parts.1.congr ?_, store_self _ _ _, ?_, trivial⟩
    · intro other member
      exact unchanged other (ne_of_mem_of_not_mem member apart.1)
        (ne_of_mem_of_not_mem member fresh.1)
    · exact (store_of_ne _ _ fresh.2).trans (store_self _ _ _)
  · have distinct := links.distinct
    have grown : (before ++ [previous, (address, value)]).map Prod.fst =
        (before ++ [previous]).map Prod.fst ++ [address] := by
      simp
    rw [grown, List.nodup_append_comm, List.singleton_append, List.nodup_cons]
    refine ⟨?_, distinct⟩
    rw [List.map_append, List.mem_append, not_or, List.map_singleton, List.mem_singleton]
    exact fresh
  · intro other absent
    simp only [List.map_append, List.map_cons, List.map_nil, List.mem_append, List.mem_cons,
      List.not_mem_nil, or_false, not_or] at absent
    refine (unchanged other absent.2.1 absent.2.2).trans (links.owned other ?_)
    simp only [List.map_append, List.map_cons, List.map_nil, List.mem_append, List.mem_cons,
      List.not_mem_nil, or_false, not_or]
    exact ⟨absent.1, absent.2.1⟩

end LinkedList

end MetaDedup.Foundation
