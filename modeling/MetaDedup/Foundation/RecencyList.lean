import Mathlib

/-! # Lists in order of use

Every key has one entry with a size. An entry that is used goes to the end of the list,
and entries are evicted from its front until a limit is kept. -/

namespace MetaDedup.Foundation

universe u

structure RecencyList (κ : Type u) where
  entries : List (κ × Int)
  nodup : (entries.map Prod.fst).Nodup

namespace RecencyList

variable {κ : Type u}

def empty : RecencyList κ := ⟨[], List.nodup_nil⟩

def total (list : RecencyList κ) : Int :=
  (list.entries.map Prod.snd).sum

def Sized (size : κ → Int) (list : RecencyList κ) : Prop :=
  ∀ entry ∈ list.entries, entry.2 = size entry.1

/-! ## Eviction -/

variable {limit : Int} {list : RecencyList κ}

theorem nodup_rest {entry : κ × Int} {rest : List (κ × Int)}
    (nodup : ((entry :: rest).map Prod.fst).Nodup) : (rest.map Prod.fst).Nodup :=
  (List.nodup_cons.mp nodup).2

/-- Entries are evicted while `used` is over the limit. Returns what is then used, the
evicted keys and what is left, or `none` when there is nothing left to evict. -/
def evictEntries (limit : Int) :
    (entries : List (κ × Int)) → (entries.map Prod.fst).Nodup → (used : Int) →
    Option (Int × List κ × RecencyList κ)
  | [], _, used => if limit < used then none else some (used, [], empty)
  | entry :: rest, nodup, used =>
      if limit < used then
        (evictEntries limit rest (nodup_rest nodup) (used - entry.2)).map fun evicted =>
          (evicted.1, entry.1 :: evicted.2.1, evicted.2.2)
      else some (used, [], ⟨entry :: rest, nodup⟩)

def evict (list : RecencyList κ) (limit used : Int) : Option (Int × List κ × RecencyList κ) :=
  evictEntries limit list.entries list.nodup used

structure Evicted (list : RecencyList κ) (used left : Int) (evicted : List κ)
    (kept : RecencyList κ) : Prop where
  keys : list.entries.map Prod.fst = evicted ++ kept.entries.map Prod.fst
  entries : kept.entries ⊆ list.entries
  used : used - list.total = left - kept.total

theorem total_cons (entry : κ × Int) (rest : List (κ × Int))
    (nodup : ((entry :: rest).map Prod.fst).Nodup) :
    (⟨entry :: rest, nodup⟩ : RecencyList κ).total =
      entry.2 + (⟨rest, nodup_rest nodup⟩ : RecencyList κ).total :=
  List.sum_cons

theorem evictEntries_returns (entries : List (κ × Int))
    (nodup : (entries.map Prod.fst).Nodup) (used : Int)
    (enough : used - (⟨entries, nodup⟩ : RecencyList κ).total ≤ limit) :
    ∃ left evicted kept,
      evictEntries limit entries nodup used = some (left, evicted, kept) ∧
        Evicted ⟨entries, nodup⟩ used left evicted kept := by
  induction entries generalizing used with
  | nil =>
      have within : used ≤ limit := by simpa [total] using enough
      exact ⟨used, [], empty, by rw [evictEntries, if_neg (by omega)], ⟨rfl, fun _ => id, rfl⟩⟩
  | cons entry rest induction =>
      by_cases above : limit < used
      · rw [total_cons] at enough
        rcases induction (nodup_rest nodup) (used - entry.2) (by omega) with
          ⟨left, evicted, kept, returned, result⟩
        refine ⟨left, entry.1 :: evicted, kept, ?_, ?_, ?_, ?_⟩
        · rw [evictEntries, if_pos above, returned]
          rfl
        · rw [List.map_cons, result.keys, List.cons_append]
        · exact fun _ member => List.mem_cons_of_mem _ (result.entries member)
        · have difference := result.used
          rw [total_cons]
          omega
      · exact ⟨used, [], ⟨entry :: rest, nodup⟩, by rw [evictEntries, if_neg above],
          ⟨rfl, fun _ => id, rfl⟩⟩

theorem evict_returns {used : Int} (enough : used - list.total ≤ limit) :
    ∃ left evicted kept, list.evict limit used = some (left, evicted, kept) ∧
      Evicted list used left evicted kept :=
  evictEntries_returns list.entries list.nodup used enough

theorem evictEntries_eq_none (entries : List (κ × Int))
    (nodup : (entries.map Prod.fst).Nodup) (used : Int)
    (nonneg : ∀ entry ∈ entries, 0 ≤ entry.2)
    (short : limit < used - (⟨entries, nodup⟩ : RecencyList κ).total) :
    evictEntries limit entries nodup used = none := by
  induction entries generalizing used with
  | nil =>
      have above : limit < used := by simpa [total] using short
      rw [evictEntries, if_pos above]
  | cons entry rest induction =>
      have others : ∀ other ∈ rest, 0 ≤ other.2 :=
        fun other member => nonneg other (List.mem_cons_of_mem _ member)
      have sum : 0 ≤ (⟨rest, nodup_rest nodup⟩ : RecencyList κ).total :=
        List.sum_nonneg (List.forall_mem_map.mpr others)
      have first := nonneg entry List.mem_cons_self
      rw [total_cons] at short
      rw [evictEntries, if_pos (by omega),
        induction (nodup_rest nodup) (used - entry.2) others (by omega)]
      rfl

theorem evict_eq_none {used : Int}
    (nonneg : ∀ entry ∈ list.entries, 0 ≤ entry.2) (short : limit < used - list.total) :
    list.evict limit used = none :=
  evictEntries_eq_none list.entries list.nodup used nonneg short

theorem evictEntries_keys {entries : List (κ × Int)}
    {nodup : (entries.map Prod.fst).Nodup} {used left : Int} {evicted : List κ}
    {kept : RecencyList κ}
    (returned : evictEntries limit entries nodup used = some (left, evicted, kept)) :
    entries.map Prod.fst = evicted ++ kept.entries.map Prod.fst := by
  induction entries generalizing used evicted with
  | nil =>
      rw [evictEntries] at returned
      split at returned <;> cases returned
      rfl
  | cons entry rest induction =>
      rw [evictEntries] at returned
      split at returned
      next =>
        rcases Option.map_eq_some_iff.mp returned with ⟨⟨left, evicted, kept⟩, again, same⟩
        cases same
        rw [List.map_cons, induction again]
        rfl
      next =>
        cases returned
        rfl

/-! ## Keys -/

variable [DecidableEq κ]

def keys (list : RecencyList κ) : Finset κ :=
  (list.entries.map Prod.fst).toFinset

theorem total_eq_sum {size : κ → Int} (sized : list.Sized size) :
    list.total = ∑ key ∈ list.keys, size key := by
  rw [keys, List.sum_toFinset _ list.nodup, total, List.map_map]
  exact congrArg List.sum (List.map_congr_left sized)

/-! ## Use -/

theorem nodup_touched (list : RecencyList κ) (key : κ) (size : Int) :
    ((list.entries.filter (fun entry => entry.1 ≠ key) ++ [(key, size)]).map
      Prod.fst).Nodup := by
  rw [List.map_append]
  apply List.Nodup.append (list.nodup.sublist (List.filter_sublist.map _))
    (List.nodup_singleton _)
  intro used former
  rcases List.mem_map.mp former with ⟨entry, kept, rfl⟩
  have different := (List.mem_filter.mp kept).2
  simpa using different

def sizeOr (list : RecencyList κ) (key : κ) (size : Int) : Int :=
  match list.entries.find? fun entry => entry.1 = key with
  | some entry => entry.2
  | none => size

/-- A key is used: its entry goes to the end, with the size it has had. -/
def touch (list : RecencyList κ) (key : κ) (size : Int) : RecencyList κ where
  entries := list.entries.filter (fun entry => entry.1 ≠ key) ++ [(key, list.sizeOr key size)]
  nodup := nodup_touched list key (list.sizeOr key size)

theorem keys_touch (list : RecencyList κ) (key : κ) (size : Int) :
    (list.touch key size).keys = insert key list.keys := by
  ext other
  simp only [keys, touch, List.mem_toFinset, List.map_append, List.mem_append, List.map_cons,
    List.map_nil, List.mem_singleton, Finset.mem_insert, List.mem_map, List.mem_filter]
  constructor
  · rintro (⟨entry, ⟨listed, _⟩, rfl⟩ | rfl)
    · exact .inr ⟨entry, listed, rfl⟩
    · exact .inl rfl
  · rintro (rfl | ⟨entry, listed, rfl⟩)
    · exact .inr rfl
    · by_cases same : entry.1 = key
      · exact .inr same
      · exact .inl ⟨entry, ⟨listed, by simpa using same⟩, rfl⟩

theorem Sized.touch {size : κ → Int} (sized : list.Sized size)
    (key : κ) : (list.touch key (size key)).Sized size := by
  intro entry listed
  rcases List.mem_append.mp listed with former | used
  · exact sized entry (List.mem_of_mem_filter former)
  · rw [List.mem_singleton.mp used]
    rw [sizeOr]
    cases found : list.entries.find? fun entry => entry.1 = key with
    | none => rfl
    | some old =>
        have own : old.1 = key := by simpa using List.find?_some found
        rw [← own]
        exact sized old (List.mem_of_find?_eq_some found)

section Evicted

variable {list kept : RecencyList κ} {used left : Int} {evicted : List κ}

theorem Evicted.keys_subset (result : Evicted list used left evicted kept) :
    kept.keys ⊆ list.keys := by
  intro key member
  rw [RecencyList.keys, List.mem_toFinset] at member ⊢
  rw [result.keys]
  exact List.mem_append_right _ member

theorem Evicted.notMem (result : Evicted list used left evicted kept) {key : κ}
    (member : key ∈ kept.keys) : key ∉ evicted := by
  have nodup := list.nodup
  rw [result.keys] at nodup
  rw [RecencyList.keys, List.mem_toFinset] at member
  exact fun gone => (List.disjoint_of_nodup_append nodup) gone member

end Evicted

end RecencyList

end MetaDedup.Foundation
