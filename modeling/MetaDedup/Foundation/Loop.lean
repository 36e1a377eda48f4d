import Mathlib.Data.List.FinRange

/-! # Counted loops

Invariant rules for loops over `0, 1, …, count - 1`. The invariant is indexed by
the number of passes made, or by the passes left when the loop counts down. -/

namespace MetaDedup.Foundation.Loop

variable {σ : Type u} {count : Nat}

theorem foldl_finRange (step : σ → Fin count → σ) (invariant : Nat → σ → Prop)
    (pass : ∀ index state, invariant index.val state →
      invariant (index.val + 1) (step state index))
    (state : σ) (initial : invariant 0 state) :
    invariant count ((List.finRange count).foldl step state) := by
  induction count with
  | zero => exact initial
  | succ count induction =>
      rw [List.finRange_succ_last, List.foldl_append, List.foldl_map]
      apply pass (Fin.last count)
      exact induction (fun state index => step state index.castSucc)
        (fun index => pass index.castSucc)

theorem foldl_finRange_reverse (step : σ → Fin count → σ) (invariant : Nat → σ → Prop)
    (pass : ∀ index state, invariant (index.val + 1) state →
      invariant index.val (step state index))
    (state : σ) (initial : invariant count state) :
    invariant 0 ((List.finRange count).reverse.foldl step state) := by
  induction count generalizing state with
  | zero => exact initial
  | succ count induction =>
      rw [List.finRange_succ_last, List.reverse_append, List.reverse_singleton,
        List.singleton_append, List.foldl_cons, ← List.map_reverse,
        List.foldl_map]
      apply induction (fun state index => step state index.castSucc)
        (fun index => pass index.castSucc)
      exact pass (Fin.last count) state initial

theorem foldlM_finRange (step : σ → Fin count → Option σ) (invariant : Nat → σ → Prop)
    (pass : ∀ index state next, invariant index.val state →
      step state index = some next → invariant (index.val + 1) next)
    (state : σ) (initial : invariant 0 state) :
    (∃ final, (List.finRange count).foldlM step state = some final ∧
      invariant count final) ∨
    ((List.finRange count).foldlM step state = none ∧
      ∃ (index : Fin count) (current : σ), invariant index.val current ∧
        step current index = none) := by
  induction count with
  | zero => exact .inl ⟨state, rfl, initial⟩
  | succ count induction =>
      have earlier := induction (fun state index => step state index.castSucc)
        (fun index => pass index.castSucc)
      rw [List.finRange_succ_last, List.foldlM_append, List.foldlM_map]
      rcases earlier with ⟨middle, reached, holds⟩ | ⟨failed, index, current, holds, stuck⟩
      · rw [reached]
        cases last : step middle (Fin.last count) with
        | none =>
            refine .inr ⟨?_, Fin.last count, middle, holds, last⟩
            simp [last]
        | some final =>
            refine .inl ⟨final, ?_, pass (Fin.last count) middle final holds last⟩
            simp [last]
      · rw [failed]
        exact .inr ⟨rfl, index.castSucc, current, holds, stuck⟩

theorem foldlM_view (view : σ → τ) (step : σ → α → Option σ) (step' : τ → α → Option τ)
    (items : List α)
    (pass : ∀ item ∈ items, ∀ state, (step state item).map view = step' (view state) item)
    (state : σ) :
    (items.foldlM step state).map view = items.foldlM step' (view state) := by
  induction items generalizing state with
  | nil => rfl
  | cons item rest induction =>
      rw [List.foldlM_cons, List.foldlM_cons, ← pass item List.mem_cons_self]
      cases step state item with
      | none => rfl
      | some next => exact induction (fun item member => pass item (.tail _ member)) next

/-- The numbers from `low` up to `low + count` among those below `size`. -/
theorem range'_eq_filter {size low count : Nat} (fits : low + count ≤ size)
    (inside : Nat → Bool)
    (window : ∀ index < size, inside index = true ↔ low ≤ index ∧ index < low + count) :
    List.range' low count =
      ((List.finRange size).filter (fun index => inside index.val)).map Fin.val := by
  have split : List.range size =
      List.range' 0 low ++ List.range' low count ++
        List.range' (low + count) (size - (low + count)) := by
    have first : List.range' 0 low ++ List.range' (0 + low) count = _ :=
      List.range'_append_1
    have second : List.range' 0 (low + count) ++
        List.range' (0 + (low + count)) (size - (low + count)) = _ :=
      List.range'_append_1
    rw [Nat.zero_add] at first second
    rw [first, second, List.range_eq_range', Nat.add_sub_cancel' fits]
  have rows : ((List.finRange size).filter (fun index => inside index.val)).map Fin.val =
      (List.range size).filter inside := by
    rw [← List.map_coe_finRange_eq_range, List.filter_map]
    rfl
  have before : (List.range' 0 low).filter inside = [] := by
    rw [List.filter_eq_nil_iff]
    intro index member
    rw [List.mem_range'_1] at member
    rw [window index (by omega)]
    omega
  have within : (List.range' low count).filter inside = List.range' low count := by
    rw [List.filter_eq_self]
    intro index member
    rw [List.mem_range'_1] at member
    exact (window index (by omega)).mpr member
  have after : (List.range' (low + count) (size - (low + count))).filter inside = [] := by
    rw [List.filter_eq_nil_iff]
    intro index member
    rw [List.mem_range'_1] at member
    rw [window index (by omega)]
    omega
  rw [rows, split, List.filter_append, List.filter_append, before, within, after,
    List.nil_append, List.append_nil]

/-! ## Sequences that may fail -/

@[simp] theorem ok_bind {ε : Type u} {α β : Type v} (value : α) (rest : α → Except ε β) :
    (Except.ok value >>= rest) = rest value := rfl

@[simp] theorem error_bind {ε : Type u} {α β : Type v} (left : ε) (rest : α → Except ε β) :
    (Except.error left >>= rest) = .error left := rfl

theorem bind_eq_ok_iff {ε : Type u} {α : Type v} {β : Type w} {first : Except ε α}
    {rest : α → Except ε β} {result : β} :
    first.bind rest = .ok result ↔
      ∃ middle, first = .ok middle ∧ rest middle = .ok result := by
  cases first with
  | error left => simp [Except.bind]
  | ok middle => simp [Except.bind]

/-- A loop whose pass number `index` succeeds exactly when `passes index` holds
succeeds exactly when all of these hold. -/
theorem foldlM_range_ok_iff {ε : Type v} (count : Nat) (step : σ → Nat → Except ε σ)
    (passes : Nat → Prop) (invariant : Nat → σ → Prop)
    (pass : ∀ index state, index < count → invariant index state →
      ((∃ next, step state index = .ok next) ↔ passes index) ∧
        ∀ next, step state index = .ok next → invariant (index + 1) next)
    (state : σ) (initial : invariant 0 state) :
    ((∃ final, (List.range count).foldlM step state = .ok final) ↔
      ∀ index < count, passes index) ∧
    ∀ final, (List.range count).foldlM step state = .ok final →
      invariant count final := by
  induction count with
  | zero =>
      refine ⟨⟨fun _ _ bound => (nomatch bound),
        fun _ => ⟨state, rfl⟩⟩, ?_⟩
      intro final reached
      rw [← Except.ok.inj reached]
      exact initial
  | succ count induction =>
      have earlier := induction fun index state bound => pass index state (by omega)
      have last : ∀ final, (List.range (count + 1)).foldlM step state = .ok final ↔
          ∃ middle, (List.range count).foldlM step state = .ok middle ∧
            step middle count = .ok final := by
        intro final
        rw [List.range_succ, List.foldlM_append]
        simp only [List.foldlM_cons, List.foldlM_nil, bind_pure]
        exact bind_eq_ok_iff
      constructor
      · constructor
        · rintro ⟨final, reached⟩ index bound
          rcases (last final).mp reached with ⟨middle, before, passed⟩
          rcases Nat.lt_succ_iff_lt_or_eq.mp bound with early | same
          · exact earlier.1.mp ⟨middle, before⟩ index early
          · rw [same]
            exact (pass count middle (Nat.lt_succ_self _)
              (earlier.2 middle before)).1.mp ⟨final, passed⟩
        · intro all
          rcases earlier.1.mpr fun index bound => all index (by omega) with ⟨middle, before⟩
          rcases (pass count middle (Nat.lt_succ_self _) (earlier.2 middle before)).1.mpr
            (all count (Nat.lt_succ_self _)) with ⟨final, passed⟩
          exact ⟨final, (last final).mpr ⟨middle, before, passed⟩⟩
      · intro final reached
        rcases (last final).mp reached with ⟨middle, before, passed⟩
        exact (pass count middle (Nat.lt_succ_self _)
          (earlier.2 middle before)).2 final passed

theorem foldlM_range_getElem {ε : Type v} (items : List α) (step : σ → Nat → Except ε σ)
    (step' : σ → α → Except ε σ)
    (pass : ∀ (index : Nat) (inside : index < items.length) (state : σ),
      step state index = step' state items[index]) (state : σ) :
    (List.range items.length).foldlM step state = items.foldlM step' state := by
  induction items generalizing step state with
  | nil => rfl
  | cons item rest induction =>
      rw [List.length_cons, List.range_succ_eq_map, List.foldlM_cons, List.foldlM_cons,
        pass 0 (by simp)]
      refine bind_congr fun next => ?_
      rw [List.foldlM_map]
      apply induction
      intro index inside state
      exact pass (index + 1) (by simpa using inside) state

/-! ## Loops that return early

Both ways out of such a loop carry the state. -/

variable {first : Except σ σ} {next : σ → Except σ σ}

/-- The state a computation ends in. -/
def outcome : Except σ σ → σ
  | .ok state => state
  | .error state => state

@[simp] theorem outcome_ok (state : σ) : outcome (.ok state) = state := rfl

@[simp] theorem outcome_error (state : σ) : outcome (.error state) = state := rfl

theorem eq_ok_outcome {result : Except σ σ} (returns : result.isOk = true) :
    result = .ok (outcome result) := by
  cases result with
  | error state => cases returns
  | ok state => rfl

theorem bind_outcome_of_imp {strong weak : σ → Prop} (weaken : ∀ state, strong state → weak state)
    (holds : strong (outcome first))
    (continues : ∀ state, strong state → weak (outcome (next state))) :
    weak (outcome (first >>= next)) := by
  cases first with
  | error state => exact weaken state holds
  | ok state => exact continues state holds

theorem bind_outcome (invariant : σ → Prop) (holds : invariant (outcome first))
    (continues : ∀ state, invariant state → invariant (outcome (next state))) :
    invariant (outcome (first >>= next)) :=
  bind_outcome_of_imp (fun _ => id) holds continues

theorem foldlM_outcome (step : σ → α → Except σ σ) (invariant : σ → Prop) (items : List α)
    (pass : ∀ item ∈ items, ∀ state, invariant state →
      invariant (outcome (step state item)))
    (state : σ) (initial : invariant state) :
    invariant (outcome (items.foldlM step state)) := by
  induction items generalizing state with
  | nil => exact initial
  | cons item rest induction =>
      rw [List.foldlM_cons]
      exact bind_outcome invariant (pass item List.mem_cons_self state initial)
        (induction fun item member => pass item (List.mem_cons_of_mem _ member))

/-! ## A part of the state

A loop that works on a part of the state alone does to that part what the loop on the
whole state does to it, as long as the rest is in order. -/

/-- The result of a computation as a part of the state shows it. -/
def project (view : σ → τ) : Except σ σ → Except τ τ
  | .ok state => .ok (view state)
  | .error state => .error (view state)

theorem project_bind (view : σ → τ)
    {first' : Except τ τ} {next' : τ → Except τ τ} (same : project view first = first')
    (continues : project view (next (outcome first)) = next' (view (outcome first))) :
    project view (first >>= next) = first' >>= next' := by
  rw [← same]
  cases first with
  | error state => rfl
  | ok state => exact continues

theorem foldlM_project (view : σ → τ) (step : σ → α → Except σ σ)
    (step' : τ → α → Except τ τ) (invariant : σ → Prop)
    (pass : ∀ item state, invariant state →
      project view (step state item) = step' (view state) item ∧
        invariant (outcome (step state item)))
    (items : List α) (state : σ) (initial : invariant state) :
    project view (items.foldlM step state) = items.foldlM step' (view state) := by
  induction items generalizing state with
  | nil => rfl
  | cons item rest induction =>
      rw [List.foldlM_cons, List.foldlM_cons]
      have made := pass item state initial
      exact project_bind view made.1 (induction _ made.2)

end MetaDedup.Foundation.Loop
