import Mathlib.Algebra.BigOperators.Group.Finset.Basic
import Mathlib.Data.List.Basic
import Mathlib.Logic.Function.Basic
import Mathlib.Logic.Relation

/-! # Workers behind round-robin queues

A producer hands items to workers in turn, through a bounded queue for each of them. A
worker takes an item, works on it, and puts the result into a queue of its own. A consumer
takes results from these queues in turn. However the processes interleave, the consumer
gets the results in the order of the items. -/

namespace MetaDedup.Foundation

open Function

universe u v

/-! ## Runs that go on -/

section GoesOn

variable {σ : Type u} {step : σ → σ → Prop} {states : Nat → σ}

/-- A run that makes a step as long as one is possible. -/
def GoesOn (step : σ → σ → Prop) (states : Nat → σ) : Prop :=
  ∀ time, step (states time) (states (time + 1)) ∨
    (∀ next, ¬step (states time) next) ∧ states (time + 1) = states time

theorem exists_goesOn (step : σ → σ → Prop) (first : σ) :
    ∃ states : Nat → σ, states 0 = first ∧ GoesOn step states := by
  classical
  let go (state : σ) : σ := if able : ∃ next, step state next then able.choose else state
  refine ⟨fun time => go^[time] first, rfl, fun time => ?_⟩
  simp only [Function.iterate_succ_apply']
  by_cases able : ∃ next, step (go^[time] first) next
  · apply Or.inl
    simpa [go, able] using able.choose_spec
  · exact .inr ⟨not_exists.mp able, dif_neg able⟩

theorem GoesOn.holds (goesOn : GoesOn step states) {invariant : σ → Prop}
    (begun : invariant (states 0))
    (preserved : ∀ {state next}, invariant state → step state next → invariant next)
    (time : Nat) : invariant (states time) := by
  induction time with
  | zero => exact begun
  | succ time induction =>
      rcases goesOn time with made | ⟨_, same⟩
      · exact preserved induction made
      · rw [same]
        exact induction

/-- When every step lowers a measure, the run gets stuck in the time that the measure
gives. -/
theorem GoesOn.stuck (goesOn : GoesOn step states) {invariant : σ → Prop} (effort : σ → Nat)
    (begun : invariant (states 0))
    (preserved : ∀ {state next}, invariant state → step state next →
      invariant next ∧ effort next < effort state) :
    invariant (states (effort (states 0))) ∧
      ∀ next, ¬step (states (effort (states 0))) next := by
  have holds := goesOn.holds begun fun kept made => (preserved kept made).1
  have spent : ∀ time, effort (states time) + time ≤ effort (states 0) ∨
      ∀ next, ¬step (states time) next := by
    intro time
    induction time with
    | zero => exact .inl (Nat.le_refl _)
    | succ time induction =>
        rcases goesOn time with made | ⟨stuck, same⟩
        · have shorter := (preserved (holds time) made).2
          rcases induction with left | stuck
          · exact .inl (by omega)
          · exact absurd made (stuck _)
        · rw [same]
          exact .inr stuck
  refine ⟨holds _, fun next made => ?_⟩
  rcases spent (effort (states 0)) with left | stuck
  · have shorter := (preserved (holds _) made).2
    omega
  · exact stuck next made

end GoesOn

/-! ## Processes -/

inductive Worker (α : Type u) (β : Type v)
  | idle
  | loaded (item : α)
  | finished (result : β)

/-- The queues, the workers, and the counters of the producer and the consumer. The items
that have been added and the results that have been extracted are kept as well. -/
structure Pipeline (α : Type u) (β : Type v) where
  remaining : List α
  added : List α
  nextAdd : Nat
  input : Nat → List α
  worker : Nat → Worker α β
  output : Nat → List β
  nextExtract : Nat
  extracted : List β

namespace Pipeline

variable {α : Type u} {β : Type v}

def start (items : List α) : Pipeline α β where
  remaining := items
  added := []
  nextAdd := 0
  input := fun _ => []
  worker := fun _ => .idle
  output := fun _ => []
  nextExtract := 0
  extracted := []

/-- The producer puts an item into the queue whose turn it is. -/
def add (count : Nat) (state : Pipeline α β) (item : α) (remaining : List α) :
    Pipeline α β :=
  { state with
    remaining
    added := state.added ++ [item]
    nextAdd := (state.nextAdd + 1) % count
    input := update state.input state.nextAdd (state.input state.nextAdd ++ [item]) }

def load (state : Pipeline α β) (index : Nat) (item : α) (rest : List α) : Pipeline α β :=
  { state with
    input := update state.input index rest
    worker := update state.worker index (.loaded item) }

def finish (state : Pipeline α β) (index : Nat) (result : β) : Pipeline α β :=
  { state with worker := update state.worker index (.finished result) }

def deliver (state : Pipeline α β) (index : Nat) (result : β) : Pipeline α β :=
  { state with
    worker := update state.worker index .idle
    output := update state.output index (state.output index ++ [result]) }

/-- The consumer takes a result from the queue whose turn it is. -/
def extract (count : Nat) (state : Pipeline α β) (result : β) (rest : List β) :
    Pipeline α β :=
  { state with
    output := update state.output state.nextExtract rest
    nextExtract := (state.nextExtract + 1) % count
    extracted := state.extracted ++ [result] }

/-- A step of one of the processes. A queue that is full or empty blocks the process that
needs it. -/
inductive Step (count capacity : Nat) (works : α → β → Prop) (state : Pipeline α β) :
    Pipeline α β → Prop
  | add {item remaining} (next : state.remaining = item :: remaining)
      (room : (state.input state.nextAdd).length < capacity) :
      Step count capacity works state (state.add count item remaining)
  | load {index item rest} (inside : index < count) (idle : state.worker index = .idle)
      (next : state.input index = item :: rest) :
      Step count capacity works state (state.load index item rest)
  | finish {index item result} (inside : index < count)
      (loaded : state.worker index = .loaded item) (worked : works item result) :
      Step count capacity works state (state.finish index result)
  | deliver {index result} (inside : index < count)
      (finished : state.worker index = .finished result)
      (room : (state.output index).length < capacity) :
      Step count capacity works state (state.deliver index result)
  | extract {result rest} (next : state.output state.nextExtract = result :: rest) :
      Step count capacity works state (state.extract count result rest)

/-! ## Lanes -/

def lane (count : Nat) (image : α → β) (items : List α) (taken index : Nat) : List β :=
  ((items.zipIdx.drop taken).filter fun numbered => numbered.2 % count == index).map
    fun numbered => image numbered.1

section Lane

variable {count : Nat} {image : α → β} {items : List α} {taken : Nat}

theorem lane_append (before : taken ≤ items.length) (item : α) (index : Nat) :
    lane count image (items ++ [item]) taken index =
      lane count image items taken index ++
        if items.length % count = index then [image item] else [] := by
  have inside : taken ≤ items.zipIdx.length := by rwa [List.length_zipIdx]
  rw [lane, List.zipIdx_append, List.drop_append_of_le_length inside, List.filter_append,
    List.map_append, lane]
  congr 1
  by_cases own : items.length % count = index
  · simp [own]
  · simp [own]

theorem lane_of_lt (before : taken < items.length) (index : Nat) :
    lane count image items taken index =
      (if taken % count = index then [image items[taken]] else []) ++
        lane count image items (taken + 1) index := by
  have inside : taken < items.zipIdx.length := by rwa [List.length_zipIdx]
  rw [lane, List.drop_eq_getElem_cons inside, List.getElem_zipIdx, Nat.zero_add,
    List.filter_cons, lane]
  by_cases own : taken % count = index
  · simp [own]
  · simp [own]

theorem lane_of_le (after : items.length ≤ taken) (index : Nat) :
    lane count image items taken index = [] := by
  have outside : items.zipIdx.length ≤ taken := by rwa [List.length_zipIdx]
  rw [lane, List.drop_eq_nil_of_le outside]
  rfl

end Lane

def atHand (image : α → β) : Worker α β → List β
  | .idle => []
  | .loaded item => [image item]
  | .finished result => [result]

/-- The results that one worker has still to hand over to the consumer, the next one
first. -/
def inFlight (image : α → β) (state : Pipeline α β) (index : Nat) : List β :=
  state.output index ++ atHand image (state.worker index) ++ (state.input index).map image

/-! ## The order of the results -/

/-- The consumer has the results of the first items, and every worker those of its own
items after them. -/
structure InOrder (count : Nat) (image : α → β) (items : List α) (state : Pipeline α β) :
    Prop where
  whole : state.added ++ state.remaining = items
  nextAdd : state.nextAdd = state.added.length % count
  nextExtract : state.nextExtract = state.extracted.length % count
  behind : state.extracted.length ≤ state.added.length
  extracted : state.extracted = (state.added.take state.extracted.length).map image
  lanes : ∀ index < count,
    state.inFlight image index =
      lane count image state.added state.extracted.length index

namespace InOrder

variable {count capacity : Nat} {works : α → β → Prop} {image : α → β} {items : List α}
variable {state next : Pipeline α β}

theorem start (items : List α) : InOrder count image items (start items) where
  whole := rfl
  nextAdd := (Nat.zero_mod count).symm
  nextExtract := (Nat.zero_mod count).symm
  behind := Nat.le_refl 0
  extracted := rfl
  lanes := fun _ _ => rfl

section

variable (inOrder : InOrder count image items state)
include inOrder

theorem add {item : α} {remaining : List α} (next : state.remaining = item :: remaining) :
    InOrder count image items (state.add count item remaining) where
  whole := by
    rw [← inOrder.whole, next]
    exact List.append_assoc _ _ _
  nextAdd := by
    change (state.nextAdd + 1) % count = (state.added ++ [item]).length % count
    rw [List.length_append, inOrder.nextAdd, Nat.mod_add_mod, List.length_singleton]
  nextExtract := inOrder.nextExtract
  behind := by
    change state.extracted.length ≤ (state.added ++ [item]).length
    rw [List.length_append]
    exact Nat.le_add_right_of_le inOrder.behind
  extracted := by
    change state.extracted = ((state.added ++ [item]).take state.extracted.length).map image
    rw [List.take_append_of_le_length inOrder.behind]
    exact inOrder.extracted
  lanes := by
    intro index inside
    change state.output index ++ atHand image (state.worker index) ++ (update
      state.input state.nextAdd (state.input state.nextAdd ++ [item]) index).map image =
        lane count image (state.added ++ [item]) state.extracted.length index
    rw [lane_append inOrder.behind, ← inOrder.lanes index inside, ← inOrder.nextAdd, inFlight]
    by_cases own : state.nextAdd = index
    · rw [if_pos own, ← own, update_self, List.map_append, List.append_assoc,
        List.append_assoc, List.append_assoc]
      rfl
    · rw [if_neg own, update_of_ne (Ne.symm own), List.append_nil]

theorem of_inFlight (whole : next.added = state.added ∧ next.remaining = state.remaining)
    (counters : next.nextAdd = state.nextAdd ∧ next.nextExtract = state.nextExtract)
    (extracted : next.extracted = state.extracted)
    (kept : ∀ index, next.inFlight image index = state.inFlight image index) :
    InOrder count image items next where
  whole := by rw [whole.1, whole.2, inOrder.whole]
  nextAdd := by rw [counters.1, whole.1, inOrder.nextAdd]
  nextExtract := by rw [counters.2, extracted, inOrder.nextExtract]
  behind := by
    rw [extracted, whole.1]
    exact inOrder.behind
  extracted := by
    rw [extracted, whole.1]
    exact inOrder.extracted
  lanes := by
    intro index inside
    rw [kept, extracted, whole.1]
    exact inOrder.lanes index inside

variable {index : Nat}

theorem load {item : α} {rest : List α} (idle : state.worker index = .idle)
    (next : state.input index = item :: rest) :
    InOrder count image items (state.load index item rest) := by
  refine inOrder.of_inFlight ⟨rfl, rfl⟩ ⟨rfl, rfl⟩ rfl ?_
  intro other
  rw [inFlight, inFlight, Pipeline.load]
  by_cases own : other = index
  · simp [own, idle, next, atHand]
  · simp [own]

theorem finish {item : α} (loaded : state.worker index = .loaded item) :
    InOrder count image items (state.finish index (image item)) := by
  refine inOrder.of_inFlight ⟨rfl, rfl⟩ ⟨rfl, rfl⟩ rfl ?_
  intro other
  rw [inFlight, inFlight, Pipeline.finish]
  by_cases own : other = index
  · simp [own, loaded, atHand]
  · simp [own]

variable {result : β}

theorem deliver (finished : state.worker index = .finished result) :
    InOrder count image items (state.deliver index result) := by
  refine inOrder.of_inFlight ⟨rfl, rfl⟩ ⟨rfl, rfl⟩ rfl ?_
  intro other
  rw [inFlight, inFlight, Pipeline.deliver]
  by_cases own : other = index
  · simp [own, finished, atHand]
  · simp [own]

theorem front (positive : 0 < count)
    {rest : List β} (next : state.output state.nextExtract = result :: rest) :
    ∃ before : state.extracted.length < state.added.length,
      result = image state.added[state.extracted.length] := by
  have turn : state.nextExtract < count := by
    rw [inOrder.nextExtract]
    exact Nat.mod_lt _ positive
  have lane_eq := inOrder.lanes state.nextExtract turn
  rw [inFlight, next] at lane_eq
  by_cases before : state.extracted.length < state.added.length
  · rw [lane_of_lt before, if_pos inOrder.nextExtract.symm] at lane_eq
    exact ⟨before, (List.cons.inj lane_eq).1⟩
  · rw [lane_of_le (Nat.not_lt.mp before)] at lane_eq
    cases lane_eq

theorem extract (positive : 0 < count)
    {rest : List β} (next : state.output state.nextExtract = result :: rest) :
    InOrder count image items (state.extract count result rest) := by
  rcases inOrder.front positive next with ⟨before, front⟩
  have longer : (state.extracted ++ [result]).length = state.extracted.length + 1 :=
    List.length_append
  refine ⟨inOrder.whole, inOrder.nextAdd, ?_, ?_, ?_, ?_⟩
  · change (state.nextExtract + 1) % count = (state.extracted ++ [result]).length % count
    rw [longer, inOrder.nextExtract, Nat.mod_add_mod]
  · change (state.extracted ++ [result]).length ≤ state.added.length
    rw [longer]
    exact before
  · change state.extracted ++ [result] =
      (state.added.take (state.extracted ++ [result]).length).map image
    rw [longer, List.take_add_one, List.map_append, ← inOrder.extracted,
      List.getElem?_eq_getElem before, front]
    rfl
  · intro index inside
    change update state.output state.nextExtract rest index ++
      atHand image (state.worker index) ++ (state.input index).map image =
        lane count image state.added (state.extracted ++ [result]).length index
    have lane_eq := inOrder.lanes index inside
    rw [inFlight, lane_of_lt before] at lane_eq
    rw [longer]
    by_cases own : state.nextExtract = index
    · rw [if_pos (inOrder.nextExtract.symm.trans own), ← own, next] at lane_eq
      rw [← own, update_self]
      exact (List.cons.inj lane_eq).2
    · rw [if_neg fun turn => own (inOrder.nextExtract.trans turn), List.nil_append] at lane_eq
      rw [update_of_ne (Ne.symm own)]
      exact lane_eq

theorem step (positive : 0 < count)
    (functional : ∀ item result, works item result → result = image item)
    (step : Step count capacity works state next) : InOrder count image items next := by
  cases step with
  | add next _ => exact inOrder.add next
  | load _ idle next => exact inOrder.load idle next
  | finish _ loaded worked =>
      rw [functional _ _ worked]
      exact inOrder.finish loaded
  | deliver _ finished _ => exact inOrder.deliver finished
  | extract next => exact inOrder.extract positive next

end

theorem run (positive : 0 < count)
    (functional : ∀ item result, works item result → result = image item)
    (run : Relation.ReflTransGen (Step count capacity works) (Pipeline.start items) state) :
    InOrder count image items state := by
  induction run with
  | refl => exact start items
  | tail _ step induction => exact induction.step positive functional step

theorem extracted_initial (inOrder : InOrder count image items state) :
    state.extracted <+: items.map image := by
  rw [inOrder.extracted, ← inOrder.whole, List.map_append]
  exact ((List.take_prefix _ _).map image).trans (List.prefix_append _ _)

/-- While results are missing, some process can make a step. -/
theorem progress (inOrder : InOrder count image items state) (positive : 0 < count)
    (roomy : 0 < capacity) (total : ∀ item, ∃ result, works item result)
    (missing : state.extracted ≠ items.map image) :
    ∃ next, Step count capacity works state next := by
  by_cases before : state.extracted.length < state.added.length
  · have turn : state.nextExtract < count := by
      rw [inOrder.nextExtract]
      exact Nat.mod_lt _ positive
    have lane_eq := inOrder.lanes state.nextExtract turn
    rw [inFlight, lane_of_lt before, if_pos inOrder.nextExtract.symm] at lane_eq
    cases output : state.output state.nextExtract with
    | cons result rest => exact ⟨_, .extract output⟩
    | nil =>
        cases worker : state.worker state.nextExtract with
        | finished result =>
            refine ⟨_, .deliver turn worker ?_⟩
            rw [output]
            exact roomy
        | loaded item =>
            rcases total item with ⟨result, worked⟩
            exact ⟨_, .finish turn worker worked⟩
        | idle =>
            cases input : state.input state.nextExtract with
            | cons item rest => exact ⟨_, .load turn worker input⟩
            | nil =>
                rw [output, worker, input] at lane_eq
                cases lane_eq
  · have level : state.extracted.length = state.added.length :=
      Nat.le_antisymm inOrder.behind (Nat.not_lt.mp before)
    cases remaining : state.remaining with
    | nil =>
        have all := inOrder.extracted
        rw [level, List.take_length, ← List.append_nil state.added, ← remaining,
          inOrder.whole] at all
        exact absurd all missing
    | cons item rest =>
        have turn : state.nextAdd < count := by
          rw [inOrder.nextAdd]
          exact Nat.mod_lt _ positive
        have drained := inOrder.lanes state.nextAdd turn
        rw [lane_of_le (Nat.le_of_eq level.symm), inFlight] at drained
        have empty := List.map_eq_nil_iff.mp (List.append_eq_nil_iff.mp drained).2
        refine ⟨_, .add remaining ?_⟩
        rw [empty]
        exact roomy

end InOrder

/-! ## The length of a run -/

def workerEffort : Worker α β → Nat
  | .idle => 0
  | .loaded _ => 3
  | .finished _ => 2

def laneEffort (state : Pipeline α β) (index : Nat) : Nat :=
  4 * (state.input index).length + workerEffort (state.worker index) +
    (state.output index).length

def effort (count : Nat) (state : Pipeline α β) : Nat :=
  5 * state.remaining.length + ∑ index ∈ Finset.range count, state.laneEffort index

section Effort

variable {count capacity : Nat} {works : α → β → Prop} {image : α → β} {items : List α}
variable {state next : Pipeline α β}

theorem sum_laneEffort (state next : Pipeline α β) {index : Nat} (inside : index < count)
    (others : ∀ other, other ≠ index → next.laneEffort other = state.laneEffort other) :
    (∑ index ∈ Finset.range count, next.laneEffort index) + state.laneEffort index =
      (∑ index ∈ Finset.range count, state.laneEffort index) + next.laneEffort index := by
  have member : index ∈ Finset.range count := Finset.mem_range.mpr inside
  have rest : ∑ other ∈ (Finset.range count).erase index, next.laneEffort other =
      ∑ other ∈ (Finset.range count).erase index, state.laneEffort other := by
    apply Finset.sum_congr rfl
    intro other listed
    exact others other (Finset.ne_of_mem_erase listed)
  rw [← Finset.add_sum_erase _ _ member, ← Finset.add_sum_erase _ state.laneEffort member,
    rest]
  omega

theorem effort_of_lane {index : Nat} (inside : index < count)
    (others : ∀ other, other ≠ index → next.laneEffort other = state.laneEffort other)
    (own : next.laneEffort index + 1 = state.laneEffort index)
    (remaining : next.remaining = state.remaining) :
    next.effort count + 1 = state.effort count := by
  have lanes := sum_laneEffort state next inside others
  rw [effort, effort, remaining]
  omega

/-- Every step is one of those that were still to be made. -/
theorem Step.effort (inOrder : InOrder count image items state) (positive : 0 < count)
    (step : Step count capacity works state next) :
    next.effort count + 1 = state.effort count := by
  cases step with
  | @add item remaining front room =>
      have turn : state.nextAdd < count := by
        rw [inOrder.nextAdd]
        exact Nat.mod_lt _ positive
      have lanes := sum_laneEffort state (state.add count item remaining) turn
        fun other apart => by simp [laneEffort, Pipeline.add, apart]
      have own : (state.add count item remaining).laneEffort state.nextAdd =
          state.laneEffort state.nextAdd + 4 := by
        simp [laneEffort, Pipeline.add]
        omega
      have shorter : state.remaining.length = remaining.length + 1 := congrArg List.length front
      change 5 * remaining.length + _ + 1 = 5 * state.remaining.length + _
      omega
  | @load index item rest inside idle front =>
      apply effort_of_lane inside
      · intro other apart
        simp [laneEffort, Pipeline.load, apart]
      · simp only [laneEffort, Pipeline.load, update_self, idle, front, workerEffort,
          List.length_cons]
        omega
      · rfl
  | @finish index item result inside loaded worked =>
      apply effort_of_lane inside
      · intro other apart
        simp [laneEffort, Pipeline.finish, apart]
      · simp only [laneEffort, Pipeline.finish, update_self, loaded, workerEffort]
        omega
      · rfl
  | @deliver index result inside finished room =>
      apply effort_of_lane inside
      · intro other apart
        simp [laneEffort, Pipeline.deliver, apart]
      · simp only [laneEffort, Pipeline.deliver, update_self, finished, workerEffort,
          List.length_append, List.length_singleton]
        omega
      · rfl
  | @extract result rest front =>
      have turn : state.nextExtract < count := by
        rw [inOrder.nextExtract]
        exact Nat.mod_lt _ positive
      apply effort_of_lane turn
      · intro other apart
        simp [laneEffort, Pipeline.extract, apart]
      · simp only [laneEffort, Pipeline.extract, update_self, front, List.length_cons]
        omega
      · rfl

end Effort

section Schedules

variable {count capacity : Nat} {works : α → β → Prop} {image : α → β} {items : List α}

theorem effort_start (count : Nat) (items : List α) :
    (start items : Pipeline α β).effort count = 5 * items.length := by
  simp [effort, start, laneEffort, workerEffort]

/-- Five steps for each item bring all results to the consumer, in whatever order the
processes make them. -/
theorem extracted_of_goesOn (positive : 0 < count) (roomy : 0 < capacity)
    (functional : ∀ item result, works item result → result = image item)
    (total : ∀ item, ∃ result, works item result) {states : Nat → Pipeline α β}
    (first : states 0 = start items) (goesOn : GoesOn (Step count capacity works) states) :
    (states (5 * items.length)).extracted = items.map image := by
  have begun : InOrder count image items (states 0) := first ▸ .start items
  have ended := goesOn.stuck (effort count) begun fun inOrder step =>
    ⟨inOrder.step positive functional step, Nat.le_of_eq (step.effort inOrder positive)⟩
  rw [first, effort_start] at ended
  by_contra missing
  rcases ended.1.progress positive roomy total missing with ⟨next, step⟩
  exact ended.2 next step

end Schedules

end Pipeline

end MetaDedup.Foundation
