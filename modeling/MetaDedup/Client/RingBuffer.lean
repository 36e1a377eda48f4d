import Mathlib.Data.Int.ModEq
import Mathlib.Logic.Relation
import MetaDedup.Foundation.CircularQueue

/-! # `RingBuffer`

The threads of the client are connected by ring buffers. `Insert` and `Extract` run under
the mutex `mAccess`, so each of them is one step, or two when it has to wait in between.
A wait is entered after a single test. The thread goes on behind the test when the wait
returns, whatever the reason.

The buffer has one producer and one consumer and blocks when it is empty
(`blockOnEmpty`). -/

namespace MetaDedup

open Foundation Relation

universe u

/-- The members of a `RingBuffer` that the two threads share. -/
structure RingBuffer (α : Type u) where
  max : Nat
  buffer : Nat → α
  readIndex : Nat
  writeIndex : Nat
  count : Int

namespace RingBuffer

variable {α : Type u}

def capacity (size : Int) : Nat := if size < 2 then 2 else size.toNat

def start (size : Int) (memory : Nat → α) : RingBuffer α := ⟨capacity size, memory, 0, 0, 0⟩

def nextVal (ring : RingBuffer α) (index : Nat) : Nat :=
  if index + 1 ≥ ring.max then 0 else index + 1

/-- `Insert` from the test on. -/
def store (ring : RingBuffer α) (item : α) : RingBuffer α :=
  { ring with
    buffer := Function.update ring.buffer ring.writeIndex item
    writeIndex := ring.nextVal ring.writeIndex
    count := ring.count + 1 }

def front (ring : RingBuffer α) : α := ring.buffer ring.readIndex

/-- `Extract` from the test on. -/
def remove (ring : RingBuffer α) : RingBuffer α :=
  { ring with
    readIndex := ring.nextVal ring.readIndex
    count := ring.count - 1 }

theorem capacity_pos (size : Int) : 0 < capacity size := by
  rw [capacity]
  split
  · exact Nat.two_pos
  · omega

theorem nextVal_eq (ring : RingBuffer α) {index : Nat} (inside : index < ring.max) :
    ring.nextVal index = (index + 1) % ring.max := by
  rw [nextVal]
  split
  · have last : index + 1 = ring.max := by omega
    rw [last, Nat.mod_self]
  · rw [Nat.mod_eq_of_lt (by omega)]

/-- The ring holds `items`, the oldest one first. -/
structure Holds (ring : RingBuffer α) (items : List α) : Prop where
  bounded : items.length ≤ ring.max
  readIndex : ring.readIndex < ring.max
  writeIndex : ring.writeIndex = (ring.readIndex + items.length) % ring.max
  count : ring.count = items.length
  items : window ring.buffer ring.max ring.readIndex items.length = items

namespace Holds

variable {ring : RingBuffer α} {items : List α}

private theorem start (size : Int) (memory : Nat → α) : (start size memory).Holds [] where
  bounded := Nat.zero_le _
  readIndex := capacity_pos size
  writeIndex := (Nat.zero_mod _).symm
  count := rfl
  items := rfl

private theorem writeIndex_lt (holds : ring.Holds items) : ring.writeIndex < ring.max := by
  rw [holds.writeIndex]
  exact Nat.mod_lt _ (Nat.lt_of_le_of_lt (Nat.zero_le _) holds.readIndex)

private theorem store (holds : ring.Holds items) (room : items.length < ring.max) (item : α) :
    (ring.store item).Holds (items ++ [item]) where
  bounded := by
    rw [List.length_append]
    exact room
  readIndex := holds.readIndex
  writeIndex := by
    change ring.nextVal ring.writeIndex = _ % ring.max
    rw [ring.nextVal_eq holds.writeIndex_lt, holds.writeIndex, Nat.mod_add_mod,
      List.length_append]
    rfl
  count := by
    change ring.count + 1 = _
    rw [holds.count, List.length_append, List.length_singleton, Nat.cast_add, Nat.cast_one]
  items := by
    change window (Function.update ring.buffer ring.writeIndex item) ring.max
      ring.readIndex _ = _
    rw [holds.writeIndex, List.length_append, List.length_singleton, window_push _ room,
      holds.items]

private theorem front {item : α} (holds : ring.Holds (item :: items)) : ring.front = item := by
  have listed := holds.items
  rw [List.length_cons, window_succ, Nat.mod_eq_of_lt holds.readIndex] at listed
  exact (List.cons.inj listed).1

private theorem remove {item : α}
    (holds : ring.Holds (item :: items)) : ring.remove.Holds items where
  bounded := Nat.le_of_succ_le holds.bounded
  readIndex := by
    change ring.nextVal ring.readIndex < ring.max
    rw [ring.nextVal_eq holds.readIndex]
    exact Nat.mod_lt _ (Nat.lt_of_le_of_lt (Nat.zero_le _) holds.readIndex)
  writeIndex := by
    change ring.writeIndex = (ring.nextVal ring.readIndex + items.length) % ring.max
    rw [holds.writeIndex, ring.nextVal_eq holds.readIndex, Nat.mod_add_mod,
      List.length_cons, Nat.add_right_comm, Nat.add_assoc]
  count := by
    change ring.count - 1 = _
    rw [holds.count, List.length_cons, Nat.cast_add, Nat.cast_one, Int.add_sub_cancel]
  items := by
    change window ring.buffer ring.max (ring.nextVal ring.readIndex) items.length = items
    have listed := holds.items
    rw [List.length_cons, window_succ] at listed
    rw [ring.nextVal_eq holds.readIndex, window_mod]
    exact (List.cons.inj listed).2

end Holds

end RingBuffer

/-! ## The threads -/

/-- Where the producer is. A wait knows whether it has been signalled since it began. -/
inductive Producer (α : Type u)
  | running
  | waiting (item : α) (signalled : Bool)
  deriving DecidableEq

inductive Consumer
  | running
  | waiting (signalled : Bool)
  deriving DecidableEq

/-- `pthread_cond_signal(&cvFull)`. Without a waiting thread the signal is lost. -/
def Producer.signal {α : Type u} : Producer α → Producer α
  | .running => .running
  | .waiting item _ => .waiting item true

/-- `pthread_cond_signal(&cvEmpty)`. -/
def Consumer.signal : Consumer → Consumer
  | .running => .running
  | .waiting _ => .waiting true

/-- A ring buffer and its two threads, with the items that have been inserted and the
items that have been extracted. -/
structure Monitor (α : Type u) where
  ring : RingBuffer α
  producer : Producer α
  consumer : Consumer
  inserted : List α
  extracted : List α

namespace Monitor

variable {α : Type u}

def start (size : Int) (memory : Nat → α) : Monitor α :=
  ⟨.start size memory, .running, .running, [], []⟩

def store (state : Monitor α) (item : α) : Monitor α :=
  { state with
    ring := state.ring.store item
    producer := .running
    consumer := state.consumer.signal
    inserted := state.inserted ++ [item] }

def remove (state : Monitor α) : Monitor α :=
  { state with
    ring := state.ring.remove
    producer := state.producer.signal
    consumer := .running
    extracted := state.extracted ++ [state.ring.front] }

/-- What can happen under the mutex: a call begins, or a wait returns. -/
inductive Event (α : Type u)
  | insert (item : α)
  | insertResumes
  | extract
  | extractResumes

/-- A wait may return at any time. -/
def step (state : Monitor α) : Event α → Option (Monitor α)
  | .insert item =>
      match state.producer with
      | .running =>
          if state.ring.count = state.ring.max then
            some { state with producer := .waiting item false }
          else some (state.store item)
      | .waiting _ _ => none
  | .insertResumes =>
      match state.producer with
      | .running => none
      | .waiting item _ => some (state.store item)
  | .extract =>
      match state.consumer with
      | .running =>
          if state.ring.count = 0 then some { state with consumer := .waiting false }
          else some state.remove
      | .waiting _ => none
  | .extractResumes =>
      match state.consumer with
      | .running => none
      | .waiting _ => some state.remove

def Step (state next : Monitor α) : Prop := ∃ event, state.step event = some next

/-- A wait that returns has been signalled. -/
def Prompted (state : Monitor α) : Event α → Prop
  | .insertResumes => ∃ item, state.producer = .waiting item true
  | .extractResumes => state.consumer = .waiting true
  | .insert _ | .extract => True

/-- A step that is not a spurious wakeup. -/
def PromptedStep (state next : Monitor α) : Prop :=
  ∃ event, state.Prompted event ∧ state.step event = some next

/-- The buffer has never been read when it was empty, and no item has been overwritten
before it was read. -/
structure Safe (state : Monitor α) : Prop where
  count_nonneg : 0 ≤ state.ring.count
  count_le : state.ring.count ≤ state.ring.max
  indices : state.ring.readIndex + state.ring.count ≡ state.ring.writeIndex
    [ZMOD state.ring.max]
  extracted : state.extracted <+: state.inserted

/-! ## Runs without spurious wakeups -/

/-- The items between the two threads are in the ring, and a signalled thread finds what
it has been waiting for. -/
structure Sound (state : Monitor α) (items : List α) : Prop where
  ring : state.ring.Holds items
  whole : state.extracted ++ items = state.inserted
  producer : ∀ item, state.producer = .waiting item true → items.length < state.ring.max
  consumer : state.consumer = .waiting true → 0 < items.length

namespace Sound

variable {state next : Monitor α} {items : List α}

private theorem start (size : Int) (memory : Nat → α) : (start size memory).Sound [] where
  ring := .start size memory
  whole := rfl
  producer := by
    intro item waiting
    cases waiting
  consumer := by
    intro waiting
    cases waiting

private theorem store (sound : state.Sound items) (room : items.length < state.ring.max)
    (item : α) : (state.store item).Sound (items ++ [item]) where
  ring := sound.ring.store room item
  whole := by
    change state.extracted ++ (items ++ [item]) = state.inserted ++ [item]
    rw [← List.append_assoc, sound.whole]
  producer := by
    intro other waiting
    cases waiting
  consumer := by
    intro _
    rw [List.length_append]
    exact Nat.succ_pos _

private theorem remove {item : α} (sound : state.Sound (item :: items)) :
    state.remove.Sound items where
  ring := sound.ring.remove
  whole := by
    change (state.extracted ++ [state.ring.front]) ++ items = state.inserted
    rw [sound.ring.front, ← sound.whole, List.append_assoc]
    rfl
  producer := by
    intro other _
    exact sound.ring.bounded
  consumer := by
    intro waiting
    cases waiting

private theorem producerWaits (sound : state.Sound items) (item : α) :
    ({ state with producer := .waiting item false } : Monitor α).Sound items where
  ring := sound.ring
  whole := sound.whole
  producer := by
    intro other waiting
    cases waiting
  consumer := sound.consumer

private theorem consumerWaits (sound : state.Sound items) :
    ({ state with consumer := .waiting false } : Monitor α).Sound items where
  ring := sound.ring
  whole := sound.whole
  producer := sound.producer
  consumer := by
    intro waiting
    cases waiting

private theorem remove_of_pos (sound : state.Sound items) (stored : 0 < items.length) :
    ∃ rest, state.remove.Sound rest := by
  cases items with
  | nil => cases stored
  | cons item rest => exact ⟨rest, sound.remove⟩

private theorem step (sound : state.Sound items) (step : state.PromptedStep next) :
    ∃ reached, next.Sound reached := by
  rcases step with ⟨event, prompted, step⟩
  cases event with
  | insert item =>
      rw [Monitor.step] at step
      cases running : state.producer with
      | waiting other signalled => simp [running] at step
      | running =>
          simp only [running] at step
          by_cases full : state.ring.count = state.ring.max
          · rw [if_pos full, Option.some.injEq] at step
            rw [← step]
            exact ⟨items, sound.producerWaits item⟩
          · rw [if_neg full, Option.some.injEq] at step
            rw [sound.ring.count, Nat.cast_inj] at full
            rw [← step]
            exact ⟨_, sound.store (Nat.lt_of_le_of_ne sound.ring.bounded full) item⟩
  | insertResumes =>
      rcases prompted with ⟨item, waiting⟩
      rw [Monitor.step, waiting] at step
      simp only [Option.some.injEq] at step
      rw [← step]
      exact ⟨_, sound.store (sound.producer item waiting) item⟩
  | extract =>
      rw [Monitor.step] at step
      cases running : state.consumer with
      | waiting signalled => simp [running] at step
      | running =>
          simp only [running] at step
          by_cases empty : state.ring.count = 0
          · rw [if_pos empty, Option.some.injEq] at step
            rw [← step]
            exact ⟨items, sound.consumerWaits⟩
          · rw [if_neg empty, Option.some.injEq] at step
            rw [← step]
            apply sound.remove_of_pos
            rw [sound.ring.count] at empty
            omega
  | extractResumes =>
      have waiting : state.consumer = .waiting true := prompted
      rw [Monitor.step, waiting] at step
      simp only [Option.some.injEq] at step
      rw [← step]
      exact sound.remove_of_pos (sound.consumer waiting)

private theorem run {size : Int} {memory : Nat → α}
    (run : ReflTransGen PromptedStep (Monitor.start size memory) state) :
    ∃ reached, state.Sound reached := by
  induction run with
  | refl => exact ⟨[], start size memory⟩
  | tail _ step induction =>
      rcases induction with ⟨items, sound⟩
      exact sound.step step

private theorem safe (sound : state.Sound items) : state.Safe where
  count_nonneg := by
    rw [sound.ring.count]
    exact Int.natCast_nonneg _
  count_le := by
    rw [sound.ring.count]
    exact Int.ofNat_le.mpr sound.ring.bounded
  indices := by
    rw [sound.ring.count, sound.ring.writeIndex, ← Nat.cast_add, Int.natCast_modEq_iff]
    exact (Nat.mod_modEq _ _).symm
  extracted := ⟨items, sound.whole⟩

end Sound

/-- Without spurious wakeups the ring buffer is a bounded queue. -/
theorem ring_buffer_safe (size : Int) (memory : Nat → α) {state : Monitor α}
    (run : ReflTransGen PromptedStep (start size memory) state) : state.Safe := by
  rcases Sound.run run with ⟨items, sound⟩
  exact sound.safe

/-- The consumer waits for the first item, is woken up when it is there, and gets it. -/
theorem ring_buffer_safe_woken :
    ∃ state, ReflTransGen PromptedStep (start 2 fun _ => 0) state ∧
      state.extracted = [7] ∧ state.Safe := by
  have run : ReflTransGen PromptedStep (start 2 fun _ => 0) _ :=
    .head ⟨.extract, trivial, rfl⟩ (.head ⟨.insert 7, trivial, rfl⟩
      (.head ⟨.extractResumes, rfl, rfl⟩ .refl))
  exact ⟨_, run, rfl, ring_buffer_safe 2 _ run⟩

/-- A wait of the consumer that returns spuriously reads an empty slot. A wait of the
producer that returns spuriously overwrites an item that has not been read. -/
theorem ring_buffer_spurious_wakeup :
    (∃ state, ReflTransGen Step (start 2 fun _ => 0) state ∧
      state.ring.count = -1 ∧ state.inserted = [] ∧ state.extracted = [0] ∧
      ¬ state.Safe) ∧
    ∃ state, ReflTransGen Step (start 2 fun _ => 0) state ∧
      state.ring.count = 3 ∧ state.ring.max = 2 ∧ state.inserted = [1, 2, 3] ∧
      state.ring.front = 3 ∧ ¬ state.Safe := by
  constructor
  · refine ⟨_, .head ⟨.extract, rfl⟩ (.head ⟨.extractResumes, rfl⟩ .refl), rfl, rfl, rfl, ?_⟩
    intro safe
    exact absurd safe.count_nonneg (by decide)
  · refine ⟨_, .head ⟨.insert 1, rfl⟩ (.head ⟨.insert 2, rfl⟩ (.head ⟨.insert 3, rfl⟩
      (.head ⟨.insertResumes, rfl⟩ .refl))), rfl, rfl, rfl, rfl, ?_⟩
    intro safe
    exact absurd safe.count_le (by decide)

/-! ## Waits -/

variable {state next : Monitor α}

/-- A thread that waits and has not been signalled has to wait. -/
structure Patient (state : Monitor α) : Prop where
  roomy : 0 < state.ring.max
  producer : ∀ item, state.producer = .waiting item false → state.ring.count = state.ring.max
  consumer : state.consumer = .waiting false → state.ring.count = 0

theorem Patient.store (patient : state.Patient) (item : α) : (state.store item).Patient where
  roomy := patient.roomy
  producer := nofun
  consumer := by
    intro waiting
    cases consumer : state.consumer <;>
      simp [Monitor.store, Consumer.signal, consumer] at waiting

theorem Patient.remove (patient : state.Patient) : state.remove.Patient where
  roomy := patient.roomy
  producer := by
    intro item waiting
    cases producer : state.producer <;>
      simp [Monitor.remove, Producer.signal, producer] at waiting
  consumer := nofun

theorem Patient.step (patient : state.Patient) (step : Step state next) : next.Patient := by
  rcases step with ⟨event, step⟩
  cases event with
  | insert item =>
      rw [Monitor.step] at step
      split at step
      · split at step <;> cases step
        next full => exact ⟨patient.roomy, fun _ _ => full, patient.consumer⟩
        next => exact patient.store item
      · cases step
  | insertResumes =>
      rw [Monitor.step] at step
      split at step <;> cases step
      exact patient.store _
  | extract =>
      rw [Monitor.step] at step
      split at step
      · split at step <;> cases step
        next empty => exact ⟨patient.roomy, patient.producer, fun _ => empty⟩
        next => exact patient.remove
      · cases step
  | extractResumes =>
      rw [Monitor.step] at step
      split at step <;> cases step
      exact patient.remove

private theorem patient_run {size : Int} {memory : Nat → α}
    (run : ReflTransGen Step (start size memory) state) : state.Patient := by
  induction run with
  | refl => exact ⟨RingBuffer.capacity_pos size, nofun, nofun⟩
  | tail _ step patient => exact patient.step step

/-- No signal is lost, spurious wakeups or not: a thread that has not been signalled finds
the buffer full, or empty, as it was, and never do both threads wait like that. -/
theorem ring_buffer_no_lost_signal (size : Int) (memory : Nat → α) {state : Monitor α}
    (run : ReflTransGen Step (start size memory) state) :
    (∀ item, state.producer = .waiting item false → state.ring.count = state.ring.max) ∧
      (state.consumer = .waiting false → state.ring.count = 0) ∧
      ∀ item, state.producer = .waiting item false → state.consumer ≠ .waiting false := by
  have patient := patient_run run
  refine ⟨patient.producer, patient.consumer, fun item full empty => ?_⟩
  have roomy := patient.roomy
  rw [← Int.natCast_pos, ← patient.producer item full, patient.consumer empty] at roomy
  exact absurd roomy (Int.lt_irrefl 0)

/-- The consumer waits, gets an item, and waits again after the second one. -/
theorem ring_buffer_no_lost_signal_waits :
    ∃ state, ReflTransGen Step (start 2 fun _ => 0) state ∧
      state.consumer = .waiting false ∧ state.ring.count = 0 := by
  have signalled : ReflTransGen Step (start 2 fun _ => 0) _ :=
    (ReflTransGen.single ⟨.extract, rfl⟩).tail ⟨.insert 5, rfl⟩
  have run := (((signalled.tail ⟨.insert 6, rfl⟩).tail ⟨.extractResumes, rfl⟩).tail
    ⟨.extract, rfl⟩).tail ⟨.extract, rfl⟩
  exact ⟨_, run, rfl, (ring_buffer_no_lost_signal 2 _ run).2.1 rfl⟩

end Monitor

end MetaDedup
