import Mathlib.Data.List.Basic

/-! # A connection as `recv` shows it

The bytes of a connection arrive in pieces. A call of `recv` returns bytes of one piece,
at most as many as it asks for; when there are none left the connection is closed, and
every call returns 0, or it has failed, and every call returns -1. -/

namespace MetaDedup.Foundation

/-- How a connection ends. -/
inductive Ending
  | closed
  | failed
  deriving DecidableEq

def Ending.result : Ending → Int
  | .closed => 0
  | .failed => -1

variable {α : Type u}

/-! ## Pieces -/

namespace Pieces

def after (size : Nat) : List (List α) → List (List α)
  | [] => []
  | piece :: rest => if piece.length ≤ size then rest else piece.drop size :: rest

def skip : (size : Nat) → List (List α) → List (List α)
  | _, [] => []
  | size, piece :: rest =>
      if piece.length ≤ size then skip (size - piece.length) rest
      else piece.drop size :: rest

variable {pieces : List (List α)}

theorem after_ne_nil (nonempty : ∀ piece ∈ pieces, piece ≠ [])
    (size : Nat) : ∀ piece ∈ after size pieces, piece ≠ [] := by
  cases pieces with
  | nil => exact nonempty
  | cons first rest =>
      rw [after]
      split
      · exact fun piece member => nonempty piece (List.mem_cons_of_mem _ member)
      · rename_i longer
        intro piece member
        rcases List.mem_cons.mp member with same | later
        · rw [same, Ne, List.drop_eq_nil_iff]
          exact longer
        · exact nonempty piece (List.mem_cons_of_mem _ later)

theorem skip_ne_nil (nonempty : ∀ piece ∈ pieces, piece ≠ [])
    (size : Nat) : ∀ piece ∈ skip size pieces, piece ≠ [] := by
  induction pieces generalizing size with
  | nil => exact nonempty
  | cons first rest induction =>
      rw [skip]
      split
      · exact induction (fun piece member => nonempty piece (List.mem_cons_of_mem _ member)) _
      · rename_i longer
        intro piece member
        rcases List.mem_cons.mp member with same | later
        · rw [same, Ne, List.drop_eq_nil_iff]
          exact longer
        · exact nonempty piece (List.mem_cons_of_mem _ later)

theorem skip_zero (nonempty : ∀ piece ∈ pieces, piece ≠ []) :
    skip 0 pieces = pieces := by
  cases pieces with
  | nil => rfl
  | cons first rest =>
      have longer : ¬first.length ≤ 0 := by
        intro empty
        exact nonempty first List.mem_cons_self (List.length_eq_zero_iff.mp (by omega))
      rw [skip, if_neg longer, List.drop_zero]

theorem skip_flatten (size : Nat) (pieces : List (List α)) :
    (skip size pieces).flatten = pieces.flatten.drop size := by
  induction pieces generalizing size with
  | nil => simp [skip]
  | cons first rest induction =>
      rw [skip, List.flatten_cons]
      split
      · rename_i shorter
        rw [induction, List.drop_append, List.drop_of_length_le shorter, List.nil_append]
      · rename_i longer
        rw [List.flatten_cons, List.drop_append_of_le_length (by omega)]

theorem skip_skip (first second : Nat) (pieces : List (List α)) :
    skip second (skip first pieces) = skip (first + second) pieces := by
  induction pieces generalizing first with
  | nil => rfl
  | cons piece rest induction =>
      rw [skip, skip]
      by_cases gone : piece.length ≤ first
      · rw [if_pos gone, if_pos (Nat.le_add_right_of_le gone), induction]
        congr 1
        omega
      · rw [if_neg gone, skip, List.length_drop, List.drop_drop]
        by_cases reached : piece.length ≤ first + second
        · rw [if_pos (by omega), if_pos reached]
          congr 1
          omega
        · rw [if_neg (by omega), if_neg reached]

theorem skip_after (size more : Nat) (nonempty : ∀ piece ∈ pieces, piece ≠ []) :
    skip more (after size pieces) = skip (((pieces.headD []).take size).length + more) pieces := by
  cases pieces with
  | nil => rfl
  | cons first rest =>
      rw [after, skip, List.headD_cons, List.length_take]
      split
      · rename_i shorter
        rw [Nat.min_eq_right shorter, if_pos (Nat.le_add_right _ _), Nat.add_sub_cancel_left]
      · rename_i longer
        rw [Nat.min_eq_left (by omega), skip, List.length_drop, List.drop_drop]
        by_cases reached : first.length ≤ size + more
        · rw [if_pos (by omega), if_pos reached]
          congr 1
          omega
        · rw [if_neg (by omega), if_neg reached]

end Pieces

/-! ## Connections -/

/-- What is still to be received: the pieces in which it arrives, and the ending. -/
structure Incoming (α : Type u) where
  pieces : List (List α)
  nonempty : ∀ piece ∈ pieces, piece ≠ []
  ending : Ending

namespace Incoming

def stream (connection : Incoming α) : List α := connection.pieces.flatten

def available (connection : Incoming α) : Nat := connection.stream.length

def taken (connection : Incoming α) (size : Nat) : List α :=
  (connection.pieces.headD []).take size

/-- The value of a call of `recv` for `size` values. -/
def bytecount (connection : Incoming α) (size : Nat) : Int :=
  if connection.pieces = [] then connection.ending.result
  else (connection.taken size).length

def after (connection : Incoming α) (size : Nat) : Incoming α where
  pieces := Pieces.after size connection.pieces
  nonempty := Pieces.after_ne_nil connection.nonempty size
  ending := connection.ending

def skip (connection : Incoming α) (size : Nat) : Incoming α where
  pieces := Pieces.skip size connection.pieces
  nonempty := Pieces.skip_ne_nil connection.nonempty size
  ending := connection.ending

theorem ext {left right : Incoming α} (pieces : left.pieces = right.pieces)
    (ending : left.ending = right.ending) : left = right := by
  cases left
  cases right
  cases pieces
  cases ending
  rfl

variable (connection : Incoming α)

@[simp] theorem after_ending (size : Nat) : (connection.after size).ending = connection.ending :=
  rfl

@[simp] theorem skip_ending (size : Nat) : (connection.skip size).ending = connection.ending :=
  rfl

@[simp] theorem skip_zero : connection.skip 0 = connection :=
  ext (Pieces.skip_zero connection.nonempty) rfl

theorem skip_stream (size : Nat) : (connection.skip size).stream = connection.stream.drop size :=
  Pieces.skip_flatten size connection.pieces

theorem skip_available (size : Nat) :
    (connection.skip size).available = connection.available - size := by
  rw [available, skip_stream, List.length_drop, available]

theorem skip_skip (first second : Nat) :
    (connection.skip first).skip second = connection.skip (first + second) :=
  ext (Pieces.skip_skip first second connection.pieces) rfl

theorem after_skip (size more : Nat) :
    (connection.after size).skip more =
      connection.skip ((connection.taken size).length + more) :=
  ext (Pieces.skip_after size more connection.nonempty) rfl

theorem after_eq_skip (size : Nat) :
    connection.after size = connection.skip (connection.taken size).length := by
  have moved := connection.after_skip size 0
  rwa [skip_zero, Nat.add_zero] at moved

theorem taken_eq_take (size : Nat) :
    connection.taken size = connection.stream.take (connection.taken size).length := by
  rw [taken, stream]
  cases connection.pieces with
  | nil => simp
  | cons first rest =>
      rw [List.headD_cons, List.flatten_cons, List.length_take]
      by_cases shorter : first.length ≤ size
      · rw [Nat.min_eq_right shorter, List.take_left, List.take_of_length_le shorter]
      · rw [Nat.min_eq_left (by omega), List.take_append_of_le_length (by omega)]

theorem taken_length_le (size : Nat) : (connection.taken size).length ≤ size :=
  List.length_take_le _ _

theorem taken_length_le_available (size : Nat) :
    (connection.taken size).length ≤ connection.available := by
  have split := congrArg List.length (connection.taken_eq_take size)
  rw [List.length_take] at split
  rw [available]
  omega

theorem after_available (size : Nat) :
    (connection.after size).available + (connection.taken size).length =
      connection.available := by
  have bounded := connection.taken_length_le_available size
  rw [after_eq_skip, skip_available]
  omega

variable {connection}

theorem pieces_eq_nil_iff : connection.pieces = [] ↔ connection.available = 0 := by
  constructor
  · intro none
    rw [available, stream, none]
    rfl
  · intro none
    cases arrived : connection.pieces with
    | nil => rfl
    | cons first rest =>
        rw [available, stream, arrived, List.flatten_cons, List.length_append] at none
        have empty : first = [] := List.length_eq_zero_iff.mp (by omega)
        exact absurd empty (connection.nonempty first (arrived ▸ List.mem_cons_self))

variable {size : Nat}

theorem bytecount_of_alive (alive : connection.available ≠ 0) :
    connection.bytecount size = (connection.taken size).length :=
  if_neg fun none => alive (pieces_eq_nil_iff.mp none)

theorem taken_length_pos (alive : connection.available ≠ 0) (wanted : 0 < size) :
    0 < (connection.taken size).length := by
  rw [taken]
  cases arrived : connection.pieces with
  | nil => exact absurd (pieces_eq_nil_iff.mp arrived) alive
  | cons first rest =>
      have some := List.length_pos_iff.mpr
        (connection.nonempty first (arrived ▸ List.mem_cons_self))
      rw [List.headD_cons, List.length_take]
      omega

theorem bytecount_ne_zero (alive : connection.available ≠ 0) (wanted : 0 < size) :
    connection.bytecount size ≠ 0 := by
  have some := taken_length_pos alive wanted
  rw [bytecount_of_alive alive]
  omega

theorem bytecount_of_dead (dead : connection.available = 0) :
    connection.bytecount size = connection.ending.result :=
  if_pos (pieces_eq_nil_iff.mpr dead)

theorem taken_of_dead (dead : connection.available = 0) :
    connection.taken size = [] := by
  rw [taken, pieces_eq_nil_iff.mpr dead]
  exact List.take_nil

theorem after_of_dead (dead : connection.available = 0) :
    connection.after size = connection := by
  rw [after_eq_skip, taken_of_dead dead]
  exact skip_zero connection

/-! ## Receiving a given number of values -/

/-- Why a loop has not come to its end. -/
inductive Stop
  /-- It has made all the passes it may make. -/
  | running
  /-- A call has failed. -/
  | failed
  deriving DecidableEq

/-- A loop that calls `recv` until it has `size` values and adds up what the calls return.
`request` gives how many values a call asks for, from how many there are to come. After a
call that has failed the loop goes on if it `retries`, with a count that is one less. -/
def receiveLoop (request : Nat → Nat) (retries : Bool) (size : Int) :
    (passes : Nat) → (count : Int) → (received : List α) → Incoming α →
      Except (Stop × List α × Incoming α) (List α × Incoming α)
  | 0, count, received, connection =>
      if count < size then .error (.running, received, connection)
      else .ok (received, connection)
  | passes + 1, count, received, connection =>
      if count < size then
        let wanted := request (size - count).toNat
        if connection.bytecount wanted = -1 ∧ retries = false then
          .error (.failed, received, connection)
        else
          receiveLoop request retries size passes (count + connection.bytecount wanted)
            (received ++ connection.taken wanted) (connection.after wanted)
      else .ok (received, connection)

/-- A call asks for something, and not for more than there is to come. -/
def Modest (request : Nat → Nat) : Prop :=
  ∀ missing, 0 < missing → 0 < request missing ∧ request missing ≤ missing

theorem modest_id : Modest fun missing => missing := fun _ some => ⟨some, Nat.le_refl _⟩

section Loop

variable {request : Nat → Nat} (retries : Bool) {size : Int}

variable {passes : Nat} {count : Int} {received : List α}

theorem receiveLoop_alive (more : count < size) (alive : connection.available ≠ 0) :
    receiveLoop request retries size (passes + 1) count received connection =
      receiveLoop request retries size passes
        (count + (connection.taken (request (size - count).toNat)).length)
        (received ++ connection.taken (request (size - count).toNat))
        (connection.after (request (size - count).toNat)) := by
  rw [receiveLoop, if_pos more]
  dsimp only
  rw [bytecount_of_alive alive, if_neg]
  intro both
  omega

theorem receiveLoop_done (passes : Nat) (received : List α) (enough : ¬count < size) :
    receiveLoop request retries size passes count received connection =
      .ok (received ++ connection.stream.take (size - count).toNat,
        connection.skip (size - count).toNat) := by
  rw [Int.toNat_of_nonpos (by omega), List.take_zero, List.append_nil, skip_zero]
  cases passes with
  | zero => rw [receiveLoop, if_neg enough]
  | succ passes => rw [receiveLoop, if_neg enough]

/-- If the values are there the loop comes to its end with them. Before that it is only
stopped because it may make no more passes, while there is something to receive. -/
theorem receiveLoop_of_enough (modest : Modest request)
    (enough : size - count ≤ connection.available) :
    receiveLoop request retries size passes count received connection =
        .ok (received ++ connection.stream.take (size - count).toNat,
          connection.skip (size - count).toNat) ∨
      passes < (size - count).toNat ∧
        ∃ state, receiveLoop request retries size passes count received connection =
          .error (.running, state) ∧ state.2.available ≠ 0 := by
  by_cases more : count < size
  · have alive : connection.available ≠ 0 := by omega
    induction passes generalizing count received connection with
    | zero =>
        rw [receiveLoop, if_pos more]
        exact .inr ⟨by omega, _, rfl, alive⟩
    | succ passes induction =>
        have wanted := modest (size - count).toNat (by omega)
        have some := taken_length_pos alive wanted.1
        have bounded := connection.taken_length_le (request (size - count).toNat)
        have left := connection.after_available (request (size - count).toNat)
        rw [receiveLoop_alive retries more alive]
        have moved := connection.taken_eq_take (request (size - count).toNat)
        have shifted := connection.after_skip (request (size - count).toNat)
        have behind : (connection.after (request (size - count).toNat)).stream =
            connection.stream.drop
              (connection.taken (request (size - count).toNat)).length := by
          rw [after_eq_skip, skip_stream]
        generalize connection.taken (request (size - count).toNat) = bytes at *
        generalize connection.after (request (size - count).toNat) = next at *
        have rest : bytes.length + (size - (count + bytes.length)).toNat =
            (size - count).toNat := by omega
        have joined : received ++ bytes ++
            next.stream.take (size - (count + bytes.length)).toNat =
              received ++ connection.stream.take (size - count).toNat := by
          rw [← rest, List.take_add, ← moved, behind, List.append_assoc]
        rw [← joined, ← rest, ← shifted]
        by_cases still : count + bytes.length < size
        · have enough' : size - (count + bytes.length) ≤ (next.available : Int) := by omega
          rcases induction enough' still (by omega) with ended | ⟨few, stopped⟩
          · exact .inl ended
          · exact .inr ⟨by omega, stopped⟩
        · exact .inl (receiveLoop_done retries _ _ still)
  · exact .inl (receiveLoop_done retries _ _ more)

theorem enough_of_receiveLoop {result : List α × Incoming α}
    (ended : receiveLoop request retries size passes count received connection = .ok result) :
    size - count ≤ connection.available := by
  induction passes generalizing count received connection with
  | zero =>
      rw [receiveLoop] at ended
      split at ended
      · cases ended
      · omega
  | succ passes induction =>
      by_cases more : count < size
      · by_cases alive : connection.available = 0
        · rw [receiveLoop, if_pos more] at ended
          dsimp only at ended
          split at ended
          · cases ended
          · have later := induction ended
            rw [after_of_dead alive, bytecount_of_dead alive] at later
            have back : connection.ending.result ≤ 0 := by
              cases connection.ending <;> decide
            omega
        · rw [receiveLoop_alive retries more alive] at ended
          have later := induction ended
          have left := connection.after_available (request (size - count).toNat)
          omega
      · omega

/-- Without the values the loop goes on for ever on a connection that is closed. -/
theorem receiveLoop_of_closed
    (modest : Modest request) (missing : connection.available < size - count)
    (closed : connection.ending = .closed) :
    ∃ state, receiveLoop request retries size passes count received connection =
        .error (.running, state) ∧
      (connection.available ≤ passes → state.2.available = 0) := by
  induction passes generalizing count received connection with
  | zero =>
      rw [receiveLoop, if_pos (by omega)]
      exact ⟨_, rfl, fun none => Nat.le_zero.mp none⟩
  | succ passes induction =>
      have more : count < size := by omega
      by_cases dead : connection.available = 0
      · have zero : ∀ wanted, connection.bytecount wanted = 0 := fun wanted => by
          rw [bytecount_of_dead dead, closed]
          rfl
        rw [receiveLoop, if_pos more]
        simp only [zero]
        rw [if_neg (by simp), after_of_dead dead, taken_of_dead dead, List.append_nil,
          Int.add_zero]
        rcases induction missing closed with ⟨state, stopped, emptied⟩
        exact ⟨state, stopped, fun _ => emptied (by omega)⟩
      · rw [receiveLoop_alive retries more dead]
        have wanted := modest (size - count).toNat (by omega)
        have some := taken_length_pos dead wanted.1
        have left := connection.after_available (request (size - count).toNat)
        have less : ((connection.after (request (size - count).toNat)).available : Int) <
            size - (count + (connection.taken (request (size - count).toNat)).length) := by
          omega
        rcases induction less closed with ⟨state, stopped, emptied⟩
        exact ⟨state, stopped, fun _ => emptied (by omega)⟩

theorem receiveLoop_of_failed
    (modest : Modest request) (missing : connection.available < size - count)
    (failed : connection.ending = .failed) (allowed : connection.available < passes) :
    ∃ state, receiveLoop request false size passes count received connection =
      .error (.failed, state) := by
  induction passes generalizing count received connection with
  | zero => omega
  | succ passes induction =>
      have more : count < size := by omega
      by_cases dead : connection.available = 0
      · rw [receiveLoop, if_pos more]
        dsimp only
        rw [bytecount_of_dead dead, failed, if_pos ⟨rfl, rfl⟩]
        exact ⟨_, rfl⟩
      · rw [receiveLoop_alive false more dead]
        have wanted := modest (size - count).toNat (by omega)
        have some := taken_length_pos dead wanted.1
        have left := connection.after_available (request (size - count).toNat)
        have ending : (connection.after (request (size - count).toNat)).ending = .failed :=
          failed
        exact induction (by omega) ending (by omega)

end Loop

/-! ## Fields

A message as its receiver takes it: some of its parts are each received by a single call
of `recv`, the others by loops. -/

inductive MessageField (α : Type u)
  | call (values : List α)
  | loop (values : List α)

def MessageField.values : MessageField α → List α
  | .call values => values
  | .loop values => values

/-- Every field that a single call is to receive arrives in one piece: where it begins,
the values up to its end are in the same piece. -/
def Unbroken : List (MessageField α) → Incoming α → Prop
  | [], _ => True
  | .call values :: rest, connection =>
      values.length ≤ (connection.pieces.headD []).length ∧
        Unbroken rest (connection.skip values.length)
  | .loop values :: rest, connection => Unbroken rest (connection.skip values.length)

/-- The fields are received one after the other, and the last connection is left. -/
inductive Delivers : List (MessageField α) → Incoming α → Incoming α → Prop
  | nil {connection : Incoming α} : Delivers [] connection connection
  | call {values : List α} {rest : List (MessageField α)} {connection left : Incoming α}
      (received : connection.taken values.length = values)
      (later : Delivers rest (connection.after values.length) left) :
      Delivers (.call values :: rest) connection left
  | loop {values : List α} {rest : List (MessageField α)} {connection left : Incoming α}
      (received : values <+: connection.stream)
      (later : Delivers rest (connection.skip values.length) left) :
      Delivers (.loop values :: rest) connection left

theorem taken_of_unbroken {values later : List α}
    (stream : connection.stream = values ++ later)
    (whole : values.length ≤ (connection.pieces.headD []).length) :
    connection.taken values.length = values := by
  have size : (connection.taken values.length).length = values.length := by
    rw [taken, List.length_take, Nat.min_eq_left whole]
  rw [taken_eq_take, size, stream, List.take_left]

variable {fields : List (MessageField α)}

theorem delivers_of_unbroken {later : List α}
    (stream : connection.stream = fields.flatMap MessageField.values ++ later)
    (unbroken : Unbroken fields connection) :
    Delivers fields connection (connection.skip (fields.flatMap MessageField.values).length) := by
  induction fields generalizing connection with
  | nil =>
      rw [List.flatMap_nil, List.length_nil, skip_zero]
      exact .nil
  | cons field rest induction =>
      rw [List.flatMap_cons, List.append_assoc] at stream
      have behind : (connection.skip field.values.length).stream =
          rest.flatMap MessageField.values ++ later := by
        rw [skip_stream, stream, List.drop_left]
      rw [List.flatMap_cons, List.length_append, ← skip_skip]
      cases field with
      | call values =>
          have received := taken_of_unbroken stream unbroken.1
          apply Delivers.call received
          rw [after_eq_skip, received]
          exact induction behind unbroken.2
      | loop values => exact .loop ⟨_, stream.symm⟩ (induction behind unbroken)

theorem Delivers.nil_eq {left : Incoming α} (delivers : Delivers [] connection left) :
    connection = left := by
  cases delivers
  rfl

theorem Delivers.stream_eq {left : Incoming α}
    (delivers : Delivers fields connection left) :
    connection.stream = fields.flatMap MessageField.values ++ left.stream := by
  induction delivers with
  | nil => rfl
  | @call values rest connection left received _ induction =>
      rw [after_eq_skip, received, skip_stream] at induction
      have front := connection.taken_eq_take values.length
      rw [received] at front
      have begins : values <+: connection.stream := front ▸ List.take_prefix _ _
      rw [List.flatMap_cons, List.append_assoc, ← induction, MessageField.values]
      exact (List.prefix_iff_eq_append.mp begins).symm
  | @loop values rest connection left received _ induction =>
      rw [skip_stream] at induction
      rw [List.flatMap_cons, List.append_assoc, ← induction, MessageField.values]
      exact (List.prefix_iff_eq_append.mp received).symm

theorem Delivers.append {first second : List (MessageField α)} {left : Incoming α}
    (delivers : Delivers (first ++ second) connection left) :
    ∃ middle, Delivers first connection middle ∧ Delivers second middle left := by
  induction first generalizing connection with
  | nil => exact ⟨connection, .nil, delivers⟩
  | cons field rest induction =>
      cases delivers with
      | call received later =>
          rcases induction later with ⟨middle, former, latter⟩
          exact ⟨middle, .call received former, latter⟩
      | loop received later =>
          rcases induction later with ⟨middle, former, latter⟩
          exact ⟨middle, .loop received former, latter⟩

end Incoming

end MetaDedup.Foundation
