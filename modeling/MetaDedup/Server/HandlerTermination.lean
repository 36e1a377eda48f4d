import Mathlib.Logic.Relation
import MetaDedup.Server.SocketHandlers

/-! # When the handlers end

A handler ends when its peer does, provided that every loop that receives a number of
bytes the peer has announced finds them, and that the connection is closed and has not
failed. Where the bytes do not come the loop goes on for ever: a call that returns 0 does
not bring it forward, and one that returns -1 takes it back. -/

namespace MetaDedup.Server

open Foundation Wire

/-- The run of a handler comes to its end when its loops may make enough passes. -/
def Ends (run : Nat → Except (Interruption × Handler) Handler) : Prop :=
  ∃ passes handler, run passes = .ok handler

/-- A handler that holds the mutex is never in a loop on a connection that has nothing
left to receive. -/
def NeverWaitsLocked (run : Nat → Except (Interruption × Handler) Handler) : Prop :=
  ∀ passes handler, run passes = .error (.running, handler) →
    handler.memory.locked = true → handler.connection.available ≠ 0

/-! ## Receiving the rest of a request -/

namespace Intake

variable {intake : Intake}

theorem run_whole (enough : intake.size ≤ intake.handler.connection.available) :
    intake.run .whole =
      .ok ((intake.finish (intake.handler.connection.stream.take intake.size.toNat)
          intake.handler.memory).1,
        ⟨(intake.finish (intake.handler.connection.stream.take intake.size.toNat)
          intake.handler.memory).2, intake.handler.connection.skip intake.size.toNat⟩) := by
  rw [run, Receiver.whole, if_pos enough]

theorem run_loop (modest : Incoming.Modest intake.request) (passes : Nat)
    (enough : intake.size ≤ intake.handler.connection.available) :
    intake.run (.loop passes) = intake.run .whole ∨
      passes < intake.size.toNat ∧ ∃ stopped, intake.run (.loop passes) =
        .error (.running, stopped) ∧ stopped.connection.available ≠ 0 := by
  have all : intake.size - 0 ≤ intake.handler.connection.available := by omega
  rw [run_whole enough, run, Receiver.loop]
  rcases Incoming.receiveLoop_of_enough intake.retries modest all with
    ended | ⟨few, state, stopped, alive⟩
  · rw [ended, Int.sub_zero, List.nil_append]
    exact .inl rfl
  · rw [stopped]
    rw [Int.sub_zero] at few
    exact .inr ⟨few, _, rfl, alive⟩

private theorem enough_of_run {passes : Nat} {result : Next × Handler}
    (ended : intake.run (.loop passes) = .ok result) :
    intake.size ≤ intake.handler.connection.available := by
  rw [run, Receiver.loop] at ended
  split at ended
  · rename_i received
    have enough := Incoming.enough_of_receiveLoop _ received
    omega
  · cases ended
  · cases ended

end Intake

namespace Handler

/-! ## One pass -/

/-- The next pass of the main loop finds what it needs. On a connection with nothing left
to receive that is a connection that is closed. Otherwise the sizes in the request are not
negative where they must not be, and the bytes it announces are there. -/
structure Served (requests : Handler → Option Intake) (handler : Handler) : Prop where
  closed : handler.connection.available = 0 → handler.connection.ending = .closed
  complete : handler.connection.available ≠ 0 →
    ∃ intake, requests (handler.recv intSize) = some intake ∧
      intake.size ≤ intake.handler.connection.available

/-- What the requests of both handlers have in common. -/
structure Lawful (handler : Handler) (intake : Intake) : Prop where
  modest : Incoming.Modest intake.request
  shrinks : intake.handler.connection.available ≤ handler.connection.available
  ending : intake.handler.connection.ending = handler.connection.ending
  unlocked : handler.memory.locked = false → ∀ bytes,
    (intake.finish bytes intake.handler.memory).1 = .again →
      (intake.finish bytes intake.handler.memory).2.locked = false
  /-- Without anything to receive the sizes are the indicator, which is negative. -/
  dead : handler.connection.available = 0 →
    intake.size ≤ 0 ∧ ∀ bytes memory, (intake.finish bytes memory).1 = .again

/-- The handlers at the beginning of the passes of a main loop. -/
def Reached (requests : Handler → Option Intake) : Handler → Handler → Prop :=
  Relation.ReflTransGen fun handler after => handler.pass requests .whole = .ok (.again, after)

variable {requests : Handler → Option Intake} {handler : Handler}

theorem recv_of_dead (dead : handler.connection.available = 0) (size : Nat) :
    handler.recv size = handler := by
  rw [recv, Incoming.taken_of_dead dead, Incoming.after_of_dead dead,
    HandlerMemory.load]
  have same : handler.memory.buffer.write 0 [] = handler.memory.buffer := by
    funext position
    exact Buffer.write_outside _ (.inr (Nat.zero_le position))
  rw [same]

theorem recv_available_le (handler : Handler) (size : Nat) :
    (handler.recv size).connection.available ≤ handler.connection.available := by
  have left := handler.connection.after_available size
  have same : (handler.recv size).connection.available =
      (handler.connection.after size).available := rfl
  omega

theorem recv_available_lt (alive : handler.connection.available ≠ 0) :
    (handler.recv intSize).connection.available < handler.connection.available := by
  have left := handler.connection.after_available intSize
  have some : 0 < (handler.connection.taken intSize).length :=
    Incoming.taken_length_pos alive (by decide)
  have same : (handler.recv intSize).connection.available =
      (handler.connection.after intSize).available := rfl
  omega

theorem pass_of_alive (alive : handler.connection.available ≠ 0) (receiver : Receiver)
    {intake : Intake} (read : requests (handler.recv intSize) = some intake) :
    handler.pass requests receiver = intake.run receiver := by
  rw [pass, if_neg (Incoming.bytecount_ne_zero alive (by decide)), read]

theorem pass_of_closed (dead : handler.connection.available = 0)
    (closed : handler.connection.ending = .closed) (receiver : Receiver) :
    handler.pass requests receiver = .ok (.leave, handler) := by
  have count : handler.connection.bytecount intSize = 0 := by
    rw [Incoming.bytecount_of_dead dead, closed]
    rfl
  rw [pass, if_pos count, recv_of_dead dead]

variable (lawful : ∀ {handler intake}, requests handler = some intake → Lawful handler intake)
include lawful

theorem Served.pass_whole (served : Served requests handler) :
    ∃ next after, handler.pass requests .whole = .ok (next, after) ∧
      (next = .again → after.connection.available < handler.connection.available ∧
        (handler.memory.locked = false → after.memory.locked = false)) := by
  by_cases dead : handler.connection.available = 0
  · exact ⟨_, _, pass_of_closed dead (served.closed dead) .whole, fun again => by cases again⟩
  · rcases served.complete dead with ⟨intake, read, enough⟩
    refine ⟨_, _, (pass_of_alive dead .whole read).trans (Intake.run_whole enough), ?_⟩
    intro again
    have less := recv_available_lt dead
    have shrinks := (lawful read).shrinks
    have left := intake.handler.connection.skip_available intake.size.toNat
    constructor
    · dsimp only
      omega
    · intro unlocked
      exact (lawful read).unlocked unlocked _ again

theorem Served.pass_loop (served : Served requests handler) (passes : Nat) :
    handler.pass requests (.loop passes) = handler.pass requests .whole ∨
      passes < handler.connection.available ∧
        ∃ stopped, handler.pass requests (.loop passes) = .error (.running, stopped) ∧
          stopped.connection.available ≠ 0 := by
  by_cases dead : handler.connection.available = 0
  · rw [pass_of_closed dead (served.closed dead), pass_of_closed dead (served.closed dead)]
    exact .inl rfl
  · rcases served.complete dead with ⟨intake, read, enough⟩
    rw [pass_of_alive dead _ read, pass_of_alive dead _ read]
    have less := recv_available_lt dead
    have shrinks := (lawful read).shrinks
    rcases Intake.run_loop (lawful read).modest passes enough with same | ⟨few, stopped⟩
    · exact .inl same
    · exact .inr ⟨by omega, stopped⟩

private theorem mainLoop_of_failed (dead : handler.connection.available = 0)
    (failed : handler.connection.ending = .failed) (limit passes : Nat) (final : Handler) :
    handler.mainLoop requests (.loop limit) passes ≠ .ok final := by
  induction passes generalizing handler with
  | zero =>
      intro ended
      cases ended
  | succ passes induction =>
      have count : handler.connection.bytecount intSize ≠ 0 := by
        rw [Incoming.bytecount_of_dead dead, failed]
        decide
      rw [mainLoop, pass, if_neg count, recv_of_dead dead]
      cases read : requests handler with
      | none =>
          intro ended
          cases ended
      | some intake =>
          have shrinks := (lawful read).shrinks
          have ending := (lawful read).ending
          rcases (lawful read).dead dead with ⟨none, again⟩
          have enough : intake.size ≤ intake.handler.connection.available := by omega
          have few : ¬limit < intake.size.toNat := by omega
          rcases Intake.run_loop (lawful read).modest limit enough with same | ⟨less, _⟩
          · simp only [same, Intake.run_whole enough, again]
            apply induction
            · rw [Incoming.skip_available]
              omega
            · exact ending.trans failed
          · exact absurd less few

/-! ## Whole runs -/

variable {limit passes : Nat}

theorem served_of_mainLoop {final : Handler}
    (ended : handler.mainLoop requests (.loop limit) passes = .ok final) :
    Served requests handler := by
  constructor
  · intro dead
    cases ending : handler.connection.ending with
    | closed => rfl
    | failed => exact absurd ended (mainLoop_of_failed lawful dead ending limit passes final)
  · intro alive
    cases passes with
    | zero => cases ended
    | succ passes =>
        rw [mainLoop, pass, if_neg (Incoming.bytecount_ne_zero alive (by decide))] at ended
        cases read : requests (handler.recv intSize) with
        | none =>
            rw [read] at ended
            cases ended
        | some intake =>
            rw [read] at ended
            cases received : intake.run (.loop limit) with
            | error interrupted =>
                simp only [received] at ended
                cases ended
            | ok result => exact ⟨intake, rfl, Intake.enough_of_run received⟩

private theorem served_of_reached {final after : Handler}
    (ended : handler.mainLoop requests (.loop limit) passes = .ok final)
    (reached : Reached requests handler after) : Served requests after := by
  induction reached using Relation.ReflTransGen.head_induction_on generalizing passes with
  | refl => exact served_of_mainLoop lawful ended
  | head step _ induction =>
      have served := served_of_mainLoop lawful ended
      cases passes with
      | zero => cases ended
      | succ passes =>
          rw [mainLoop] at ended
          rcases served.pass_loop lawful limit with same | ⟨_, stopped, interrupted, _⟩
          · rw [same, step] at ended
            exact induction ended
          · rw [interrupted] at ended
            cases ended

private theorem mainLoop_ends
    (served : ∀ after, Reached requests handler after → Served requests after)
    (allowed : handler.connection.available ≤ limit)
    (enough : handler.connection.available < passes) :
    ∃ final, handler.mainLoop requests (.loop limit) passes = .ok final := by
  induction passes generalizing handler with
  | zero => omega
  | succ passes induction =>
      have here := served handler .refl
      rcases here.pass_whole lawful with ⟨next, after, passed, shrinks⟩
      have looped : handler.pass requests (.loop limit) = .ok (next, after) := by
        rcases here.pass_loop lawful limit with same | ⟨few, _⟩
        · exact same.trans passed
        · omega
      rw [mainLoop, looped]
      cases next with
      | leave => exact ⟨after, rfl⟩
      | again =>
          have less := (shrinks rfl).1
          exact induction (fun later reached => served later (.head passed reached))
            (by omega) (by omega)

/-- If every handler that is reached finds what it needs the mutex is not held while there
is nothing left to receive. -/
theorem mainLoop_neverWaitsLocked
    (served : ∀ after, Reached requests handler after → Served requests after)
    (unlocked : handler.memory.locked = false) {stopped : Handler}
    (interrupted : handler.mainLoop requests (.loop limit) passes = .error (.running, stopped))
    (locked : stopped.memory.locked = true) : stopped.connection.available ≠ 0 := by
  induction passes generalizing handler with
  | zero =>
      cases interrupted
      cases unlocked.symm.trans locked
  | succ passes induction =>
      have here := served handler .refl
      rcases here.pass_whole lawful with ⟨next, after, passed, shrinks⟩
      rw [mainLoop] at interrupted
      rcases here.pass_loop lawful limit with same | ⟨_, inside, waiting, alive⟩
      · rw [same, passed] at interrupted
        cases next with
        | leave => cases interrupted
        | again =>
            exact induction (fun later reached => served later (.head passed reached))
              ((shrinks rfl).2 unlocked) interrupted
      · rw [waiting] at interrupted
        cases interrupted
        exact alive

/-- A handler ends, and does not wait under the mutex, exactly if every pass of its main
loop finds what it needs. -/
theorem ends_iff_served (unlocked : handler.memory.locked = false) :
    (Ends (fun passes => handler.mainLoop requests (.loop passes) passes) ∧
        NeverWaitsLocked fun passes => handler.mainLoop requests (.loop passes) passes) ↔
      ∀ after, Reached requests handler after → Served requests after := by
  constructor
  · rintro ⟨⟨passes, final, ended⟩, _⟩ after reached
    exact served_of_reached lawful ended reached
  · intro served
    constructor
    · have enough : handler.connection.available < handler.connection.available + 1 :=
        Nat.lt_succ_self _
      rcases mainLoop_ends lawful served (Nat.le_of_lt enough) enough with ⟨final, ended⟩
      exact ⟨_, final, ended⟩
    · intro passes stopped interrupted locked
      exact mainLoop_neverWaitsLocked lawful served unlocked interrupted locked

omit lawful

/-! ## The requests -/

private theorem modest_recipeRequest : Incoming.Modest recipeRequest := by
  intro missing some
  have positive : 0 < fileRecipeEntrySize * 1000 := Nat.mul_pos (by decide) (by decide)
  unfold recipeRequest
  generalize fileRecipeEntrySize * 1000 = limit at positive ⊢
  split
  · rename_i many
    exact ⟨positive, many⟩
  · exact ⟨some, Nat.le_refl _⟩

theorem afterName_available_le (handler : Handler) :
    handler.afterName.connection.available ≤ handler.connection.available := by
  have left := handler.connection.after_available handler.word.toNat
  have same : handler.afterName.connection.available =
      (handler.connection.after handler.word.toNat).available := rfl
  omega

variable {environment : Environment} {intake : Intake}

private theorem keyRecipe_lawful (indicator : handler.word = keyRecipeIndicator)
    (read : handler.keyRecipe environment = some intake) : Lawful handler intake := by
  rw [keyRecipe] at read
  split at read
  · cases read
  · rename_i positive
    cases read
    have first := recv_available_le handler intSize
    have second := recv_available_le (handler.recv intSize) intSize
    have third := afterName_available_le ((handler.recv intSize).recv intSize)
    constructor
    · exact Incoming.modest_id
    · exact third.trans (second.trans first)
    · rfl
    · intro unlocked _ _
      exact unlocked
    · intro dead
      rw [recv_of_dead dead, indicator] at positive
      exact absurd (.inl (by decide)) positive

private theorem getKeyRecipe_lawful (indicator : handler.word = getKeyRecipeIndicator)
    (read : handler.getKeyRecipe environment = some intake) : Lawful handler intake := by
  rw [getKeyRecipe] at read
  split at read
  · cases read
  · rename_i positive
    cases read
    have first := recv_available_le handler intSize
    have second := afterName_available_le (handler.recv intSize)
    constructor
    · exact Incoming.modest_id
    · exact second.trans first
    · rfl
    · intro unlocked _ _
      dsimp only
      split
      · exact unlocked
      · exact unlocked
    · intro dead
      rw [recv_of_dead dead, indicator] at positive
      exact absurd (by decide) positive

private theorem fileRecipe_lawful (indicator : handler.word = fileRecipeIndicator)
    (read : handler.fileRecipe environment = some intake) : Lawful handler intake := by
  rw [fileRecipe] at read
  dsimp only at read
  split at read
  · cases read
  · rename_i positive
    cases read
    let locked : Handler := { handler with memory := handler.memory.lockMutex }
    have first := recv_available_le locked intSize
    have second := recv_available_le (locked.recv intSize) intSize
    have third := afterName_available_le ((locked.recv intSize).recv intSize)
    have fourth := ((locked.recv intSize).recv intSize).afterName.connection.after_available
      fileRecipeHeadSize
    constructor
    · exact modest_recipeRequest
    · exact (Nat.le_of_add_right_le (Nat.le_of_eq fourth)).trans
        (third.trans (second.trans first))
    · rfl
    · intro _ _ again
      cases again
    · intro dead
      have gone : locked.connection.available = 0 := dead
      have same : (locked.recv intSize).recv intSize = locked := by
        rw [recv_of_dead gone, recv_of_dead gone]
      rw [same] at positive
      have negative : locked.word < 0 := by
        rw [show locked.word = fileRecipeIndicator from indicator]
        decide
      exact absurd negative positive

theorem sized_lawful (negative : handler.word < 0)
    {finish : List Byte → HandlerMemory → HandlerMemory}
    (unlocked : ∀ bytes memory, memory.locked = false → (finish bytes memory).locked = false) :
    Lawful handler
      { handler := handler.recv intSize
        size := (handler.recv intSize).word
        finish := fun bytes memory => (.again, finish bytes memory) } := by
  constructor
  · exact Incoming.modest_id
  · exact recv_available_le handler intSize
  · rfl
  · intro free bytes _
    exact unlocked bytes _ free
  · intro dead
    dsimp only
    rw [recv_of_dead dead]
    exact ⟨by omega, fun _ _ => rfl⟩

theorem receiveMetadata_lawful (indicator : handler.word = metaIndicator)
    (read : handler.receiveMetadata environment = some intake) : Lawful handler intake := by
  cases read
  exact sized_lawful (by rw [indicator]; decide) fun _ _ free => free

theorem receiveShareData_lawful (indicator : handler.word = dataIndicator)
    (read : handler.receiveShareData = some intake) : Lawful handler intake := by
  cases read
  exact sized_lawful (by rw [indicator]; decide) fun _ _ free => free

private theorem downloadMetadata_lawful (indicator : handler.word = downloadIndicator)
    (read : handler.downloadMetadata = some intake) : Lawful handler intake := by
  cases read
  exact sized_lawful (by rw [indicator]; decide) fun _ _ free => free

private theorem downloadData_lawful (indicator : handler.word = downloadIndicator)
    (read : handler.downloadData = some intake) : Lawful handler intake := by
  rw [downloadData] at read
  split at read
  · cases read
  · cases read
    exact sized_lawful (by rw [indicator]; decide) fun _ _ _ => rfl

theorem unknownRequest_lawful (read : handler.unknownRequest = some intake) :
    Lawful handler intake := by
  cases read
  constructor
  · exact Incoming.modest_id
  · exact Nat.le_refl _
  · rfl
  · exact fun unlocked _ _ => unlocked
  · exact fun _ => ⟨Int.le_refl 0, fun _ _ => rfl⟩

theorem dispatch_lawful {indicator : Int} {request others : Option Intake}
    (own : handler.word = indicator → request = some intake → Lawful handler intake)
    (rest : others = some intake → Lawful handler intake)
    (read : (if handler.word = indicator then request else others) = some intake) :
    Lawful handler intake := by
  split at read
  next same => exact own same read
  next => exact rest read

theorem metaRequest_lawful (read : handler.metaRequest environment = some intake) :
    Lawful handler intake := by
  rw [metaRequest] at read
  refine dispatch_lawful keyRecipe_lawful (dispatch_lawful getKeyRecipe_lawful ?_) read
  refine dispatch_lawful fileRecipe_lawful (dispatch_lawful receiveMetadata_lawful ?_)
  exact dispatch_lawful receiveShareData_lawful
    (dispatch_lawful downloadMetadata_lawful unknownRequest_lawful)

theorem dataRequest_lawful (read : handler.dataRequest environment = some intake) :
    Lawful handler intake := by
  rw [dataRequest] at read
  refine dispatch_lawful receiveMetadata_lawful (dispatch_lawful receiveShareData_lawful ?_)
    read
  exact dispatch_lawful downloadData_lawful unknownRequest_lawful

end Handler

end MetaDedup.Server
