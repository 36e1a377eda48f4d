import Mathlib.Logic.Function.Iterate
import Mathlib.Tactic.Ring

/-! # Names of container and recipe files

Container and recipe files are named by twelve letters and a suffix. A process
keeps one global name for each kind of file, hands it to a buffer node and steps
it to the next name. Both kinds live in directories of their own, so the suffix
is left out. -/

namespace MetaDedup.Server

/-- The letters of a file name, `0` for 'a' up to `25` for 'z'. -/
abbrev InternalFileName := List (Fin 26)

/-- The number of letters in a name (`shareContainerNameValidLen_` and
`recipeFileNameValidLen_`). -/
def fileNameValidLen : Nat := 12

/-- The next name in lexicographic order; `none` after the last one. The trailing
'z's go back to 'a' and the letter before them is incremented. -/
def incrGlobalFileName : InternalFileName → Option InternalFileName
  | [] => none
  | letter :: rest =>
      match incrGlobalFileName rest with
      | some next => some (letter :: next)
      | none =>
          if below : letter.val < 25 then
            some (⟨letter.val + 1, by omega⟩ :: List.replicate rest.length 0)
          else none

namespace InternalFileName

def ordinal : InternalFileName → Nat
  | [] => 0
  | letter :: rest => letter.val * 26 ^ rest.length + ordinal rest

theorem ordinal_replicate_zero (count : Nat) :
    ordinal (List.replicate count 0) = 0 := by
  induction count with
  | zero => rfl
  | succ count induction =>
      simp [List.replicate_succ, ordinal, induction]

variable {name : InternalFileName}

theorem incrGlobalFileName_none (last : incrGlobalFileName name = none) :
    ordinal name + 1 = 26 ^ name.length := by
  induction name with
  | nil => rfl
  | cons letter rest induction =>
      rw [incrGlobalFileName] at last
      cases carried : incrGlobalFileName rest with
      | some next => simp [carried] at last
      | none =>
          simp only [carried, dite_eq_right_iff, reduceCtorEq, imp_false] at last
          have letterZ : letter.val = 25 := by omega
          have restZ := induction carried
          rw [ordinal, letterZ, List.length_cons, pow_succ]
          omega

private theorem incrGlobalFileName_some {next : InternalFileName}
    (stepped : incrGlobalFileName name = some next) :
    ordinal next = ordinal name + 1 ∧ next.length = name.length := by
  induction name generalizing next with
  | nil => simp [incrGlobalFileName] at stepped
  | cons letter rest induction =>
      rw [incrGlobalFileName] at stepped
      cases carried : incrGlobalFileName rest with
      | some nextRest =>
          simp only [carried, Option.some.injEq] at stepped
          rcases induction carried with ⟨value, size⟩
          subst stepped
          simp only [ordinal, size, value, List.length_cons, and_true]
          omega
      | none =>
          simp only [carried, Option.dite_none_right_eq_some, Option.some.injEq]
            at stepped
          rcases stepped with ⟨_, equal⟩
          subst equal
          have restZ := incrGlobalFileName_none carried
          simp only [ordinal, ordinal_replicate_zero, List.length_replicate,
            List.length_cons, and_true]
          rw [add_mul, one_mul]
          omega

/-- What the global name becomes: the return value of `incrGlobalFileName_` is
ignored, and a name that cannot be stepped stays as it is. -/
def successor (name : InternalFileName) : InternalFileName :=
  (incrGlobalFileName name).getD name

/-- The name 'aaaaaaaaaaaa' a process starts with. -/
def first : InternalFileName := List.replicate fileNameValidLen 0

def drawnName (count : Nat) : InternalFileName := successor^[count] first

theorem drawnName_succ (count : Nat) :
    drawnName (count + 1) = successor (drawnName count) :=
  Function.iterate_succ_apply' successor count first

private theorem ordinal_drawnName {count : Nat} (bounded : count < 26 ^ fileNameValidLen) :
    ordinal (drawnName count) = count ∧
      (drawnName count).length = fileNameValidLen := by
  induction count with
  | zero => exact ⟨ordinal_replicate_zero _, List.length_replicate⟩
  | succ count induction =>
      rcases induction (by omega) with ⟨value, size⟩
      rw [drawnName_succ, successor]
      cases stepped : incrGlobalFileName (drawnName count) with
      | none =>
          have last := incrGlobalFileName_none stepped
          rw [value, size] at last
          omega
      | some next =>
          rcases incrGlobalFileName_some stepped with ⟨nextValue, nextSize⟩
          simp only [Option.getD_some]
          exact ⟨by rw [nextValue, value], by rw [nextSize, size]⟩

private theorem drawnName_injective {left right : Nat} (leftBounded : left < 26 ^ fileNameValidLen)
    (rightBounded : right < 26 ^ fileNameValidLen)
    (equal : drawnName left = drawnName right) : left = right := by
  rw [← (ordinal_drawnName leftBounded).1, equal, (ordinal_drawnName rightBounded).1]

end InternalFileName

open InternalFileName

/-- A global file name together with the number of names drawn from it, which
determines it. -/
structure GlobalFileName where
  name : InternalFileName
  drawn : Nat
  reached : name = drawnName drawn

namespace GlobalFileName

def initial : GlobalFileName := ⟨first, 0, rfl⟩

/-- Hand out the current name and step to the next. -/
def draw (global : GlobalFileName) : InternalFileName × GlobalFileName :=
  (global.name,
    ⟨successor global.name, global.drawn + 1, by
      rw [global.reached, drawnName_succ]⟩)

@[simp] theorem draw_drawn (global : GlobalFileName) :
    global.draw.2.drawn = global.drawn + 1 := rfl

def Issued (global : GlobalFileName) (name : InternalFileName) : Prop :=
  ∃ count < global.drawn, name = drawnName count

variable {global : GlobalFileName} {name : InternalFileName}

theorem Issued.draw (issued : global.Issued name) : global.draw.2.Issued name := by
  rcases issued with ⟨count, below, equal⟩
  exact ⟨count, Nat.lt_succ_of_lt below, equal⟩

theorem issued_draw_self (global : GlobalFileName) :
    global.draw.2.Issued global.draw.1 :=
  ⟨global.drawn, Nat.lt_succ_self _, global.reached⟩

theorem draw_fresh (global : GlobalFileName) (left : global.drawn < 26 ^ fileNameValidLen) :
    ¬global.Issued global.draw.1 := by
  intro issued
  rcases issued with ⟨count, below, equal⟩
  have same : global.drawn = count :=
    drawnName_injective left (by omega) (global.reached.symm.trans equal)
  omega

end GlobalFileName

end MetaDedup.Server
