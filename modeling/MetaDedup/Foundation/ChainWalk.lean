import MetaDedup.Foundation.Loop

/-! # Walks along a chain of positions

A loop goes from one position of a memory to the next until it is past a limit. What a
pass finds at a position says where the next one is, so the loop may go back, go on
for ever, or come to a position it cannot work on. -/

namespace MetaDedup.Foundation

universe u v

/-- Why a computation stops without a value. -/
inductive Halt (ε : Type v) where
  /-- It returns early. -/
  | leaves
  | fault (reason : ε)
  /-- It has not come to an end with the fuel it was given. -/
  | running
  deriving DecidableEq, Repr

namespace Halt

variable {ε : Type v} {α β : Type u} {post : α → Prop} {left : Prop}

/-- The computation ends, with a value that meets `post` or, where `left` holds, by
returning early. -/
def Ends (result : Except (Halt ε) α) (post : α → Prop) (left : Prop) : Prop :=
  match result with
  | .ok value => post value
  | .error .leaves => left
  | .error _ => False

/-- If the computation ends, then as in `Ends`. -/
def IfEnds (result : Except (Halt ε) α) (post : α → Prop) (left : Prop) : Prop :=
  match result with
  | .ok value => post value
  | .error .leaves => left
  | .error _ => True

@[simp] theorem ends_ok (value : α) :
    Ends (.ok value : Except (Halt ε) α) post left ↔ post value := Iff.rfl

@[simp] theorem ends_leaves : Ends (.error .leaves : Except (Halt ε) α) post left ↔ left :=
  Iff.rfl

@[simp] theorem ends_fault (reason : ε) :
    ¬ Ends (.error (.fault reason) : Except (Halt ε) α) post left := id

@[simp] theorem ends_running : ¬ Ends (.error .running : Except (Halt ε) α) post left := id

theorem ends_error_iff (halt : Halt ε) :
    Ends (.error halt : Except (Halt ε) α) post left ↔ halt = .leaves ∧ left := by
  cases halt <;> simp

variable {first : Except (Halt ε) α}

theorem ends_ite {condition : Prop} [Decidable condition] {second : Except (Halt ε) α}
    (holds : Ends first post left) (fails : Ends second post left) :
    Ends (if condition then first else second) post left := by
  by_cases decided : condition
  · rw [if_pos decided]
    exact holds
  · rw [if_neg decided]
    exact fails

variable {result : Except (Halt ε) α} {weaker : α → Prop} {weakerLeft : Prop}

theorem Ends.imp (ends : Ends result post left) (values : ∀ value, post value → weaker value)
    (early : left → weakerLeft) : Ends result weaker weakerLeft := by
  cases result with
  | ok value => exact values value ends
  | error halt =>
      cases halt with
      | leaves => exact early ends
      | fault reason => exact ends
      | running => exact ends

theorem IfEnds.imp (ends : IfEnds result post left) (values : ∀ value, post value → weaker value)
    (early : left → weakerLeft) : IfEnds result weaker weakerLeft := by
  cases result with
  | ok value => exact values value ends
  | error halt =>
      cases halt with
      | leaves => exact early ends
      | fault reason => exact ends
      | running => exact ends

variable {next : α → Except (Halt ε) β}

theorem ends_bind_iff {post : β → Prop} :
    Ends (first >>= next) post left ↔
      Ends first (fun value => Ends (next value) post left) left := by
  cases first with
  | ok value => exact Iff.rfl
  | error halt => cases halt <;> exact Iff.rfl

theorem ifEnds_bind_iff {post : β → Prop} :
    IfEnds (first >>= next) post left ↔
      IfEnds first (fun value => IfEnds (next value) post left) left := by
  cases first with
  | ok value => exact Iff.rfl
  | error halt => cases halt <;> exact Iff.rfl

theorem Ends.meets (ends : Ends result post left) (meets : IfEnds result weaker weakerLeft) :
    Ends result (fun value => post value ∧ weaker value) (left ∧ weakerLeft) := by
  cases result with
  | ok value => exact ⟨ends, meets⟩
  | error halt =>
      cases halt with
      | leaves => exact ⟨ends, meets⟩
      | fault reason => exact ends
      | running => exact ends

end Halt

/-! ## The loop -/

section Walk

variable {ε : Type v} {σ : Type u}

/-- Visit positions until one is not below the limit. A visit returns the position to
go on from. -/
def walk (limit : Int) (visit : σ → Int → Except (Halt ε) (σ × Int)) :
    (fuel : Nat) → σ → Int → Except (Halt ε) σ
  | 0, _, _ => .error .running
  | fuel + 1, state, position =>
      if position < limit then do
        let reached ← visit state position
        walk limit visit fuel reached.1 reached.2
      else .ok state

/-- From the position on, every position up to the limit fits, and there are finitely
many of them. A chain may break off where the walk leaves early. -/
inductive Chain (limit : Int) (Fits Leaves : Int → Prop) (next : Int → Int) : Int → Prop
  | past {position : Int} (reached : limit ≤ position) : Chain limit Fits Leaves next position
  | link {position : Int} (fits : Fits position)
      (rest : ¬ Leaves position → Chain limit Fits Leaves next (next position)) :
      Chain limit Fits Leaves next position

variable {limit : Int} {Fits Leaves : Int → Prop} {next : Int → Int}
variable {visit : σ → Int → Except (Halt ε) (σ × Int)}

variable {position : Int}

theorem Chain.imp {Fits' Leaves' : Int → Prop} {next' : Int → Int}
    (fits : ∀ position, Fits position → Fits' position)
    (leaves : ∀ position, Leaves position → Leaves' position)
    (same : ∀ position, Fits position → next' position = next position)
    (chain : Chain limit Fits Leaves next position) :
    Chain limit Fits' Leaves' next' position := by
  induction chain with
  | past reached => exact .past reached
  | link holds rest induction =>
      refine .link (fits _ holds) fun stays => ?_
      rw [same _ holds]
      exact induction fun left => stays (leaves _ left)

theorem walk_ends (safe : ∀ state position, position < limit → Fits position →
      Halt.Ends (visit state position)
        (fun visited => ¬ Leaves position ∧ visited.2 = next position) True)
    (chain : Chain limit Fits Leaves next position) (state : σ) :
    ∃ fuel, Halt.Ends (walk limit visit fuel state position) (fun _ => True) True := by
  induction chain generalizing state with
  | @past position reached =>
      refine ⟨1, ?_⟩
      rw [walk, if_neg (by omega)]
      trivial
  | @link position fits rest induction =>
      by_cases below : position < limit
      · have visited := safe state position below fits
        cases result : visit state position with
        | ok reached =>
            rw [result] at visited
            rcases visited with ⟨stays, same⟩
            rcases induction stays reached.1 with ⟨fuel, ends⟩
            refine ⟨fuel + 1, ?_⟩
            rw [walk, if_pos below, result, Loop.ok_bind, same]
            exact ends
        | error halt =>
            rw [result] at visited
            refine ⟨1, ?_⟩
            rw [walk, if_pos below, result, Loop.error_bind, Halt.ends_error_iff]
            exact (Halt.ends_error_iff halt).mp visited
      · refine ⟨1, ?_⟩
        rw [walk, if_neg below]
        trivial

/-- A walk that ends has gone along a chain, if a visit of a position that does not fit
fails. -/
theorem chain_of_walk_ends (faithful : ∀ state position, position < limit →
      Halt.IfEnds (visit state position)
        (fun visited => Fits position ∧ visited.2 = next position)
        (Fits position ∧ Leaves position))
    {fuel : Nat} {state : σ}
    (ends : Halt.Ends (walk limit visit fuel state position) (fun _ => True) True) :
    Chain limit Fits Leaves next position := by
  induction fuel generalizing state position with
  | zero => exact absurd ends Halt.ends_running
  | succ fuel induction =>
      by_cases below : position < limit
      · rw [walk, if_pos below, Halt.ends_bind_iff] at ends
        have visited := ends.meets (faithful state position below)
        cases result : visit state position with
        | ok reached =>
            rw [result] at visited
            rcases visited with ⟨later, fits, same⟩
            refine .link fits fun _ => ?_
            rw [← same]
            exact induction later
        | error halt =>
            rw [result] at visited
            cases halt with
            | leaves =>
                rcases visited with ⟨_, fits, leaves⟩
                exact .link fits fun stays => absurd leaves stays
            | fault reason => exact absurd visited (Halt.ends_fault reason)
            | running => exact absurd visited Halt.ends_running
      · exact .past (by omega)

end Walk

end MetaDedup.Foundation
