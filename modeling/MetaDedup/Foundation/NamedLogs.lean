import Mathlib.Logic.Function.Basic

/-! # Catalogues over named logs

A catalogue maps keys to places in append-only logs. It is sound when every
place holds data whose digest is the key. Soundness survives any growth of the
logs, so a system that only appends never has to look back at what it stored. -/

namespace MetaDedup.Foundation

open Function

variable {α : Type u} {Name : Type v} {Key : Type w}

/-- The `size` elements of a log from `offset` on, if the log reaches that far. -/
def region (log : List α) (offset size : Nat) : Option (List α) :=
  if offset + size ≤ log.length then some ((log.drop offset).take size) else none

variable {data : List α}

theorem region_eq_some_iff {log : List α} {offset size : Nat} :
    region log offset size = some data ↔
      offset + size ≤ log.length ∧ (log.drop offset).take size = data := by
  simp [region]

theorem region_length {log : List α} {offset size : Nat}
    (found : region log offset size = some data) : data.length = size := by
  rcases region_eq_some_iff.mp found with ⟨inside, equal⟩
  rw [← equal, List.length_take, List.length_drop]
  omega

theorem region_of_isPrefix {log grown : List α} {offset size : Nat}
    (grows : log <+: grown) (found : region log offset size = some data) :
    region grown offset size = some data := by
  rcases region_eq_some_iff.mp found with ⟨inside, equal⟩
  rcases grows with ⟨added, rfl⟩
  rw [region_eq_some_iff, List.length_append]
  constructor
  · omega
  · rw [List.drop_append_of_le_length (by omega), List.take_append_of_le_length
      (by rw [List.length_drop]; omega), equal]

theorem region_append (log data : List α) :
    region (log ++ data) log.length data.length = some data := by
  simp [region]

structure Place (Name : Type v) where
  log : Name
  offset : Nat
  size : Nat

/-- Every place in the catalogue holds data with the right digest. -/
def Sound (digest : List α → Key) (catalogue : Key → Option (Place Name))
    (logs : Name → List α) : Prop :=
  ∀ key place, catalogue key = some place →
    ∃ data, region (logs place.log) place.offset place.size = some data ∧
      digest data = key

namespace Sound

variable {digest : List α → Key} {catalogue : Key → Option (Place Name)}
variable {logs grown : Name → List α}

theorem grow (sound : Sound digest catalogue logs)
    (grows : ∀ name, logs name <+: grown name) : Sound digest catalogue grown := by
  intro key place listed
  rcases sound key place listed with ⟨data, found, equal⟩
  exact ⟨data, region_of_isPrefix (grows place.log) found, equal⟩

theorem insert [DecidableEq Key] (sound : Sound digest catalogue logs)
    {place : Place Name} {data : List α}
    (found : region (logs place.log) place.offset place.size = some data) :
    Sound digest (update catalogue (digest data) (some place)) logs := by
  intro key other listed
  by_cases same : key = digest data
  · subst same
    rw [update_self, Option.some.injEq] at listed
    subst listed
    exact ⟨data, found, rfl⟩
  · rw [update_of_ne same] at listed
    exact sound key other listed

end Sound

/-! ## Logs without gaps -/

/-- The place is in this log and has this position. -/
def Place.Covers (place : Place Name) (name : Name) (position : Nat) : Prop :=
  place.log = name ∧ place.offset ≤ position ∧ position < place.offset + place.size

/-- Every position of every log is in the place of exactly one key. -/
def Tiled (catalogue : Key → Option (Place Name)) (logs : Name → List α) : Prop :=
  ∀ name position, position < (logs name).length →
    ∃! key, ∃ place, catalogue key = some place ∧ place.Covers name position

/-- Data appended under a new key. What is known of the other places is that they are
in the logs. -/
theorem Tiled.append [DecidableEq Key] [DecidableEq Name] {digest : List α → Key}
    {catalogue : Key → Option (Place Name)} {logs : Name → List α}
    (tiled : Tiled catalogue logs) (sound : Sound digest catalogue logs) {key : Key}
    (absent : catalogue key = none) (name : Name) (data : List α) :
    Tiled (update catalogue key (some ⟨name, (logs name).length, data.length⟩))
      (update logs name (logs name ++ data)) := by
  have within : ∀ {other place position}, catalogue other = some place →
      place.Covers name position → position < (logs name).length := by
    rintro other place position listed ⟨rfl, _, below⟩
    rcases sound other place listed with ⟨_, found, _⟩
    exact Nat.lt_of_lt_of_le below (region_eq_some_iff.mp found).1
  intro log position inside
  by_cases new : log = name ∧ (logs name).length ≤ position
  · rcases new with ⟨rfl, beyond⟩
    rw [update_self, List.length_append] at inside
    refine ⟨key, ⟨_, update_self _ _ _, rfl, beyond, inside⟩, ?_⟩
    rintro other ⟨place, listed, covers⟩
    by_contra different
    rw [update_of_ne different] at listed
    have below := within listed covers
    omega
  · have old : position < (logs log).length := by
      by_cases own : log = name
      · exact Nat.lt_of_not_le fun beyond => new ⟨own, own ▸ beyond⟩
      · rwa [update_of_ne own] at inside
    rcases tiled log position old with ⟨owner, ⟨place, listed, covers⟩, only⟩
    have different : owner ≠ key := by
      rintro rfl
      cases absent.symm.trans listed
    refine ⟨owner, ⟨place, by rw [update_of_ne different, listed], covers⟩, ?_⟩
    rintro other ⟨found, there, reaches⟩
    by_cases added : other = key
    · rw [added, update_self, Option.some.injEq] at there
      subst there
      rcases reaches with ⟨rfl, beyond, _⟩
      exact absurd ⟨rfl, beyond⟩ new
    · rw [update_of_ne added] at there
      exact only other ⟨found, there, reaches⟩

end MetaDedup.Foundation
