import Mathlib.Data.List.Basic

/-! # A cache of recently used values

A cache keeps the values of the keys that were used last, most recent first. Looking up
a key moves it to the front; a key that is not there is loaded and takes the place of
the one that was used longest ago. As long as what is loaded does not change, looking
up a key in the cache is the same as loading it. -/

namespace MetaDedup.Foundation

variable {Key : Type u} {Value : Type v}

namespace RecentCache

/-- Look up a key. The result is `none` when the key is not cached and cannot be
loaded. -/
def fetch [DecidableEq Key] (capacity : Nat) (load : Key → Option Value)
    (cache : List (Key × Value)) (key : Key) : Option (Value × List (Key × Value)) :=
  match cache.find? fun cached => cached.1 = key with
  | some cached => some (cached.2, cached :: cache.eraseP fun other => other.1 = key)
  | none =>
      (load key).map fun value =>
        (value, (key, value) :: if cache.length < capacity then cache else cache.dropLast)

/-- Everything in the cache is what would be loaded. -/
def Faithful (load : Key → Option Value) (cache : List (Key × Value)) : Prop :=
  ∀ cached ∈ cache, load cached.1 = some cached.2

variable {load : Key → Option Value} {cache : List (Key × Value)}

theorem Faithful.nil : Faithful load [] := by
  intro cached member
  cases member

theorem Faithful.fetch [DecidableEq Key] (faithful : Faithful load cache) (capacity : Nat)
    (key : Key) :
    (load key = none ∧ fetch capacity load cache key = none) ∨
      ∃ value next, load key = some value ∧
        fetch capacity load cache key = some (value, next) ∧ Faithful load next := by
  rw [RecentCache.fetch]
  cases found : cache.find? fun cached => cached.1 = key with
  | some cached =>
      have member := List.mem_of_find?_eq_some found
      have equal : cached.1 = key := by simpa using List.find?_some found
      refine .inr ⟨cached.2, _, equal ▸ faithful cached member, rfl, ?_⟩
      intro other listed
      rcases List.mem_cons.mp listed with same | kept
      · rw [same]
        exact faithful cached member
      · exact faithful other (List.mem_of_mem_eraseP kept)
  | none =>
      cases loaded : load key with
      | none => exact .inl ⟨rfl, rfl⟩
      | some value =>
          refine .inr ⟨value, _, rfl, rfl, ?_⟩
          intro other listed
          rcases List.mem_cons.mp listed with same | kept
          · rw [same]
            exact loaded
          · split at kept
            · exact faithful other kept
            · exact faithful other ((List.dropLast_sublist cache).subset kept)

end RecentCache

end MetaDedup.Foundation
