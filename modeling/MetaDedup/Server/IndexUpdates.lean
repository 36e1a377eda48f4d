import MetaDedup.Server.MinDedupCore
import MetaDedup.Server.ReferenceCounts

/-! # Well-formed share index values

Every user has one reference entry at most in a value of the share index, and the entry
counts something. The stages keep this whatever the sizes of the shares are, and the
reference they add is the one of the user. -/

namespace MetaDedup.Server

open Foundation Function

namespace ShareIndexValue

def users (value : ShareIndexValue) : List Int :=
  value.userRefs.map ShareUserRefEntry.userID

/-- The announced number of entries is right, and every user has one entry at most, which
counts something. -/
structure WellFormed (value : ShareIndexValue) : Prop where
  counted : value.Counted
  distinct : value.users.Nodup
  positive : ∀ ref ∈ value.userRefs, 0 < ref.refCnt

variable {value : ShareIndexValue}

theorem Counted.ownerPosition_isSome (counted : value.Counted)
    (userID : Int) : (value.ownerPosition userID).isSome ↔ userID ∈ value.users := by
  rw [counted.ownerPosition, List.findIdx?_isSome, List.any_eq_true, users, List.mem_map]
  simp only [beq_iff_eq]

theorem modify_refCnt (refs : List ShareUserRefEntry) (position : Nat) :
    (refs.modify position fun ref => { ref with refCnt := ref.refCnt + 1 }).map
        ShareUserRefEntry.userID = refs.map ShareUserRefEntry.userID ∧
      ((∀ ref ∈ refs, 0 < ref.refCnt) →
        ∀ ref ∈ refs.modify position fun ref => { ref with refCnt := ref.refCnt + 1 },
          0 < ref.refCnt) := by
  induction refs generalizing position with
  | nil =>
      rw [List.modify_nil]
      exact ⟨rfl, fun positive => positive⟩
  | cons first rest induction =>
      cases position with
      | zero =>
          refine ⟨rfl, fun positive => List.forall_mem_cons.mpr ⟨Nat.succ_pos _, ?_⟩⟩
          exact (List.forall_mem_cons.mp positive).2
      | succ position =>
          rcases induction position with ⟨same, kept⟩
          rw [List.modify_succ_cons, List.map_cons, List.map_cons, same]
          refine ⟨rfl, fun positive => List.forall_mem_cons.mpr ⟨?_, ?_⟩⟩
          · exact (List.forall_mem_cons.mp positive).1
          · exact kept (List.forall_mem_cons.mp positive).2

theorem addReference_users (counted : value.Counted) (userID : Int) :
    (value.addReference userID).users =
      if userID ∈ value.users then value.users else value.users ++ [userID] := by
  have owner := counted.ownerPosition_isSome userID
  rw [addReference]
  cases found : value.ownerPosition userID with
  | some position =>
      rw [found] at owner
      rw [if_pos (owner.mp rfl)]
      exact (modify_refCnt value.userRefs position).1
  | none =>
      rw [found] at owner
      rw [if_neg fun member => Bool.false_ne_true (owner.mpr member)]
      exact List.map_append

theorem WellFormed.addReference (wellFormed : value.WellFormed)
    (userID : Int) : (value.addReference userID).WellFormed where
  counted := (addReference_refCount wellFormed.counted userID 0).1
  distinct := by
    rw [addReference_users wellFormed.counted]
    split
    next => exact wellFormed.distinct
    next absent =>
      rw [List.nodup_append]
      refine ⟨wellFormed.distinct, List.nodup_singleton _, ?_⟩
      intro user member other single
      rw [List.mem_singleton.mp single]
      intro equal
      exact absent (equal ▸ member)
  positive := by
    rw [ShareIndexValue.addReference]
    cases value.ownerPosition userID with
    | some position => exact (modify_refCnt value.userRefs position).2 wellFormed.positive
    | none =>
        intro ref member
        rcases List.mem_append.mp member with old | new
        · exact wellFormed.positive ref old
        · rw [List.mem_singleton.mp new]
          exact Nat.one_pos

theorem WellFormed.refCount_of_mem (wellFormed : value.WellFormed)
    {ref : ShareUserRefEntry} (member : ref ∈ value.userRefs) :
    value.refCount ref.userID = ref.refCnt := by
  have found : value.userRefs.find? (fun other => other.userID == ref.userID) = some ref := by
    have distinct := wellFormed.distinct
    rw [users] at distinct
    generalize value.userRefs = refs at member distinct
    induction refs with
    | nil => cases member
    | cons first rest induction =>
        rw [List.map_cons, List.nodup_cons] at distinct
        rw [List.find?_cons]
        rcases List.mem_cons.mp member with same | later
        · rw [same, beq_self_eq_true]
        · have different : first.userID ≠ ref.userID := fun equal =>
            distinct.1 (equal ▸ List.mem_map_of_mem later)
          rw [beq_false_of_ne different]
          exact induction later distinct.2
  rw [refCount, wellFormed.counted.reference, found]
  rfl

theorem WellFormed.mem_users_iff (wellFormed : value.WellFormed)
    (userID : Int) : userID ∈ value.users ↔ 0 < value.refCount userID := by
  constructor
  · intro member
    rcases List.mem_map.mp member with ⟨ref, there, own⟩
    rw [← own, wellFormed.refCount_of_mem there]
    exact wellFormed.positive ref there
  · intro positive
    rw [refCount, wellFormed.counted.reference] at positive
    cases found : value.userRefs.find? fun ref => ref.userID == userID with
    | none =>
        rw [found] at positive
        exact absurd positive (Nat.lt_irrefl 0)
    | some ref =>
        have own : ref.userID = userID := by
          simpa using List.find?_some found
        rw [← own]
        exact List.mem_map_of_mem (List.mem_of_find?_eq_some found)

end ShareIndexValue

namespace ShareStore

variable {store next : ShareStore} {shareFP : Fingerprint} {userID : Int}

def WellFormed (store : ShareStore) : Prop :=
  ∀ shareFP value, store.shareIndex shareFP = some value → value.WellFormed

theorem WellFormed.counted (wellFormed : store.WellFormed) : store.Counted :=
  fun shareFP value found => (wellFormed shareFP value found).counted

theorem WellFormed.of_index_eq (wellFormed : store.WellFormed) {other : ShareStore}
    (same : other.shareIndex = store.shareIndex) : other.WellFormed := by
  rw [WellFormed, same]
  exact wellFormed

theorem WellFormed.refCount_of_mem (wellFormed : store.WellFormed) {value : ShareIndexValue}
    (found : store.shareIndex shareFP = some value) {ref : ShareUserRefEntry}
    (member : ref ∈ value.userRefs) : store.refCount shareFP ref.userID = ref.refCnt := by
  rw [ShareStore.refCount, found, Option.map_some, Option.getD_some]
  exact (wellFormed shareFP value found).refCount_of_mem member

theorem WellFormed.exists_entry_iff (wellFormed : store.WellFormed) (shareFP : Fingerprint)
    (user : Int) :
    (∃ value, store.shareIndex shareFP = some value ∧
      ∃ ref ∈ value.userRefs, ref.userID = user) ↔ 0 < store.refCount shareFP user := by
  rw [ShareStore.refCount]
  cases found : store.shareIndex shareFP with
  | none => simp
  | some value =>
      rw [Option.map_some, Option.getD_some,
        ← (wellFormed shareFP value found).mem_users_iff, ShareIndexValue.users, List.mem_map]
      simp only [Option.some.injEq, exists_eq_left']

theorem newShareValue_wellFormed (buffer : ShareContainerBuffer) (userID : Int)
    (shareSize : Nat) : (newShareValue buffer userID shareSize).WellFormed where
  counted := rfl
  distinct := List.nodup_singleton _
  positive := by
    intro ref member
    rw [List.mem_singleton.mp member]
    exact Nat.one_pos

namespace AddsReference

theorem wellFormed (adds : store.AddsReference shareFP userID next)
    (wellFormed : store.WellFormed) : next.WellFormed := by
  have updated : ∀ value : ShareIndexValue, value.WellFormed →
      next.shareIndex = update store.shareIndex shareFP (some value) →
      next.WellFormed := by
    intro value own same other listed there
    rw [same] at there
    rcases put_listed there with rfl | old
    · exact own
    · exact wellFormed other listed old
  rcases adds with ⟨value, found, same⟩ | ⟨_, buffer, shareSize, same⟩
  · exact updated _ ((wellFormed shareFP value found).addReference userID) same
  · exact updated _ (newShareValue_wellFormed buffer userID shareSize) same

theorem owns (adds : store.AddsReference shareFP userID next)
    (wellFormed : store.WellFormed) (other : Fingerprint) (user : Int) :
    next.owns user other = true ↔
      store.owns user other = true ∨ other = shareFP ∧ user = userID := by
  by_cases equal : other = shareFP
  · subst equal
    rcases adds with ⟨value, found, same⟩ | ⟨absent, buffer, shareSize, same⟩
    · have own := wellFormed other value found
      rw [ShareStore.owns, ShareStore.owns, same, update_self, found,
        Option.any_some, Option.any_some,
        (own.addReference userID).counted.ownerPosition_isSome,
        own.counted.ownerPosition_isSome, ShareIndexValue.addReference_users own.counted]
      by_cases there : userID ∈ value.users
      · rw [if_pos there]
        constructor
        · exact .inl
        · rintro (member | ⟨_, mine⟩)
          · exact member
          · rw [mine]
            exact there
      · rw [if_neg there, List.mem_append, List.mem_singleton]
        simp only [true_and]
    · have own := newShareValue_wellFormed buffer userID shareSize
      rw [ShareStore.owns, ShareStore.owns, same, update_self, absent,
        Option.any_some, own.counted.ownerPosition_isSome, Option.any_none]
      simp [newShareValue, ShareIndexValue.users]
  · have unchanged : next.shareIndex other = store.shareIndex other := by
      rcases adds with ⟨value, _, same⟩ | ⟨_, buffer, shareSize, same⟩
      · rw [same, update_of_ne equal]
      · rw [same, update_of_ne equal]
    rw [ShareStore.owns, ShareStore.owns, unchanged]
    simp only [equal, false_and, or_false]

end AddsReference

/-! ## The first stage -/

theorem WellFormed.reportShare {state : ShareStore × FirstStageReply}
    (wellFormed : state.1.WellFormed) (userID : Int) (entry : ShareMDEntry) :
    (ShareStore.reportShare userID state entry).1.WellFormed := by
  have updated := (state.1.intraUserIndexUpdate_adds entry.shareFP userID).2
  rw [ShareStore.reportShare]
  cases duplicate : (state.1.intraUserIndexUpdate entry.shareFP userID).2 with
  | false =>
      rw [duplicate, if_neg Bool.false_ne_true] at updated
      rw [updated]
      exact wellFormed
  | true =>
      rw [duplicate, if_pos rfl] at updated
      exact updated.wellFormed wellFormed

theorem firstStageDedup_eq (store : ShareStore) (userID : Int)
    (package : List FileShareMD) :
    store.firstStageDedup userID package =
      (package.flatMap FileShareMD.entries).foldl (ShareStore.reportShare userID)
        (store, ⟨[], 0⟩) := by
  rw [firstStageDedup, List.foldl_flatMap]

theorem WellFormed.firstStageDedup (wellFormed : store.WellFormed) (userID : Int)
    (package : List FileShareMD) :
    (store.firstStageDedup userID package).1.WellFormed := by
  let keeps (state : ShareStore × FirstStageReply) := state.1.WellFormed
  rw [firstStageDedup_eq]
  refine List.foldlRecOn (motive := keeps) _ _ wellFormed ?_
  intro state kept entry _
  exact WellFormed.reportShare kept userID entry

end ShareStore

end MetaDedup.Server
