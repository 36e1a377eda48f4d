import MetaDedup.Server.ShareOperations

/-! # Reference counts

The share index counts for every user how often a share has been uploaded. Each
occurrence of a share in a package is counted once, by the first stage if the user has
the share already and by the second stage otherwise. Whatever a stage does with a share, it
adds one reference of the user to the index or leaves the index as it is. -/

namespace MetaDedup.Server

open Foundation Function

namespace ShareIndexValue

/-- The reference entry of a user, as a scan over the announced entries finds it. -/
def reference (value : ShareIndexValue) (userID : Int) : Option ShareUserRefEntry :=
  (value.userRefs.take value.numOfUsers).find? fun ref => ref.userID == userID

def refCount (value : ShareIndexValue) (userID : Int) : Nat :=
  ((value.reference userID).map ShareUserRefEntry.refCnt).getD 0

def Counted (value : ShareIndexValue) : Prop := value.numOfUsers = value.userRefs.length

variable {value : ShareIndexValue}

theorem Counted.reference (counted : value.Counted) (userID : Int) :
    value.reference userID = value.userRefs.find? fun ref => ref.userID == userID := by
  rw [ShareIndexValue.reference, counted, List.take_length]

theorem Counted.ownerPosition (counted : value.Counted) (userID : Int) :
    value.ownerPosition userID =
      value.userRefs.findIdx? fun ref => ref.userID == userID := by
  rw [ShareIndexValue.ownerPosition, counted, List.take_length]

private theorem find?_modify_findIdx? {refs : List ShareUserRefEntry} {userID : Int}
    {position : Nat}
    (found : refs.findIdx? (fun ref => ref.userID == userID) = some position) (other : Int) :
    ((refs.modify position fun ref => { ref with refCnt := ref.refCnt + 1 }).find?
      fun ref => ref.userID == other).map ShareUserRefEntry.refCnt =
    ((refs.find? fun ref => ref.userID == other).map ShareUserRefEntry.refCnt).map
      fun count => if other = userID then count + 1 else count := by
  induction refs generalizing position with
  | nil => cases found
  | cons ref rest induction =>
      rw [List.findIdx?_cons] at found
      by_cases own : ref.userID = userID
      · simp only [own, beq_self_eq_true, if_true, Option.some.injEq] at found
        subst found
        rw [List.modify_zero_cons, List.find?_cons, List.find?_cons]
        by_cases equal : userID = other
        · simp [own, equal]
        · have skipped : (userID == other) = false := beq_false_of_ne equal
          simp only [own, skipped, if_neg (Ne.symm equal), Option.map_id']
      · simp only [beq_iff_eq, own, if_false, Option.map_eq_some_iff] at found
        rcases found with ⟨later, found, rfl⟩
        rw [List.modify_succ_cons, List.find?_cons, List.find?_cons]
        by_cases equal : ref.userID = other
        · have different : other ≠ userID := fun same => own (equal.trans same)
          simp [equal, different]
        · have skipped : (ref.userID == other) = false := beq_false_of_ne equal
          simp only [skipped]
          exact induction found

/-- A reference more for one user, and none for the others. -/
theorem addReference_refCount (counted : value.Counted) (userID other : Int) :
    (value.addReference userID).Counted ∧
      (value.addReference userID).refCount other =
        value.refCount other + if other = userID then 1 else 0 := by
  rw [addReference]
  cases found : value.ownerPosition userID with
  | some position =>
      have counted' : (value.incrRefCnt position).Counted := by
        rw [Counted, incrRefCnt, List.length_modify]
        exact counted
      refine ⟨counted', ?_⟩
      rw [counted.ownerPosition] at found
      rw [refCount, refCount, counted'.reference, counted.reference, incrRefCnt,
        find?_modify_findIdx? found]
      cases there : value.userRefs.find? fun ref => ref.userID == other with
      | some ref =>
          by_cases own : other = userID
          · simp [own]
          · simp [own]
      | none =>
          have different : other ≠ userID := by
            intro equal
            have absent : value.userRefs.findIdx? (fun ref => ref.userID == userID) =
                none := by
              rw [List.findIdx?_eq_none_iff, ← equal]
              intro ref member
              simpa using List.find?_eq_none.mp there ref member
            cases absent.symm.trans found
          simp [different]
  | none =>
      have counted' : (value.appendUserRef userID).Counted := by
        rw [Counted, appendUserRef, List.length_append, counted]
        rfl
      refine ⟨counted', ?_⟩
      rw [counted.ownerPosition, List.findIdx?_eq_none_iff] at found
      rw [refCount, refCount, counted'.reference, counted.reference, appendUserRef,
        List.find?_append]
      by_cases own : other = userID
      · subst own
        have absent : value.userRefs.find? (fun ref => ref.userID == other) = none := by
          rw [List.find?_eq_none]
          intro ref member
          simpa using found ref member
        simp [absent]
      · have appended : [(⟨userID, 1⟩ : ShareUserRefEntry)].find?
            (fun ref => ref.userID == other) = none := by
          simp [Ne.symm own]
        rw [appended, Option.or_none, if_neg own, Nat.add_zero]

end ShareIndexValue

namespace ShareStore

variable {generateHash : List Byte → Fingerprint} {store : ShareStore}

def refCount (store : ShareStore) (shareFP : Fingerprint) (userID : Int) : Nat :=
  ((store.shareIndex shareFP).map fun value => value.refCount userID).getD 0

def Counted (store : ShareStore) : Prop :=
  ∀ shareFP value, store.shareIndex shareFP = some value → value.Counted

structure CountsShare (store : ShareStore) (shareFP : Fingerprint) (userID : Int)
    (counting : ShareStore) : Prop where
  counted : counting.Counted
  refCount : ∀ other user, counting.refCount other user =
    store.refCount other user + if other = shareFP ∧ user = userID then 1 else 0

variable {value : ShareIndexValue}

theorem Counted.put (counted : store.Counted) {shareFP : Fingerprint}
    (own : value.Counted) : (store.put shareFP value).Counted := by
  intro other listed there
  rcases put_listed there with rfl | old
  · exact own
  · exact counted other listed old

theorem refCount_put (store : ShareStore) (shareFP : Fingerprint) (value : ShareIndexValue)
    (other : Fingerprint) (user : Int) :
    (store.put shareFP value).refCount other user =
      if other = shareFP then value.refCount user else store.refCount other user := by
  by_cases equal : other = shareFP
  · simp [refCount, ShareStore.put, equal]
  · simp [refCount, ShareStore.put, equal]

theorem exists_reference {shareFP : Fingerprint} {user : Int}
    (positive : 0 < store.refCount shareFP user) :
    ∃ value, store.shareIndex shareFP = some value ∧ ∃ ref, value.reference user = some ref ∧
      ref.refCnt = store.refCount shareFP user := by
  rw [refCount] at positive ⊢
  cases found : store.shareIndex shareFP with
  | none =>
      rw [found] at positive
      exact absurd positive (Nat.lt_irrefl 0)
  | some value =>
      rw [found, Option.map_some, Option.getD_some, ShareIndexValue.refCount] at positive
      refine ⟨value, rfl, ?_⟩
      rw [Option.map_some, Option.getD_some, ShareIndexValue.refCount]
      cases reference : value.reference user with
      | none =>
          rw [reference] at positive
          exact absurd positive (Nat.lt_irrefl 0)
      | some ref => exact ⟨ref, rfl, rfl⟩

theorem countsShare_addReference (counted : store.Counted) {shareFP : Fingerprint}
    (found : store.shareIndex shareFP = some value) (userID : Int) :
    store.CountsShare shareFP userID (store.put shareFP (value.addReference userID)) where
  counted := counted.put
    (ShareIndexValue.addReference_refCount (counted shareFP value found) userID 0).1
  refCount := by
    intro other user
    rw [refCount_put]
    by_cases equal : other = shareFP
    · rw [if_pos equal, (ShareIndexValue.addReference_refCount
        (counted shareFP value found) userID user).2]
      simp [ShareStore.refCount, found, equal]
    · simp [equal]

private theorem newShareValue_refCount (buffer : ShareContainerBuffer) (userID : Int)
    (shareSize : Nat) (user : Int) :
    (newShareValue buffer userID shareSize).refCount user = if user = userID then 1 else 0 := by
  by_cases own : userID = user
  · simp [newShareValue, ShareIndexValue.refCount, ShareIndexValue.reference, own]
  · simp [newShareValue, ShareIndexValue.refCount, ShareIndexValue.reference, own,
      Ne.symm own]

theorem countsShare_newShareValue (counted : store.Counted) {shareFP : Fingerprint}
    (absent : store.shareIndex shareFP = none) (buffer : ShareContainerBuffer)
    (userID : Int) (shareSize : Nat) :
    store.CountsShare shareFP userID
      (store.put shareFP (newShareValue buffer userID shareSize)) where
  counted := counted.put rfl
  refCount := by
    intro other user
    rw [refCount_put, newShareValue_refCount]
    by_cases equal : other = shareFP
    · simp [ShareStore.refCount, absent, equal]
    · simp [equal]

/-! ## The stages -/

variable {userID : Int} {shareFP : Fingerprint}

theorem refCount_of_index_eq {other : ShareStore}
    (same : other.shareIndex = store.shareIndex) (shareFP : Fingerprint) (user : Int) :
    other.refCount shareFP user = store.refCount shareFP user := by
  rw [refCount, refCount, same]

theorem Counted.of_index_eq (counted : store.Counted) {other : ShareStore}
    (same : other.shareIndex = store.shareIndex) : other.Counted := by
  rw [Counted, same]
  exact counted

def owns (store : ShareStore) (userID : Int) (shareFP : Fingerprint) : Bool :=
  (store.shareIndex shareFP).any fun value => (value.ownerPosition userID).isSome

/-- One reference of a user to a share is added to the index. -/
def AddsReference (store : ShareStore) (shareFP : Fingerprint) (userID : Int)
    (next : ShareStore) : Prop :=
  (∃ value, store.shareIndex shareFP = some value ∧
    next.shareIndex =
      update store.shareIndex shareFP (some (value.addReference userID))) ∨
  (store.shareIndex shareFP = none ∧ ∃ buffer shareSize,
    next.shareIndex = update store.shareIndex shareFP
      (some (newShareValue buffer userID shareSize)))

theorem AddsReference.counts {next : ShareStore}
    (adds : store.AddsReference shareFP userID next) (counted : store.Counted) :
    store.CountsShare shareFP userID next := by
  have carryOver {counting : ShareStore} (same : next.shareIndex = counting.shareIndex)
      (counts : store.CountsShare shareFP userID counting) :
      store.CountsShare shareFP userID next := by
    refine ⟨counts.counted.of_index_eq same, ?_⟩
    intro other user
    rw [refCount_of_index_eq same, counts.refCount]
  rcases adds with ⟨value, found, same⟩ | ⟨absent, buffer, shareSize, same⟩
  · exact carryOver same (countsShare_addReference counted found userID)
  · exact carryOver same (countsShare_newShareValue counted absent buffer userID shareSize)

theorem intraUserIndexUpdate_adds (store : ShareStore) (shareFP : Fingerprint)
    (userID : Int) :
    let update := store.intraUserIndexUpdate shareFP userID
    update.2 = store.owns userID shareFP ∧
      if update.2 then store.AddsReference shareFP userID update.1 else update.1 = store := by
  intro update
  have result : update = store.intraUserIndexUpdate shareFP userID := rfl
  rw [intraUserIndexUpdate] at result
  cases found : store.shareIndex shareFP with
  | none =>
      simp only [found] at result
      rw [result]
      exact ⟨by rw [owns, found]; rfl, rfl⟩
  | some value =>
      cases owner : value.ownerPosition userID with
      | none =>
          simp only [found, owner] at result
          rw [result]
          exact ⟨by rw [owns, found, Option.any_some, owner]; rfl, rfl⟩
      | some position =>
          simp only [found, owner] at result
          rw [result]
          refine ⟨by rw [owns, found, Option.any_some, owner]; rfl, .inl ⟨value, found, ?_⟩⟩
          rw [ShareIndexValue.addReference, owner]
          rfl

/-- The second stage adds a reference, or fails and leaves the index as it is. It fails
only for a share that is too large for a container. -/
theorem interUserIndexUpdate_adds (store : ShareStore) (buffer : ShareContainerBuffer)
    (shareFP : Fingerprint) (userID : Int) (share : List Byte) :
    (∃ result, store.interUserIndexUpdate buffer shareFP userID share = .ok result ∧
      store.AddsReference shareFP userID result.1) ∨
    ∃ result, store.interUserIndexUpdate buffer shareFP userID share = .error result ∧
      result.1.shareIndex = store.shareIndex ∧ containerBufferSize < share.length := by
  cases found : store.shareIndex shareFP with
  | some value =>
      refine .inl ⟨(store.put shareFP (value.addReference userID), buffer), ?_, ?_⟩
      · simp only [interUserIndexUpdate, found]
      · exact .inl ⟨value, found, rfl⟩
  | none =>
      by_cases full : buffer.shareContainerBuffer.length + share.length > containerBufferSize
      · by_cases emptied : buffer.shareContainerBuffer = []
        · refine .inr ⟨(store.writeContainer buffer.shareContainerName
            buffer.shareContainerBuffer, buffer), ?_, rfl, ?_⟩
          · simp only [interUserIndexUpdate, found, if_pos full, storeShareContainer,
              if_pos emptied]
            rfl
          · rw [emptied, List.length_nil] at full
            omega
        · let drawn := (store.flushContainer buffer).drawContainerName
          let fresh : ShareContainerBuffer := ⟨buffer.userID, drawn.1, []⟩
          refine .inl ⟨drawn.2.addNewShare fresh shareFP userID share, ?_,
            .inr ⟨found, fresh, share.length, ?_⟩⟩
          · simp only [interUserIndexUpdate, found, if_pos full,
              storeShareContainer_of_nonempty (List.length_pos_iff.mpr emptied)]
            rfl
          · rw [← flushContainer_shareIndex store buffer]
            rfl
      · refine .inl ⟨store.addNewShare buffer shareFP userID share, ?_,
          .inr ⟨found, buffer, share.length, rfl⟩⟩
        simp only [interUserIndexUpdate, found, if_neg full]
        rfl

theorem counted_preserved : Preserved generateHash fun store _ => store.Counted where
  perm := fun _ counted => counted
  refer := fun userID found counted => (countsShare_addReference counted found userID).counted
  flush := fun counted => counted.of_index_eq (flushContainer_shareIndex _ _)
  create := fun _ counted => counted
  addNewShare := fun _ _ _ _ counted => counted.put rfl

end ShareStore

end MetaDedup.Server
