import MetaDedup.Server.ShareStore

/-! # Elementary operations on the share store

Every call of a stage is a sequence of a few operations on the share index, the live
container buffers and the container files. A property that these operations preserve
is preserved by the calls. -/

namespace MetaDedup.Server

open Foundation Function

def ShareIndexValue.place (value : ShareIndexValue) : Place InternalFileName :=
  ⟨value.shareContainerName, value.shareContainerOffset, value.shareSize⟩

theorem ShareIndexValue.place_addReference (value : ShareIndexValue) (userID : Int) :
    (value.addReference userID).place = value.place := by
  rw [ShareIndexValue.addReference]
  cases value.ownerPosition userID <;> rfl

theorem ShareIndexValue.of_place_eq {value other : ShareIndexValue}
    (same : other.place = value.place) :
    other.shareContainerName = value.shareContainerName ∧
      other.shareContainerOffset = value.shareContainerOffset ∧
      other.shareSize = value.shareSize :=
  ⟨congrArg Place.log same, congrArg Place.offset same, congrArg Place.size same⟩

/-- The sizes the server takes: a share is not empty and fits into a container. -/
def ShareMDEntry.Sized (entry : ShareMDEntry) : Prop :=
  1 ≤ entry.shareSize ∧ entry.shareSize ≤ containerBufferSize

instance (entry : ShareMDEntry) : Decidable entry.Sized :=
  inferInstanceAs (Decidable (_ ∧ _))

namespace ShareStore

variable {generateHash : List Byte → Fingerprint}
variable {store : ShareStore} {buffer : ShareContainerBuffer}
variable {buffers rest : List ShareContainerBuffer}

@[simp] theorem flushContainer_shareIndex (store : ShareStore)
    (buffer : ShareContainerBuffer) :
    (store.flushContainer buffer).shareIndex = store.shareIndex := by
  rw [flushContainer]
  split <;> rfl

theorem storeShareContainer_of_nonempty (nonempty : 0 < buffer.shareContainerBuffer.length) :
    store.storeShareContainer buffer =
      .ok ((store.flushContainer buffer).drawContainerName.2,
        ⟨buffer.userID, (store.flushContainer buffer).drawContainerName.1, []⟩) := by
  have filled : buffer.shareContainerBuffer ≠ [] := List.length_pos_iff.mp nonempty
  rw [storeShareContainer, flushContainer, if_pos nonempty]
  simp only [if_neg filled]

/-- A share that fits into a container is always taken: it is found, appended to the
buffer, or appended to the emptied buffer. -/
theorem interUserIndexUpdate_cases (store : ShareStore) (buffer : ShareContainerBuffer)
    (shareFP : Fingerprint) (userID : Int) {share : List Byte}
    (fits : share.length ≤ containerBufferSize) :
    (∃ value, store.shareIndex shareFP = some value ∧
      store.interUserIndexUpdate buffer shareFP userID share =
        .ok (store.put shareFP (value.addReference userID), buffer)) ∨
    ∃ roomy emptied, store.shareIndex shareFP = none ∧
      emptied.shareContainerBuffer.length + share.length ≤ containerBufferSize ∧
      (roomy = store ∧ emptied = buffer ∨
        0 < buffer.shareContainerBuffer.length ∧
        roomy = (store.flushContainer buffer).drawContainerName.2 ∧
        emptied = ⟨buffer.userID, (store.flushContainer buffer).drawContainerName.1, []⟩) ∧
      store.interUserIndexUpdate buffer shareFP userID share =
        .ok (roomy.addNewShare emptied shareFP userID share) := by
  cases found : store.shareIndex shareFP with
  | some value =>
      left
      exact ⟨value, rfl, by simp [interUserIndexUpdate, found]⟩
  | none =>
      right
      by_cases full : buffer.shareContainerBuffer.length + share.length > containerBufferSize
      · have nonempty : 0 < buffer.shareContainerBuffer.length := by omega
        refine ⟨_, _, rfl, ?_, .inr ⟨nonempty, rfl, rfl⟩, ?_⟩
        · simpa using fits
        · rw [interUserIndexUpdate, found]
          simp only [if_pos full, storeShareContainer_of_nonempty nonempty]
          rfl
      · refine ⟨store, buffer, rfl, by omega, .inl ⟨rfl, rfl⟩, ?_⟩
        rw [interUserIndexUpdate, found]
        simp only [if_neg full]
        rfl

theorem put_listed {shareFP other : Fingerprint} {value listed : ShareIndexValue}
    (there : (store.put shareFP value).shareIndex other = some listed) :
    listed = value ∨ store.shareIndex other = some listed := by
  change update store.shareIndex shareFP (some value) other = some listed at there
  by_cases equal : other = shareFP
  · rw [equal, update_self, Option.some.injEq] at there
    exact .inl there.symm
  · rw [update_of_ne equal] at there
    exact .inr there

/-- A property of the store and the live buffers, in any order, that every elementary
operation preserves. -/
structure Preserved (generateHash : List Byte → Fingerprint)
    (property : ShareStore → List ShareContainerBuffer → Prop) : Prop where
  perm : ∀ {store buffers reordered}, reordered.Perm buffers → property store buffers →
    property store reordered
  /-- Add a reference of a user to a value. -/
  refer : ∀ {store buffers shareFP} {value : ShareIndexValue} (userID : Int),
    store.shareIndex shareFP = some value → property store buffers →
    property (store.put shareFP (value.addReference userID)) buffers
  /-- Write a buffer to its file and free it. -/
  flush : ∀ {store buffer rest}, property store (buffer :: rest) →
    property (store.flushContainer buffer) rest
  /-- Link a new, empty buffer under the next container name. -/
  create : ∀ {store rest} (userID : Int), property store rest →
    property store.drawContainerName.2 (⟨userID, store.drawContainerName.1, []⟩ :: rest)
  /-- Append a share to a buffer that has room for it, and list it in the index. -/
  addNewShare : ∀ {store buffer rest share} (userID : Int),
    store.shareIndex (generateHash share) = none → 0 < share.length →
    buffer.shareContainerBuffer.length + share.length ≤ containerBufferSize →
    property store (buffer :: rest) →
    property (store.addNewShare buffer (generateHash share) userID share).1
      ((store.addNewShare buffer (generateHash share) userID share).2 :: rest)

namespace Preserved

variable {property : ShareStore → List ShareContainerBuffer → Prop}

private theorem interUserIndexUpdate (preserved : Preserved generateHash property)
    (holds : property store (buffer :: rest)) (userID : Int) {share : List Byte}
    (positive : 0 < share.length) (fits : share.length ≤ containerBufferSize) :
    ∃ updated grown,
      store.interUserIndexUpdate buffer (generateHash share) userID share =
        .ok (updated, grown) ∧
      property updated (grown :: rest) := by
  rcases store.interUserIndexUpdate_cases buffer (generateHash share) userID fits with
    ⟨value, found, result⟩ | ⟨roomy, emptied, absent, room, either, result⟩
  · exact ⟨_, _, result, preserved.refer userID found holds⟩
  · refine ⟨_, _, result, ?_⟩
    rcases either with ⟨rfl, rfl⟩ | ⟨_, rfl, rfl⟩
    · exact preserved.addNewShare userID absent positive room holds
    · have stored : (store.flushContainer buffer).drawContainerName.2.shareIndex
          (generateHash share) = none := by
        rw [drawContainerName, flushContainer]
        split <;> exact absent
      exact preserved.addNewShare userID stored positive room
        (preserved.create buffer.userID (preserved.flush holds))

private theorem intraUserIndexUpdate (preserved : Preserved generateHash property)
    (holds : property store buffers) (shareFP : Fingerprint) (userID : Int) :
    property (store.intraUserIndexUpdate shareFP userID).1 buffers := by
  cases found : store.shareIndex shareFP with
  | none => simpa [ShareStore.intraUserIndexUpdate, found] using holds
  | some value =>
      cases owner : value.ownerPosition userID with
      | none => simpa [ShareStore.intraUserIndexUpdate, found, owner] using holds
      | some position =>
          have referred := preserved.refer userID found holds
          rw [ShareIndexValue.addReference, owner] at referred
          simpa only [ShareStore.intraUserIndexUpdate, found, owner] using referred

theorem firstStageDedup (preserved : Preserved generateHash property)
    (holds : property store buffers) (userID : Int) (package : List FileShareMD) :
    property (store.firstStageDedup userID package).1 buffers := by
  let keeps (state : ShareStore × FirstStageReply) := property state.1 buffers
  refine List.foldlRecOn (motive := keeps) package _ holds ?_
  intro state kept file _
  refine List.foldlRecOn (motive := keeps) file.entries _ kept ?_
  intro state kept entry _
  exact preserved.intraUserIndexUpdate kept entry.shareFP userID

/-- The property with the buffer in use in front of the other ones. -/
def AtCursor (property : ShareStore → List ShareContainerBuffer → Prop)
    (rest : List ShareContainerBuffer) (cursor : ShareCursor) : Prop :=
  property cursor.store (cursor.buffer :: rest)

theorem placeShare (preserved : Preserved generateHash property) (userID : Int)
    (intraUserDupStatList : Nat → Bool) (shareDataBuffer : Buffer Byte)
    {entry : ShareMDEntry} (sized : entry.Sized) (cursor : ShareCursor)
    (holds : AtCursor property rest cursor) :
    AtCursor property rest (Loop.outcome (cursor.placeShare generateHash userID
      intraUserDupStatList shareDataBuffer entry)) := by
  rw [ShareCursor.placeShare]
  by_cases duplicate : intraUserDupStatList cursor.numOfShares
  · rw [if_pos duplicate]
    exact holds
  · rw [if_neg duplicate]
    generalize share_eq :
      (shareDataBuffer.advance cursor.shareDataBufferOffset).slice 0 entry.shareSize = share
    have size : share.length = entry.shareSize := by
      rw [← share_eq, Buffer.slice_length]
    by_cases matching : generateHash share = entry.shareFP
    · rcases preserved.interUserIndexUpdate holds userID
        (by rw [size]; exact sized.1) (by rw [size]; exact sized.2) with
        ⟨updated, grown, result, kept⟩
      rw [matching] at result
      simp only [matching, ne_eq, not_true_eq_false, if_false, result]
      exact kept
    · simp only [ne_eq, matching, not_false_eq_true, if_true]
      exact holds

end Preserved

/-! ## The user of a buffer -/

private theorem storeShareContainer_userID (store : ShareStore) (buffer : ShareContainerBuffer) :
    (Loop.outcome (store.storeShareContainer buffer)).2.userID = buffer.userID := by
  rw [storeShareContainer]
  split <;> rfl

private theorem interUserIndexUpdate_userID (store : ShareStore) (buffer : ShareContainerBuffer)
    (shareFP : Fingerprint) (userID : Int) (share : List Byte) :
    (Loop.outcome (store.interUserIndexUpdate buffer shareFP userID share)).2.userID =
      buffer.userID := by
  rw [interUserIndexUpdate]
  cases store.shareIndex shareFP with
  | some value => rfl
  | none =>
      simp only
      split
      · have same := store.storeShareContainer_userID buffer
        cases stored : store.storeShareContainer buffer with
        | error state =>
            rw [stored] at same
            exact same
        | ok state =>
            rw [stored] at same
            exact same
      · rfl

end ShareStore

theorem ShareCursor.placeShare_userID (generateHash : List Byte → Fingerprint)
    (userID : Int) (intraUserDupStatList : Nat → Bool) (shareDataBuffer : Buffer Byte)
    (cursor : ShareCursor) (entry : ShareMDEntry) :
    (Loop.outcome (cursor.placeShare generateHash userID intraUserDupStatList
      shareDataBuffer entry)).buffer.userID = cursor.buffer.userID := by
  rw [placeShare]
  split
  · rfl
  · simp only
    split
    · rfl
    · have same := cursor.store.interUserIndexUpdate_userID cursor.buffer entry.shareFP
        userID ((shareDataBuffer.advance cursor.shareDataBufferOffset).slice 0
          entry.shareSize)
      split
      · next updated =>
          rw [updated] at same
          exact same
      · next updated =>
          rw [updated] at same
          exact same

end MetaDedup.Server
