import Mathlib.Data.List.Nodup
import MetaDedup.Server.ShareOperations

/-! # Integrity of the share store

The containers of a process form append-only logs: a container is the contents of
the live buffer that carries its name, and of its file once the buffer has been
stored. Every operation of the store only extends these logs, so a share that has
entered the index can always be read back. -/

namespace MetaDedup.Server

open Foundation Function

namespace ShareStore

variable {generateHash : List Byte → Fingerprint}
variable {store : ShareStore} {buffer : ShareContainerBuffer}
variable {buffers rest : List ShareContainerBuffer}

/-- Every share index entry resolves to bytes that hash to its fingerprint. -/
def Integrity (generateHash : List Byte → Fingerprint) (store : ShareStore)
    (buffers : List ShareContainerBuffer) : Prop :=
  ∀ shareFP value, store.shareIndex shareFP = some value →
    ∃ share, store.readShare buffers value = some share ∧
      share.length = value.shareSize ∧ generateHash share = shareFP

/-- The places of the shares in the index. -/
def catalogue (store : ShareStore) (shareFP : Fingerprint) :
    Option (Place InternalFileName) :=
  (store.shareIndex shareFP).map ShareIndexValue.place

/-- What has been appended to a container so far. -/
def containerLog (store : ShareStore) (buffers : List ShareContainerBuffer)
    (name : InternalFileName) : List Byte :=
  (store.readShareContainer buffers name).getD []

variable {shareFP : Fingerprint} {value : ShareIndexValue}

theorem catalogue_put_of_place {updated : ShareIndexValue}
    (found : store.shareIndex shareFP = some value) (same : updated.place = value.place) :
    (store.put shareFP updated).catalogue = store.catalogue := by
  funext other
  by_cases equal : other = shareFP
  · subst equal
    simp [catalogue, put, found, same]
  · simp [catalogue, put, equal]

theorem catalogue_put :
    (store.put shareFP value).catalogue =
      update store.catalogue shareFP (some value.place) := by
  funext other
  by_cases equal : other = shareFP
  · subst equal
    simp [catalogue, put]
  · simp [catalogue, put, equal]

/-! ## The invariant -/

/-- The names of live buffers have been handed out by this process, each to one
buffer, and have no file yet; files have names handed out before. No share in the index
is empty. -/
structure Named (store : ShareStore) (buffers : List ShareContainerBuffer) : Prop where
  bufferIssued : ∀ buffer ∈ buffers,
    store.globalShareContainerName.Issued buffer.shareContainerName
  distinct : (buffers.map ShareContainerBuffer.shareContainerName).Nodup
  fileIssued : ∀ name, store.shareContainers name ≠ none →
    store.globalShareContainerName.Issued name
  unfiled : ∀ buffer ∈ buffers, store.shareContainers buffer.shareContainerName = none
  sized : ∀ shareFP value, store.shareIndex shareFP = some value → 0 < value.shareSize

/-- No buffer is filled beyond its capacity, and the shares in the index are where the
index says. -/
structure Invariant (generateHash : List Byte → Fingerprint) (store : ShareStore)
    (buffers : List ShareContainerBuffer) : Prop extends Named store buffers where
  fits : ∀ buffer ∈ buffers, buffer.shareContainerBuffer.length ≤ containerBufferSize
  sound : Sound generateHash store.catalogue (store.containerLog buffers)

/-- The invariant holds for as long as the names have not run out. -/
def Intact (generateHash : List Byte → Fingerprint) (store : ShareStore)
    (buffers : List ShareContainerBuffer) : Prop :=
  store.globalShareContainerName.drawn < 26 ^ fileNameValidLen →
    store.Invariant generateHash buffers

theorem named_empty : empty.Named [] where
  bufferIssued := by simp
  distinct := List.nodup_nil
  fileIssued := fun _ filed => absurd rfl filed
  unfiled := by simp
  sized := fun _ _ found => nomatch found

theorem invariant_empty : empty.Invariant generateHash [] where
  toNamed := named_empty
  fits := by simp
  sound := by
    intro shareFP place listed
    simp [catalogue, empty] at listed

/-! ## Reading a container -/

variable {name : InternalFileName}

theorem readShareContainerFromBuffer_of_mem
    (distinct : (buffers.map ShareContainerBuffer.shareContainerName).Nodup)
    (member : buffer ∈ buffers) :
    readShareContainerFromBuffer buffers buffer.shareContainerName =
      some buffer.shareContainerBuffer := by
  induction buffers with
  | nil => simp at member
  | cons first rest induction =>
      rw [List.map_cons, List.nodup_cons] at distinct
      rcases List.mem_cons.mp member with equal | later
      · subst equal
        simp [readShareContainerFromBuffer]
      · have different : first.shareContainerName ≠ buffer.shareContainerName := by
          intro equal
          exact distinct.1 (equal ▸ List.mem_map_of_mem later)
        have found := induction distinct.2 later
        simpa [readShareContainerFromBuffer, different] using found

theorem readShareContainerFromBuffer_of_absent
    (absent : ∀ buffer ∈ buffers, buffer.shareContainerName ≠ name) :
    readShareContainerFromBuffer buffers name = none := by
  simpa [readShareContainerFromBuffer] using absent

theorem containerLog_of_mem
    (distinct : (buffers.map ShareContainerBuffer.shareContainerName).Nodup)
    (member : buffer ∈ buffers) :
    store.containerLog buffers buffer.shareContainerName =
      buffer.shareContainerBuffer := by
  simp [containerLog, readShareContainer,
    readShareContainerFromBuffer_of_mem distinct member]

theorem containerLog_of_absent (absent : ∀ buffer ∈ buffers, buffer.shareContainerName ≠ name) :
    store.containerLog buffers name = (store.shareContainers name).getD [] := by
  simp [containerLog, readShareContainer,
    readShareContainerFromBuffer_of_absent absent]

/-- Two states with the same buffers and the same files apart from those of the
buffers have the same logs. -/
theorem containerLog_congr {other : ShareStore} {reordered : List ShareContainerBuffer}
    (distinct : (buffers.map ShareContainerBuffer.shareContainerName).Nodup)
    (permuted : reordered.Perm buffers)
    (files : ∀ name, (∀ buffer ∈ buffers, buffer.shareContainerName ≠ name) →
      other.shareContainers name = store.shareContainers name) :
    other.containerLog reordered = store.containerLog buffers := by
  funext name
  have distinct' := (permuted.map ShareContainerBuffer.shareContainerName).nodup_iff.mpr
    distinct
  by_cases live : ∃ buffer ∈ buffers, buffer.shareContainerName = name
  · rcases live with ⟨buffer, member, rfl⟩
    rw [containerLog_of_mem distinct' (permuted.mem_iff.mpr member),
      containerLog_of_mem distinct member]
  · have absent : ∀ buffer ∈ buffers, buffer.shareContainerName ≠ name := by
      simpa using live
    rw [containerLog_of_absent fun buffer member =>
        absent buffer (permuted.mem_iff.mp member),
      containerLog_of_absent absent, files name absent]

/-! ## Flushing a container -/

@[simp] theorem flushContainer_globalShareContainerName (store : ShareStore)
    (buffer : ShareContainerBuffer) :
    (store.flushContainer buffer).globalShareContainerName =
      store.globalShareContainerName := by
  rw [flushContainer]
  split <;> rfl

@[simp] theorem flushContainer_catalogue (store : ShareStore)
    (buffer : ShareContainerBuffer) :
    (store.flushContainer buffer).catalogue = store.catalogue := by
  funext shareFP
  simp [catalogue]

theorem flushContainer_shareContainers_of_ne (store : ShareStore)
    (buffer : ShareContainerBuffer) (different : name ≠ buffer.shareContainerName) :
    (store.flushContainer buffer).shareContainers name = store.shareContainers name := by
  rw [flushContainer]
  split
  · exact update_of_ne different _ _
  · rfl

private theorem flushContainer_shareContainers_self
    (unfiled : store.shareContainers buffer.shareContainerName = none) :
    ((store.flushContainer buffer).shareContainers buffer.shareContainerName).getD [] =
      buffer.shareContainerBuffer := by
  rw [flushContainer]
  split
  · simp [writeContainer]
  · have emptied : buffer.shareContainerBuffer = [] := by
      rw [← List.length_eq_zero_iff]
      omega
    rw [unfiled, emptied, Option.getD_none]

theorem containerLog_flushContainer
    (distinct : ((buffer :: rest).map ShareContainerBuffer.shareContainerName).Nodup)
    (unfiled : store.shareContainers buffer.shareContainerName = none) :
    (store.flushContainer buffer).containerLog rest =
      store.containerLog (buffer :: rest) := by
  have apart := List.nodup_cons.mp distinct
  have others : ∀ other ∈ rest, other.shareContainerName ≠ buffer.shareContainerName := by
    intro other member equal
    exact apart.1 (equal ▸ List.mem_map_of_mem member)
  funext name
  by_cases own : name = buffer.shareContainerName
  · rw [own, containerLog_of_absent others, containerLog_of_mem distinct List.mem_cons_self,
      flushContainer_shareContainers_self unfiled]
  · by_cases live : ∃ other ∈ rest, other.shareContainerName = name
    · rcases live with ⟨other, member, rfl⟩
      rw [containerLog_of_mem apart.2 member,
        containerLog_of_mem distinct (List.mem_cons_of_mem _ member)]
    · have absent : ∀ other ∈ rest, other.shareContainerName ≠ name := by
        simpa using live
      have absentAll : ∀ other ∈ buffer :: rest, other.shareContainerName ≠ name := by
        simpa using ⟨fun equal => own equal.symm, absent⟩
      rw [containerLog_of_absent absent, containerLog_of_absent absentAll,
        flushContainer_shareContainers_of_ne store buffer own]

/-! ## Names -/

namespace Named

theorem others_ne (named : store.Named (buffer :: rest)) :
    ∀ other ∈ rest, other.shareContainerName ≠ buffer.shareContainerName := by
  intro other member equal
  exact (List.nodup_cons.mp named.distinct).1 (equal ▸ List.mem_map_of_mem member)

theorem perm (named : store.Named buffers) {reordered : List ShareContainerBuffer}
    (permuted : reordered.Perm buffers) : store.Named reordered where
  bufferIssued := fun buffer member => named.bufferIssued buffer (permuted.mem_iff.mp member)
  distinct := (permuted.map _).nodup_iff.mpr named.distinct
  fileIssued := named.fileIssued
  unfiled := fun buffer member => named.unfiled buffer (permuted.mem_iff.mp member)
  sized := named.sized

theorem lose (named : store.Named (buffer :: rest)) : store.Named rest where
  bufferIssued := (List.forall_mem_cons.mp named.bufferIssued).2
  distinct := (List.nodup_cons.mp named.distinct).2
  fileIssued := named.fileIssued
  unfiled := (List.forall_mem_cons.mp named.unfiled).2
  sized := named.sized

theorem put (named : store.Named buffers) {shareFP : Fingerprint} {value : ShareIndexValue}
    (positive : 0 < value.shareSize) : (store.put shareFP value).Named buffers where
  bufferIssued := named.bufferIssued
  distinct := named.distinct
  fileIssued := named.fileIssued
  unfiled := named.unfiled
  sized := by
    intro other listed there
    rcases put_listed there with rfl | old
    · exact positive
    · exact named.sized other listed old

theorem flush (named : store.Named (buffer :: rest)) :
    (store.flushContainer buffer).Named rest where
  bufferIssued := by simpa using named.lose.bufferIssued
  distinct := named.lose.distinct
  fileIssued := by
    intro name filed
    rw [flushContainer_globalShareContainerName]
    by_cases equal : name = buffer.shareContainerName
    · rw [equal]
      exact named.bufferIssued buffer List.mem_cons_self
    · rw [flushContainer_shareContainers_of_ne store buffer equal] at filed
      exact named.fileIssued name filed
  unfiled := by
    intro other member
    rw [flushContainer_shareContainers_of_ne store buffer (named.others_ne other member)]
    exact named.lose.unfiled other member
  sized := by simpa using named.sized

theorem unfiled_draw (named : store.Named rest)
    (left : store.globalShareContainerName.drawn < 26 ^ fileNameValidLen) :
    store.shareContainers store.drawContainerName.1 = none := by
  by_contra filed
  exact store.globalShareContainerName.draw_fresh left (named.fileIssued _ filed)

theorem create (named : store.Named rest)
    (left : store.globalShareContainerName.drawn < 26 ^ fileNameValidLen) (userID : Int) :
    store.drawContainerName.2.Named (⟨userID, store.drawContainerName.1, []⟩ :: rest) where
  bufferIssued := List.forall_mem_cons.mpr
    ⟨store.globalShareContainerName.issued_draw_self,
      fun other linked => (named.bufferIssued other linked).draw⟩
  distinct := by
    refine List.nodup_cons.mpr ⟨fun member => ?_, named.distinct⟩
    rcases List.mem_map.mp member with ⟨other, linked, equal⟩
    have issued := named.bufferIssued other linked
    rw [equal] at issued
    exact store.globalShareContainerName.draw_fresh left issued
  fileIssued := fun name filed => (named.fileIssued name filed).draw
  unfiled := List.forall_mem_cons.mpr ⟨named.unfiled_draw left, named.unfiled⟩
  sized := named.sized

theorem addNewShare (named : store.Named (buffer :: rest)) {share : List Byte}
    (positive : 0 < share.length) (shareFP : Fingerprint) (userID : Int) :
    (store.addNewShare buffer shareFP userID share).1.Named
      ((store.addNewShare buffer shareFP userID share).2 :: rest) :=
  have kept := named.put positive
  { kept with
    bufferIssued := List.forall_mem_cons.mpr (List.forall_mem_cons.mp kept.bufferIssued)
    unfiled := List.forall_mem_cons.mpr (List.forall_mem_cons.mp kept.unfiled) }

end Named

namespace Invariant

theorem perm (invariant : store.Invariant generateHash buffers)
    {reordered : List ShareContainerBuffer} (permuted : reordered.Perm buffers) :
    store.Invariant generateHash reordered where
  toNamed := invariant.toNamed.perm permuted
  fits := fun buffer member => invariant.fits buffer (permuted.mem_iff.mp member)
  sound := by
    rw [containerLog_congr invariant.distinct permuted fun _ _ => rfl]
    exact invariant.sound

theorem integrity (invariant : store.Invariant generateHash buffers) :
    store.Integrity generateHash buffers := by
  intro shareFP value found
  have listed : store.catalogue shareFP = some value.place := by
    simp [catalogue, found]
  rcases invariant.sound shareFP value.place listed with ⟨share, located, hashed⟩
  have size := region_length located
  refine ⟨share, ?_, size, hashed⟩
  cases container : store.readShareContainer buffers value.shareContainerName with
  | some bytes =>
      simpa [ShareIndexValue.place, containerLog, readShare, container] using located
  | none =>
      -- A missing container is read as an empty log, which holds no share.
      have positive := invariant.sized shareFP value found
      rcases region_eq_some_iff.mp located with ⟨inside, _⟩
      simp [ShareIndexValue.place, containerLog, container] at inside
      omega

/-! ## Operations -/

theorem refer (invariant : store.Invariant generateHash buffers) {shareFP : Fingerprint}
    {value updated : ShareIndexValue} (found : store.shareIndex shareFP = some value)
    (same : updated.place = value.place) :
    (store.put shareFP updated).Invariant generateHash buffers where
  toNamed := by
    have size : updated.shareSize = value.shareSize := congrArg Place.size same
    exact invariant.toNamed.put (size ▸ invariant.sized shareFP value found)
  fits := invariant.fits
  sound := by
    rw [catalogue_put_of_place found same]
    exact invariant.sound

theorem flush (invariant : store.Invariant generateHash (buffer :: rest)) :
    (store.flushContainer buffer).Invariant generateHash rest where
  toNamed := invariant.toNamed.flush
  fits := (List.forall_mem_cons.mp invariant.fits).2
  sound := by
    rw [flushContainer_catalogue, containerLog_flushContainer invariant.distinct
      (invariant.unfiled buffer List.mem_cons_self)]
    exact invariant.sound

/-- Link a new, empty buffer under the next container name. -/
theorem create (invariant : store.Invariant generateHash rest)
    (left : store.globalShareContainerName.drawn < 26 ^ fileNameValidLen) (userID : Int) :
    store.drawContainerName.2.Invariant generateHash
      (⟨userID, store.drawContainerName.1, []⟩ :: rest) where
  toNamed := invariant.toNamed.create left userID
  fits := List.forall_mem_cons.mpr ⟨Nat.zero_le _, invariant.fits⟩
  sound := by
    -- Flushing the new buffer would give the old state back.
    have same := containerLog_flushContainer (invariant.toNamed.create left userID).distinct
      (invariant.toNamed.unfiled_draw left)
    change Sound generateHash store.catalogue (store.containerLog _)
    rw [← same]
    exact invariant.sound

/-- Append a share to a buffer that has room for it, and list it in the index. -/
theorem addNewShare (invariant : store.Invariant generateHash (buffer :: rest))
    {share : List Byte} (positive : 0 < share.length)
    (room : buffer.shareContainerBuffer.length + share.length ≤ containerBufferSize)
    (userID : Int) :
    (store.addNewShare buffer (generateHash share) userID share).1.Invariant generateHash
      ((store.addNewShare buffer (generateHash share) userID share).2 :: rest) := by
  let grown : ShareContainerBuffer :=
    { buffer with shareContainerBuffer := buffer.shareContainerBuffer ++ share }
  have distinct : ((grown :: rest).map ShareContainerBuffer.shareContainerName).Nodup :=
    invariant.distinct
  have ownLog : store.containerLog (grown :: rest) buffer.shareContainerName =
      buffer.shareContainerBuffer ++ share :=
    containerLog_of_mem distinct List.mem_cons_self
  constructor
  case toNamed => exact invariant.toNamed.addNewShare positive _ userID
  case fits =>
    refine List.forall_mem_cons.mpr ⟨?_, (List.forall_mem_cons.mp invariant.fits).2⟩
    rw [ShareStore.addNewShare, List.length_append]
    exact room
  case sound =>
    have grows : ∀ name, store.containerLog (buffer :: rest) name <+:
        store.containerLog (grown :: rest) name := by
      intro name
      by_cases own : name = buffer.shareContainerName
      · rw [own, ownLog, containerLog_of_mem invariant.distinct List.mem_cons_self]
        exact List.prefix_append _ _
      · have skipped : ∀ first : ShareContainerBuffer,
            first.shareContainerName = buffer.shareContainerName →
            store.containerLog (first :: rest) name = store.containerLog rest name := by
          intro first named
          have different : first.shareContainerName ≠ name := by
            rw [named]
            exact fun equal => own equal.symm
          simp [containerLog, readShareContainer, readShareContainerFromBuffer, different]
        rw [skipped buffer rfl, skipped grown rfl]
    have placed : region (store.containerLog (grown :: rest) buffer.shareContainerName)
        buffer.shareContainerBuffer.length share.length = some share := by
      rw [ownLog]
      exact region_append _ _
    have listed : Sound generateHash
        (update store.catalogue (generateHash share)
          (some (newShareValue buffer userID share.length).place))
        (store.containerLog (grown :: rest)) :=
      (invariant.sound.grow grows).insert placed
    rw [ShareStore.addNewShare, catalogue_put]
    exact listed

end Invariant

theorem intact_preserved : Preserved generateHash (Intact generateHash) where
  perm := fun permuted intact left => (intact left).perm permuted
  refer := fun userID found intact left =>
    (intact left).refer found (ShareIndexValue.place_addReference _ userID)
  flush := by
    intro store buffer rest intact left
    rw [flushContainer_globalShareContainerName] at left
    exact (intact left).flush
  create := by
    intro store rest userID intact left
    have before : store.globalShareContainerName.drawn < 26 ^ fileNameValidLen :=
      Nat.lt_of_succ_lt left
    exact (intact before).create before userID
  addNewShare := fun userID _ positive room intact left =>
    (intact left).addNewShare positive room userID

end ShareStore

end MetaDedup.Server
