import MetaDedup.Upload.Package

/-! # The buffers of the client during a round

What the client has collected since the last upload is given by a list of shares. The
metadata buffer holds the package for them, the container buffer their data, and the
array of share sizes their sizes. -/

namespace MetaDedup.Upload

open Foundation Wire Uploader
open Server (uniqueData)

def shareData (shares : List ShareObject) : List Byte :=
  (shares.map ShareObject.data).flatten

@[simp] theorem shareData_cons (share : ShareObject) (shares : List ShareObject) :
    shareData (share :: shares) = share.data ++ shareData shares := rfl

theorem shareData_append (shares : List ShareObject) (share : ShareObject) :
    shareData (shares ++ [share]) = shareData shares ++ share.data := by
  simp [shareData]

/-- The buffers hold a name and the shares placed since the last upload. -/
structure Collected (name : List Byte) (placed : List ShareObject)
    (buffers : UploadBuffers) : Prop where
  header : buffers.header = 0
  package : HoldsPackage name placed buffers.uploadMetaBuffer
  metaWP : buffers.metaWP = entryAt name placed.length
  containerWP : buffers.containerWP = (shareData placed).length
  container : buffers.uploadContainer.slice 0 (shareData placed).length = shareData placed
  numOfShares : buffers.numOfShares = placed.length
  sizes : ∀ index (inside : index < placed.length),
    buffers.shareSizeArray index = placed[index].data.length

/-! ## The metadata buffer -/

variable {metaBuffer : Buffer Byte} {name : List Byte} {placed : List ShareObject}

/-- Count a share in the header at the start of a metadata buffer. -/
def countShare (metaBuffer : Buffer Byte) (secretSize : Int) : Buffer Byte :=
  let counted := metaBuffer.writeInt numOfComingSecretsAt intSize
    (metaBuffer.readInt numOfComingSecretsAt intSize + 1)
  counted.writeInt sizeOfComingSecretsAt longSize
    (counted.readInt sizeOfComingSecretsAt longSize + secretSize)

theorem slice_countShare (metaBuffer : Buffer Byte) (secretSize : Int) {start length : Nat}
    (apart : start + length ≤ numOfComingSecretsAt ∨ fileShareMDHeadSize ≤ start) :
    (countShare metaBuffer secretSize).slice start length = metaBuffer.slice start length := by
  rw [numOfComingSecretsAt, fileShareMDHeadSize] at apart
  rw [countShare, Buffer.slice_writeInt_of_disjoint, Buffer.slice_writeInt_of_disjoint]
  · rw [numOfComingSecretsAt, intSize]
    omega
  · rw [sizeOfComingSecretsAt, longSize]
    omega

private theorem countShare_numOfComingSecrets {count : Nat}
    (counted : metaBuffer.readInt numOfComingSecretsAt intSize = count)
    (bounded : count + 1 < intBound) (secretSize : Int) :
    (countShare metaBuffer secretSize).readInt numOfComingSecretsAt intSize =
      (count + 1 : Nat) := by
  have apart : numOfComingSecretsAt + intSize ≤ sizeOfComingSecretsAt := by decide
  rw [countShare, Buffer.readInt_congr (Buffer.slice_writeInt_of_disjoint _ _ (.inl apart)),
    Buffer.readInt_writeInt, counted]
  exact bmod_of_lt_intBound bounded

theorem HoldsPackage.putShare (holds : HoldsPackage name placed metaBuffer)
    (share : ShareObject) (bounded : placed.length + 1 < intBound) (secretSize : Int) :
    HoldsPackage name (placed ++ [share]) (countShare
      (metaBuffer.write (entryAt name placed.length) share.header) secretSize) := by
  have head : fileShareMDHeadSize + name.length ≤ entryAt name placed.length :=
    Nat.le_add_right _ _
  have written : ∀ start length, start + length ≤ entryAt name placed.length →
      (metaBuffer.write (entryAt name placed.length) share.header).slice start length =
        metaBuffer.slice start length := by
    intro start length inside
    exact Buffer.slice_write_of_disjoint _ (.inl inside)
  have fields : fullNameSizeAt + intSize ≤ fileShareMDHeadSize ∧
      numOfComingSecretsAt + intSize ≤ fileShareMDHeadSize := by decide
  exact
    { fullNameSize := by
        rw [Buffer.readInt_congr (slice_countShare _ _ (.inl (by decide))),
          Buffer.readInt_congr (written _ _ (by omega)), holds.fullNameSize]
      numOfComingSecrets := by
        rw [List.length_append, List.length_singleton]
        apply countShare_numOfComingSecrets _ bounded
        rw [Buffer.readInt_congr (written _ _ (by omega)), holds.numOfComingSecrets]
      fullName := by
        rw [slice_countShare _ _ (.inr (Nat.le_refl _)), written _ _ head, holds.fullName]
      entries := by
        intro index inside
        have behind : fileShareMDHeadSize ≤ entryAt name index := by
          rw [entryAt]
          omega
        rw [slice_countShare _ _ (.inr behind)]
        rw [List.length_append, List.length_singleton] at inside
        by_cases last : index = placed.length
        · subst last
          rw [List.getElem_concat_length rfl, ← header_length share]
          exact Buffer.slice_write _ _ _
        · rw [written _ _ (by rw [entryAt, entryAt, shareMDEntrySize]; omega),
            List.getElem_append_left (by omega)]
          exact holds.entries index (by omega) }

theorem HoldsPackage.putFileHeader (metaBuffer : Buffer Byte) {head data : Buffer Byte}
    (fullNameSize : head.readInt fullNameSizeAt intSize = name.length)
    (numOfComingSecrets : head.readInt numOfComingSecretsAt intSize = 0)
    (fullName : data.slice 0 name.length = name) :
    HoldsPackage name [] ((metaBuffer.copy 0 head fileShareMDHeadSize).copy
      fileShareMDHeadSize data name.length) := by
  have fields : ∀ field, field + intSize ≤ fileShareMDHeadSize →
      Buffer.readInt ((metaBuffer.copy 0 head fileShareMDHeadSize).copy fileShareMDHeadSize
        data name.length) field intSize = head.readInt field intSize := by
    intro field inside
    rw [Buffer.readInt_congr (Buffer.slice_copy_of_disjoint _ _ (.inl inside))]
    exact Buffer.readInt_congr (Buffer.slice_copy_zero _ _ inside)
  exact
    { fullNameSize := (fields fullNameSizeAt (by decide)).trans fullNameSize
      numOfComingSecrets := (fields numOfComingSecretsAt (by decide)).trans numOfComingSecrets
      fullName := by rw [Buffer.slice_copy, fullName]
      entries := fun index inside => nomatch inside }

/-- Move the counts of a round to those of the past. -/
def resetHeader (metaBuffer : Buffer Byte) : Buffer Byte :=
  let past := metaBuffer.writeInt numOfPastSecretsAt intSize
    (metaBuffer.readInt numOfPastSecretsAt intSize +
      metaBuffer.readInt numOfComingSecretsAt intSize)
  let past := past.writeInt sizeOfPastSecretsAt longSize
    (past.readInt sizeOfPastSecretsAt longSize +
      past.readInt sizeOfComingSecretsAt longSize)
  (past.writeInt numOfComingSecretsAt intSize 0).writeInt sizeOfComingSecretsAt longSize 0

theorem slice_resetHeader (metaBuffer : Buffer Byte) {start length : Nat}
    (apart : start + length ≤ numOfPastSecretsAt ∨ fileShareMDHeadSize ≤ start) :
    (resetHeader metaBuffer).slice start length = metaBuffer.slice start length := by
  rw [numOfPastSecretsAt, fileShareMDHeadSize] at apart
  rw [resetHeader, Buffer.slice_writeInt_of_disjoint, Buffer.slice_writeInt_of_disjoint,
    Buffer.slice_writeInt_of_disjoint, Buffer.slice_writeInt_of_disjoint]
  · rw [numOfPastSecretsAt, intSize]
    omega
  · rw [sizeOfPastSecretsAt, longSize]
    omega
  · rw [numOfComingSecretsAt, intSize]
    omega
  · rw [sizeOfComingSecretsAt, longSize]
    omega

theorem HoldsPackage.resetHeader (holds : HoldsPackage name placed metaBuffer) :
    HoldsPackage name [] (resetHeader metaBuffer) where
  fullNameSize := by
    rw [Buffer.readInt_congr (slice_resetHeader _ (.inl (by decide))), holds.fullNameSize]
  numOfComingSecrets := by
    have apart : numOfComingSecretsAt + intSize ≤ sizeOfComingSecretsAt := by decide
    rw [Upload.resetHeader,
      Buffer.readInt_congr (Buffer.slice_writeInt_of_disjoint _ _ (.inl apart)),
      Buffer.readInt_writeInt]
    rfl
  fullName := by rw [slice_resetHeader _ (.inr (Nat.le_refl _)), holds.fullName]
  entries := fun index inside => nomatch inside

/-! ## Steps of the client -/

namespace Collected

variable {name : List Byte} {placed : List ShareObject} {buffers : UploadBuffers}

theorem length_le (nonempty : ∀ share ∈ placed, 1 ≤ share.data.length) :
    placed.length ≤ (shareData placed).length := by
  induction placed with
  | nil => exact Nat.zero_le _
  | cons share rest induction =>
      have later := induction fun other member => nonempty other (List.mem_cons_of_mem _ member)
      have first := nonempty share List.mem_cons_self
      simp only [shareData, List.map_cons, List.flatten_cons, List.length_append,
        List.length_cons] at later ⊢
      omega

theorem putFileHeader_buffer (empty : buffers.metaWP = 0) {head : Buffer Byte}
    (data : Buffer Byte) (fullNameSize : head.readInt fullNameSizeAt intSize = name.length) :
    (buffers.putFileHeader head data).uploadMetaBuffer =
      (buffers.uploadMetaBuffer.copy 0 head fileShareMDHeadSize).copy fileShareMDHeadSize data
        name.length := by
  simp only [UploadBuffers.putFileHeader, empty, fullNameSize, Int.toNat_natCast,
    Nat.zero_add]

theorem putFileHeader (empty : buffers.metaWP = 0 ∧ buffers.containerWP = 0 ∧
      buffers.numOfShares = 0) {head data : Buffer Byte}
    (fullNameSize : head.readInt fullNameSizeAt intSize = name.length)
    (numOfComingSecrets : head.readInt numOfComingSecretsAt intSize = 0)
    (fullName : data.slice 0 name.length = name) :
    Collected name [] (buffers.putFileHeader head data) := by
  rcases empty with ⟨metaWP, containerWP, numOfShares⟩
  have package := HoldsPackage.putFileHeader buffers.uploadMetaBuffer fullNameSize
    numOfComingSecrets fullName
  have buffer := putFileHeader_buffer metaWP data fullNameSize
  rw [← buffer] at package
  exact
    { header := metaWP
      package := package
      metaWP := by
        have read := package.fullNameSize
        rw [buffer] at read
        simp only [UploadBuffers.putFileHeader, UploadBuffers.headerField, metaWP,
          fullNameSize, Int.toNat_natCast, Nat.zero_add, read]
        rfl
      containerWP := containerWP
      container := rfl
      numOfShares := numOfShares
      sizes := fun index inside => nomatch inside }

theorem putShare_buffer (collected : Collected name placed buffers) (share : ShareObject) :
    (buffers.putShare share).uploadMetaBuffer =
      countShare (buffers.uploadMetaBuffer.write (entryAt name placed.length) share.header)
        share.secretSize.toInt := by
  simp only [UploadBuffers.putShare, UploadBuffers.setHeaderField,
    UploadBuffers.headerField, collected.header, collected.metaWP, Nat.zero_add]
  rfl

theorem putShare (collected : Collected name placed buffers) (share : ShareObject)
    (bounded : placed.length + 1 < intBound) :
    Collected name (placed ++ [share]) (buffers.putShare share) := by
  have buffer := collected.putShare_buffer share
  exact
    { header := collected.header
      package := by
        rw [buffer]
        exact collected.package.putShare share bounded _
      metaWP := by
        change buffers.metaWP + shareMDEntrySize = _
        rw [collected.metaWP, List.length_append, List.length_singleton, entryAt, entryAt,
          Nat.mul_succ, Nat.add_assoc]
      containerWP := by
        change buffers.containerWP + share.data.length = _
        rw [collected.containerWP, shareData_append, List.length_append]
      container := by
        change (buffers.uploadContainer.write buffers.containerWP share.data).slice 0 _ = _
        rw [collected.containerWP, shareData_append, List.length_append,
          Buffer.slice_write_end, collected.container]
      numOfShares := by
        change buffers.numOfShares + 1 = _
        rw [collected.numOfShares, List.length_append, List.length_singleton]
      sizes := by
        intro index inside
        change buffers.shareSizeArray.write buffers.numOfShares [share.data.length] index = _
        rw [List.length_append, List.length_singleton] at inside
        rw [collected.numOfShares]
        by_cases last : index = placed.length
        · subst last
          rw [List.getElem_concat_length rfl]
          have first : 0 < [share.data.length].length := Nat.zero_lt_one
          exact Buffer.write_inside buffers.shareSizeArray placed.length first
        · rw [Buffer.write_outside _ (.inl (by omega)), List.getElem_append_left (by omega)]
          exact collected.sizes index (by omega) }

theorem updateHeader_buffer (header : buffers.header = 0) :
    buffers.updateHeader.uploadMetaBuffer = resetHeader buffers.uploadMetaBuffer := by
  simp only [UploadBuffers.updateHeader, UploadBuffers.setHeaderField,
    UploadBuffers.headerField, header, Nat.zero_add, Buffer.copy_advance_zero]
  rfl

theorem updateHeader (header : buffers.header = 0)
    (package : HoldsPackage name placed buffers.uploadMetaBuffer) :
    Collected name [] buffers.updateHeader := by
  have buffer := updateHeader_buffer header
  exact
    { header := by
        simp only [UploadBuffers.updateHeader, UploadBuffers.setHeaderField, header]
      package := by
        rw [buffer]
        exact package.resetHeader
      metaWP := by
        simp only [UploadBuffers.updateHeader, UploadBuffers.headerField, header,
          Nat.zero_add, package.fullNameSize, Int.toNat_natCast]
        rfl
      containerWP := rfl
      container := rfl
      numOfShares := rfl
      sizes := fun index inside => nomatch inside }

end Collected

/-! ## The reconstruction of the container buffer -/

/-- A share without the flag is moved to the end of those that are kept. It comes from
further behind, so the rest is still in place. -/
theorem keepShare_moves (shareSizeArray : Buffer Nat) {state : UploadBuffers.Reconstruction}
    {share rest : List Byte} (currentSize : shareSizeArray state.index = share.length)
    (ordered : state.indexCount ≤ state.containerIndex)
    (front : state.uploadContainer.slice state.containerIndex share.length = share)
    (back : state.uploadContainer.slice (state.containerIndex + share.length) rest.length =
      rest) :
    ∃ moved, UploadBuffers.keepShare shareSizeArray state false =
        ⟨moved, state.index + 1, state.indexCount + share.length,
          state.containerIndex + share.length⟩ ∧
      moved.slice 0 (state.indexCount + share.length) =
        state.uploadContainer.slice 0 state.indexCount ++ share ∧
      moved.slice (state.containerIndex + share.length) rest.length = rest := by
  refine ⟨state.uploadContainer.copy state.indexCount
    (state.uploadContainer.advance state.containerIndex) share.length, ?_, ?_, ?_⟩
  · rw [← currentSize]
    rfl
  · have before := state.uploadContainer.slice_copy_of_disjoint
      (state.uploadContainer.advance state.containerIndex)
      (.inl (Nat.le_of_eq (Nat.zero_add _)) :
        0 + state.indexCount ≤ state.indexCount ∨ state.indexCount + share.length ≤ 0)
    have copied := state.uploadContainer.slice_copy state.indexCount
      (state.uploadContainer.advance state.containerIndex) share.length
    rw [Buffer.slice_advance, Nat.add_zero, front] at copied
    rw [Buffer.slice_add, Nat.zero_add]
    exact congrArg₂ (· ++ ·) before copied
  · have apart := state.uploadContainer.slice_copy_of_disjoint
      (state.uploadContainer.advance state.containerIndex)
      (.inr (Nat.add_le_add_right ordered share.length) :
        state.containerIndex + share.length + rest.length ≤ state.indexCount ∨ _)
    exact apart.trans back

/-- The passes over the shares that are left. A share is only moved to the front, so
those behind it are still in place. -/
theorem foldl_keepShare (shareSizeArray : Buffer Nat) {left : List (List Byte)}
    {flags : List Bool} (size : flags.length = left.length)
    (state : UploadBuffers.Reconstruction)
    (sizes : ∀ index (inside : index < left.length),
      shareSizeArray (state.index + index) = left[index].length)
    (ordered : state.indexCount ≤ state.containerIndex)
    (data : state.uploadContainer.slice state.containerIndex left.flatten.length =
      left.flatten) :
    let final := flags.foldl (UploadBuffers.keepShare shareSizeArray) state
    final.indexCount = state.indexCount + (uniqueData left flags).length ∧
      final.uploadContainer.slice 0 final.indexCount =
        state.uploadContainer.slice 0 state.indexCount ++ uniqueData left flags := by
  induction left generalizing flags state with
  | nil =>
      cases flags with
      | nil => exact ⟨rfl, (List.append_nil _).symm⟩
      | cons status flags => cases size
  | cons share left induction =>
      cases flags with
      | nil => cases size
      | cons status flags =>
          have currentSize : shareSizeArray state.index = share.length :=
            sizes 0 (Nat.succ_pos _)
          have later : ∀ index (inside : index < left.length),
              shareSizeArray (state.index + 1 + index) = left[index].length := by
            intro index inside
            rw [Nat.add_right_comm, Nat.add_assoc]
            exact sizes (index + 1) (Nat.succ_lt_succ inside)
          rw [List.flatten_cons, List.length_append, Buffer.slice_add] at data
          rcases List.append_inj data (by rw [Buffer.slice_length]) with ⟨front, back⟩
          rw [List.foldl_cons]
          cases status with
          | true =>
              have skipped : UploadBuffers.keepShare shareSizeArray state true =
                  { state with
                    index := state.index + 1
                    containerIndex := state.containerIndex + share.length } := by
                rw [← currentSize]
                rfl
              rw [skipped, uniqueData, if_pos rfl, List.nil_append]
              exact induction (Nat.succ.inj size) _ later (by dsimp only; omega) back
          | false =>
              rcases keepShare_moves shareSizeArray currentSize ordered front back with
                ⟨moved, kept, joined, behind⟩
              rcases induction (Nat.succ.inj size) ⟨moved, _, _, _⟩ later
                (Nat.add_le_add_right ordered _) behind with ⟨count, slice⟩
              rw [kept, uniqueData, if_neg Bool.false_ne_true]
              constructor
              · rw [count, List.length_append]
                exact Nat.add_assoc _ _ _
              · rw [slice, joined, List.append_assoc]

theorem Collected.performUpload
    {buffers : UploadBuffers} (collected : Collected name placed buffers)
    {flags : List Bool} (size : flags.length = placed.length) :
    (buffers.performUpload flags).2 = uniqueData (placed.map ShareObject.data) flags := by
  have sizes : ∀ index (inside : index < (placed.map ShareObject.data).length),
      buffers.shareSizeArray (0 + index) = (placed.map ShareObject.data)[index].length := by
    intro index inside
    rw [List.length_map] at inside
    rw [Nat.zero_add, List.getElem_map]
    exact collected.sizes index inside
  have same : flags.length = (placed.map ShareObject.data).length := by
    rw [size, List.length_map]
  exact (foldl_keepShare buffers.shareSizeArray same ⟨buffers.uploadContainer, 0, 0, 0⟩ sizes
    (Nat.le_refl 0) collected.container).2

end MetaDedup.Upload
