import MetaDedup.Client.Uploader
import MetaDedup.Server.PackageReading

/-! # The metadata package of a round

What the client has written into its metadata buffer for a list of shares, and what
the server reads from a buffer with the same bytes. -/

namespace MetaDedup.Upload

open Foundation Wire Uploader
open Server (Fingerprint ShareMDEntry FileShareMD readEntry readFile readPackage entriesAt
  nextFileAt readPackage_single ReceivedPackage ShareStore intAdd_of_lt)

/-- The share entry the server is to read for a share. -/
def entry (share : ShareObject) : ShareMDEntry where
  shareFP := share.shareFP
  secretID := share.secretID.toInt
  secretSize := share.secretSize.toInt
  shareSize := share.data.length

/-- Sizes below this bound are the same as `int` values. -/
def intBound : Nat := 2 ^ 31

theorem bmod_of_lt_intBound {value : Nat} (bounded : value < intBound) :
    (value : Int).bmod (2 ^ (8 * intSize)) = value := by
  rw [intBound] at bounded
  rw [intSize]
  apply Int.bmod_eq_of_le <;> omega

/-! ## Entries -/

variable {buffer : Buffer Byte} {offset : Nat}

theorem header_length (share : ShareObject) : share.header.length = shareMDEntrySize := by
  simp only [ShareObject.header, List.length_append, wordBytes_length, share.shareFP.size_eq]
  rfl

private theorem readInt_of_slice_wordBytes {value : Nat} (bounded : value < intBound)
    (holds : buffer.slice offset intSize = wordBytes intSize value) :
    buffer.readInt offset intSize = value := by
  have small : value % 256 ^ intSize = value := by
    apply Nat.mod_eq_of_lt
    rw [intBound] at bounded
    rw [intSize]
    omega
  rw [Buffer.readInt, holds, littleEndian_wordBytes, small, BitVec.toInt_ofNat']
  exact bmod_of_lt_intBound bounded

private theorem slice_header {share : ShareObject}
    (holds : buffer.slice offset shareMDEntrySize = share.header) :
    buffer.slice offset Server.fpSize = share.shareFP.bytes ∧
      buffer.slice (offset + secretIDAt) intSize =
        wordBytes intSize share.secretID.toNat ∧
      buffer.slice (offset + secretSizeAt) intSize =
        wordBytes intSize share.secretSize.toNat ∧
      buffer.slice (offset + shareSizeAt) intSize =
        wordBytes intSize share.data.length := by
  have parts : shareMDEntrySize = Server.fpSize + intSize + intSize + intSize := rfl
  rw [parts, Buffer.slice_add, Buffer.slice_add, Buffer.slice_add, ShareObject.header] at holds
  rcases List.append_inj' holds (by simp) with ⟨holds, shareSize⟩
  rcases List.append_inj' holds (by simp) with ⟨holds, secretSize⟩
  rcases List.append_inj' holds (by simp) with ⟨shareFP, secretID⟩
  exact ⟨shareFP, secretID, secretSize, shareSize⟩

private theorem readEntry_of_slice {share : ShareObject} (bounded : share.data.length < intBound)
    (holds : buffer.slice offset shareMDEntrySize = share.header) :
    readEntry buffer offset = entry share := by
  rcases slice_header holds with ⟨shareFP, secretID, secretSize, shareSize⟩
  rw [readEntry, entry, readInt_of_slice_word secretID, readInt_of_slice_word secretSize,
    readInt_of_slice_wordBytes bounded shareSize, Int.toNat_natCast]
  congr

/-! ## Packages -/

def entryAt (name : List Byte) (index : Nat) : Nat :=
  fileShareMDHeadSize + name.length + shareMDEntrySize * index

/-- A buffer holds the head, the name and the entries of shares. -/
structure HoldsPackage (name : List Byte) (shares : List ShareObject)
    (metaBuffer : Buffer Byte) : Prop where
  fullNameSize : metaBuffer.readInt fullNameSizeAt intSize = name.length
  numOfComingSecrets : metaBuffer.readInt numOfComingSecretsAt intSize = shares.length
  fullName : metaBuffer.slice fileShareMDHeadSize name.length = name
  entries : ∀ index (inside : index < shares.length),
    metaBuffer.slice (entryAt name index) shareMDEntrySize = shares[index].header

namespace HoldsPackage

variable {name : List Byte} {shares : List ShareObject} {metaBuffer other : Buffer Byte}

theorem congr (holds : HoldsPackage name shares metaBuffer)
    (same : other.slice 0 (entryAt name shares.length) =
      metaBuffer.slice 0 (entryAt name shares.length)) :
    HoldsPackage name shares other := by
  have equal : ∀ start length, start + length ≤ entryAt name shares.length →
      other.slice start length = metaBuffer.slice start length := by
    intro start length inside
    simpa using Buffer.slice_sub same inside
  have head : fileShareMDHeadSize + name.length ≤ entryAt name shares.length :=
    Nat.le_add_right _ _
  have size : fileShareMDHeadSize = 48 := rfl
  exact
    { fullNameSize := by
        rw [Buffer.readInt_congr (equal _ _ (by rw [fullNameSizeAt, intSize]; omega))]
        exact holds.fullNameSize
      numOfComingSecrets := by
        rw [Buffer.readInt_congr (equal _ _ (by rw [numOfComingSecretsAt, intSize]; omega))]
        exact holds.numOfComingSecrets
      fullName := by
        rw [equal _ _ head]
        exact holds.fullName
      entries := by
        intro index inside
        rw [equal _ _ _]
        · exact holds.entries index inside
        · rw [entryAt, entryAt, shareMDEntrySize]
          omega }

theorem read (holds : HoldsPackage name shares metaBuffer)
    (bounded : ∀ share ∈ shares, share.data.length < intBound) :
    readPackage metaBuffer (entryAt name shares.length) = [readFile metaBuffer 0] ∧
      (readFile metaBuffer 0).fullName = name ∧
      (readFile metaBuffer 0).entries = shares.map entry := by
  have begins : entriesAt metaBuffer 0 = fileShareMDHeadSize + name.length := by
    rw [entriesAt, Nat.zero_add, Nat.zero_add, holds.fullNameSize, Int.toNat_natCast]
  have entries : (readFile metaBuffer 0).entries = shares.map entry := by
    simp only [readFile, Nat.zero_add, holds.numOfComingSecrets, Int.toNat_natCast, begins]
    apply List.ext_getElem
    · simp
    · intro index _ inside
      rw [List.length_map] at inside
      rw [List.getElem_map, List.getElem_range, List.getElem_map]
      exact readEntry_of_slice (bounded _ (List.getElem_mem inside))
        (holds.entries index inside)
  have ends : nextFileAt metaBuffer 0 = entryAt name shares.length := by
    rw [nextFileAt, begins, entries, List.length_map, entryAt]
  refine ⟨?_, ?_, entries⟩
  · rw [← ends]
    exact readPackage_single metaBuffer
  · simp only [readFile, Nat.zero_add, holds.fullNameSize, Int.toNat_natCast]
    exact holds.fullName

private theorem wellFormed {package : ReceivedPackage}
    (holds : HoldsPackage name shares package.shareMDBuffer)
    (size : package.shareMDSize = entryAt name shares.length) : package.WellFormed := by
  have bounded := package.size_lt
  rw [size, entryAt, fileShareMDHeadSize, shareMDEntrySize] at bounded
  have nameSize : package.fullNameSize 0 = name.length := holds.fullNameSize
  have coming : package.numOfComingSecrets 0 = shares.length := holds.numOfComingSecrets
  have nameAt : ReceivedPackage.fullNameAt 0 = fileShareMDHeadSize :=
    intAdd_of_lt (by decide) (by decide)
  have entriesAt : package.shareMDEntriesAt 0 = fileShareMDHeadSize + name.length := by
    rw [ReceivedPackage.shareMDEntriesAt, nameAt, nameSize]
    apply intAdd_of_lt <;> rw [fileShareMDHeadSize] <;> omega
  have inside : ∀ {offset : Int} {count : Nat}, 0 ≤ offset →
      offset + count ≤ entryAt name shares.length → package.Inside offset count := by
    intro offset count nonneg fits _
    rw [size]
    exact ⟨nonneg, fits⟩
  refine .link ⟨le_rfl, ?_, ⟨?_, ?_, ?_⟩, ?_⟩ fun _ => .past ?_
  · apply inside le_rfl
    rw [entryAt, fileShareMDHeadSize]
    omega
  · apply inside le_rfl
    rw [entryAt, fileShareMDHeadSize, intSize]
    omega
  · rw [nameSize]
    omega
  · rw [nameAt, nameSize, Int.toNat_natCast]
    apply inside (Int.natCast_nonneg _)
    rw [entryAt]
    omega
  · rw [ReceivedPackage.EntriesInside, entriesAt, coming, Int.toNat_natCast]
    apply inside (by omega)
    rw [entryAt]
    push_cast
    omega
  · rw [ReceivedPackage.nextHeadAt, entriesAt, coming, Int.toNat_natCast, size, entryAt]
    push_cast
    omega

/-- Both stages return on the package and read only its bytes, in either core. The first
stage asks the index about the shares of the client, in their order. -/
theorem client_package_parsed {package : ReceivedPackage}
    (holds : HoldsPackage name shares package.shareMDBuffer)
    (size : package.shareMDSize = entryAt name shares.length)
    (bounded : ∀ share ∈ shares, share.data.length < intBound) (userID : Int)
    (store : ShareStore) :
    package.FirstStageTotal ∧ ReceivedPackage.MinDedupCore.SecondStageTotal package ∧
      ReceivedPackage.DedupCore.SecondStageTotal package ∧
      ∃ fuel final, package.firstStageDedup (ReceivedPackage.storeIndexUpdate userID) fuel
          store = .ok final ∧
        final.Agrees ((shares.map entry).foldl (ShareStore.reportShare userID)
          (store, ⟨[], 0⟩)) := by
  have wellFormed := holds.wellFormed size
  refine ⟨ReceivedPackage.firstStageTotal_iff.mpr wellFormed.firstStage,
    ReceivedPackage.MinDedupCore.secondStageTotal_iff.mpr wellFormed.secondStage,
    ReceivedPackage.DedupCore.secondStageTotal_iff.mpr wellFormed.secondStage, ?_⟩
  have start : (⟨store, [], 0⟩ : ReceivedPackage.FirstStageCursor ShareStore).Agrees
      (store, ⟨[], 0⟩) := ⟨rfl, rfl⟩
  have enough : package.shareMDSize ≤ (0 : Nat) + (entryAt name shares.length : Nat) := by
    omega
  rcases ReceivedPackage.walk_agrees userID start wellFormed enough with
    ⟨fuel, final, returned, agrees⟩
  rcases holds.read bounded with ⟨files, -, entries⟩
  refine ⟨fuel, final, returned, ?_⟩
  rw [readPackage] at files
  rw [size, Int.toNat_natCast, files, List.foldl_cons, List.foldl_nil, entries] at agrees
  exact agrees

/-- Two shares of different sizes, under the name `ab`. -/
theorem client_package_parsed_twoShares :
    ∃ (first second : ShareObject) (package : ReceivedPackage),
      HoldsPackage [97, 98, 0] [first, second] package.shareMDBuffer ∧
      package.FirstStageTotal ∧ ∃ fuel final,
        package.firstStageDedup (ReceivedPackage.storeIndexUpdate 1) fuel .empty = .ok final ∧
        final.Agrees ([entry first, entry second].foldl (ShareStore.reportShare 1)
          (.empty, ⟨[], 0⟩)) := by
  let first : ShareObject := ⟨⟨List.replicate 32 1, rfl⟩, 0, 5, [7, 8]⟩
  let second : ShareObject := ⟨⟨List.replicate 32 2, rfl⟩, 1, 6, [9]⟩
  let package : ReceivedPackage :=
    { shareMDBuffer := (ReceivedPackage.writeHead (fun _ => 0) 0 3 2).copy fileShareMDHeadSize
        (.ofList ([97, 98, 0] ++ first.header ++ second.header) 0) 91
      shareMDSize := 139
      size_lt := by decide }
  have holds : HoldsPackage [97, 98, 0] [first, second] package.shareMDBuffer :=
    ⟨by decide +kernel, by decide +kernel, by decide +kernel, by decide +kernel⟩
  have parsed := holds.client_package_parsed rfl (by decide) 1 .empty
  exact ⟨first, second, package, holds, parsed.1, parsed.2.2.2⟩

end HoldsPackage

end MetaDedup.Upload
