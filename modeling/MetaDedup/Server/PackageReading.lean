import MetaDedup.Server.PackageFormat
import MetaDedup.Server.ShareStore

/-! # Well-formed packages

A package that consists of heads, names and entries up to its end has the format of both
stages. For such a package the walk over the bytes is the loop over the files that
`readPackage` finds. -/

namespace MetaDedup.Server

open Foundation Wire

namespace ReceivedPackage

variable {package : ReceivedPackage}

attribute [local irreducible] Buffer.readInt intAdd

structure WholeFile (package : ReceivedPackage) (offset : Int) : Prop where
  nonneg : 0 ≤ offset
  head : package.Inside offset fileShareMDHeadSize
  name : package.NameInside offset
  entries : package.EntriesInside offset

/-- The package is one whole file after another. -/
def WellFormed (package : ReceivedPackage) : Prop :=
  Chain package.shareMDSize package.WholeFile (fun _ => False) package.nextHeadAt 0

theorem WellFormed.firstStage (wellFormed : package.WellFormed) :
    package.FirstStageFormat :=
  wellFormed.imp (fun _ whole => ⟨whole.head.front (by decide), whole.entries⟩)
    (fun _ => id) fun _ _ => rfl

theorem WellFormed.secondStage (wellFormed : package.WellFormed) :
    package.SecondStageFormat :=
  wellFormed.imp (fun _ whole => ⟨whole.name, fun _ => whole.entries⟩)
    (fun _ => False.elim) fun _ _ => rfl

/-! ## Places -/

variable {offset : Nat}

private theorem fullNameSize_natCast (offset : Nat) :
    package.fullNameSize offset =
      package.shareMDBuffer.readInt (offset + fullNameSizeAt) intSize := by
  rw [fullNameSize, ← Nat.cast_add, Int.toNat_natCast]

theorem numOfComingSecrets_natCast (offset : Nat) :
    package.numOfComingSecrets offset =
      package.shareMDBuffer.readInt (offset + numOfComingSecretsAt) intSize := by
  rw [numOfComingSecrets, ← Nat.cast_add, Int.toNat_natCast]

theorem WholeFile.fullNameAt_eq (whole : package.WholeFile offset) :
    fullNameAt offset = offset + fileShareMDHeadSize := by
  have size := package.size_lt
  have bounds := whole.head (by decide)
  exact intAdd_of_lt (by omega) (by omega)

theorem WholeFile.shareMDEntriesAt_eq (whole : package.WholeFile offset) :
    package.shareMDEntriesAt offset = entriesAt package.shareMDBuffer offset := by
  have size := package.size_lt
  have bounds := whole.head (by decide)
  have nonneg := whole.name.nonneg
  have named := whole.name.name
  rw [Inside, whole.fullNameAt_eq] at named
  have sum : package.shareMDEntriesAt offset =
      offset + fileShareMDHeadSize + package.fullNameSize offset := by
    rw [shareMDEntriesAt, whole.fullNameAt_eq]
    apply intAdd_of_lt
    · omega
    · by_cases empty : package.fullNameSize offset = 0
      · omega
      · have inside := named (by omega)
        omega
  rw [sum, entriesAt, ← fullNameSize_natCast]
  push_cast
  omega

theorem WholeFile.nextHeadAt_eq (whole : package.WholeFile offset) :
    package.nextHeadAt offset = nextFileAt package.shareMDBuffer offset := by
  rw [nextHeadAt, whole.shareMDEntriesAt_eq, nextFileAt, numOfComingSecrets_natCast,
    (readFile package.shareMDBuffer offset).entries_length]
  push_cast
  rfl

/-! ## The first stage -/

/-- The index of a store that never fails. -/
def storeIndexUpdate (userID : Int) (store : ShareStore) (shareFP : Fingerprint) :
    Option (ShareStore × Bool) :=
  some (store.intraUserIndexUpdate shareFP userID)

def FirstStageCursor.Agrees (cursor : FirstStageCursor ShareStore)
    (state : ShareStore × FirstStageReply) : Prop :=
  cursor.index = state.1 ∧ cursor.intraUserDupStatList = state.2.intraUserDupStatList

variable (userID : Int) {cursor : FirstStageCursor ShareStore}
variable {state : ShareStore × FirstStageReply}

private theorem reportEntry_agrees (agrees : cursor.Agrees state)
    (inside : package.Inside offset shareMDEntrySize) :
    ∃ next, package.reportEntry (storeIndexUpdate userID) cursor offset = .ok next ∧
      next.Agrees (ShareStore.reportShare userID state
        (readEntry package.shareMDBuffer offset)) := by
  have shareFP : package.Inside offset fpSize := inside.front (by decide)
  have shareSize : package.Inside (offset + shareSizeAt) intSize := inside.field (by decide)
  rcases agrees with ⟨index, flags⟩
  rw [reportEntry, readFingerprint, access_of_inside shareFP, Loop.ok_bind, storeIndexUpdate,
    ShareStore.reportShare, index]
  have same : (readEntry package.shareMDBuffer offset).shareFP =
      ⟨package.shareMDBuffer.slice (offset : Int).toNat fpSize, Buffer.slice_length _ _ _⟩ :=
    rfl
  rw [← same]
  rcases state.1.intraUserIndexUpdate (readEntry package.shareMDBuffer offset).shareFP userID
    with ⟨store, duplicate⟩
  cases duplicate with
  | true => exact ⟨_, rfl, rfl, by rw [flags]⟩
  | false =>
      dsimp only
      rw [readInt, access_of_inside shareSize, Loop.ok_bind]
      exact ⟨_, rfl, rfl, by rw [flags]⟩

private theorem visitEntries_agrees (agrees : cursor.Agrees state) {count : Nat}
    (inside : package.Inside offset (shareMDEntrySize * count)) :
    ∃ next, visitEntries (package.reportEntry (storeIndexUpdate userID)) count cursor
        offset = .ok (next, offset + shareMDEntrySize * count) ∧
      next.Agrees (((List.range count).map fun index =>
        readEntry package.shareMDBuffer (offset + shareMDEntrySize * index)).foldl
          (ShareStore.reportShare userID) state) := by
  induction count generalizing offset cursor state with
  | zero => exact ⟨cursor, by simp [visitEntries], agrees⟩
  | succ count induction =>
      rcases inside_entries_succ_iff.mp inside with ⟨first, rest⟩
      have bounds := first (by decide)
      have size := package.size_lt
      have moved : intAdd offset shareMDEntrySize = (offset + shareMDEntrySize : Nat) :=
        intAdd_of_lt (by omega) (by omega)
      have later : package.Inside ((offset + shareMDEntrySize : Nat) : Int)
          (shareMDEntrySize * count) := by
        push_cast
        exact rest
      have listed : ((List.range (count + 1)).map fun index =>
            readEntry package.shareMDBuffer (offset + shareMDEntrySize * index)) =
          readEntry package.shareMDBuffer offset :: (List.range count).map fun index =>
            readEntry package.shareMDBuffer
              (offset + shareMDEntrySize + shareMDEntrySize * index) := by
        rw [List.range_succ_eq_map, List.map_cons, List.map_map]
        refine congrArg _ (List.map_congr_left fun index _ => ?_)
        rw [Function.comp_apply, Nat.mul_succ, Nat.add_comm (shareMDEntrySize * index),
          Nat.add_assoc]
      rcases reportEntry_agrees userID agrees first with ⟨next, read, agrees'⟩
      rcases induction agrees' later with ⟨last, visited, final⟩
      refine ⟨last, ?_, ?_⟩
      · rw [visitEntries, read, Loop.ok_bind, moved, visited]
        push_cast
        rw [mul_add_one, add_assoc, add_comm (shareMDEntrySize : Int)]
      · rw [listed, List.foldl_cons]
        exact final

private theorem reportFile_agrees (agrees : cursor.Agrees state)
    (whole : package.WholeFile offset) :
    ∃ next, package.reportFile (storeIndexUpdate userID) cursor offset =
        .ok (next, nextFileAt package.shareMDBuffer offset) ∧
      next.Agrees ((readFile package.shareMDBuffer offset).entries.foldl
        (ShareStore.reportShare userID) state) := by
  have nameSize : package.Inside (offset + fullNameSizeAt) intSize :=
    whole.head.field (by decide)
  have coming : package.Inside (offset + numOfComingSecretsAt) intSize :=
    whole.head.field (by decide)
  have entries := whole.entries
  rw [EntriesInside, whole.shareMDEntriesAt_eq] at entries
  rcases visitEntries_agrees userID agrees entries with ⟨next, visited, agrees'⟩
  refine ⟨next, ?_, ?_⟩
  · rw [reportFile, readInt_fullNameSize, access_of_inside nameSize, Loop.ok_bind,
      readInt_numOfComingSecrets, access_of_inside coming, Loop.ok_bind, ← fullNameAt,
      ← shareMDEntriesAt, whole.shareMDEntriesAt_eq, visited, ← whole.shareMDEntriesAt_eq,
      ← nextHeadAt, whole.nextHeadAt_eq]
  · rw [numOfComingSecrets_natCast] at agrees'
    exact agrees'

/-- The walk over the bytes of a well-formed package, from any of its files on. -/
theorem walk_agrees (agrees : cursor.Agrees state) {count : Nat}
    (chain : Chain package.shareMDSize package.WholeFile (fun _ => False)
      package.nextHeadAt offset)
    (enough : package.shareMDSize ≤ offset + count) :
    ∃ fuel final, walk package.shareMDSize (package.reportFile (storeIndexUpdate userID))
        fuel cursor offset = .ok final ∧
      final.Agrees ((readFiles package.shareMDBuffer package.shareMDSize.toNat count
        offset).foldl (fun state file =>
          file.entries.foldl (ShareStore.reportShare userID) state) state) := by
  induction count generalizing offset cursor state with
  | zero =>
      refine ⟨1, cursor, ?_, agrees⟩
      rw [walk, if_neg (by omega)]
  | succ count induction =>
      by_cases below : (offset : Int) < package.shareMDSize
      · cases chain with
        | past reached => omega
        | link whole rest =>
            rcases reportFile_agrees userID agrees whole with ⟨next, reported, agrees'⟩
            have later := rest id
            rw [whole.nextHeadAt_eq] at later
            have further : offset + 1 ≤ nextFileAt package.shareMDBuffer offset := by
              rw [nextFileAt, entriesAt, fileShareMDHeadSize]
              omega
            rcases induction agrees' later (by omega) with ⟨fuel, final, walked, agreed⟩
            refine ⟨fuel + 1, final, ?_, ?_⟩
            · rw [walk, if_pos below, reported, Loop.ok_bind]
              exact walked
            · rw [readFiles, if_pos (by omega), List.foldl_cons]
              exact agreed
      · refine ⟨1, cursor, ?_, ?_⟩
        · rw [walk, if_neg below]
        · rw [readFiles, if_neg (by omega)]
          exact agrees

theorem firstStageDedup_eq_readPackage (wellFormed : package.WellFormed) (store : ShareStore) :
    ∃ fuel final, package.firstStageDedup (storeIndexUpdate userID) fuel store = .ok final ∧
      final.Agrees (store.firstStageDedup userID
        (readPackage package.shareMDBuffer package.shareMDSize.toNat)) := by
  have start : (⟨store, [], 0⟩ : FirstStageCursor ShareStore).Agrees (store, ⟨[], 0⟩) :=
    ⟨rfl, rfl⟩
  exact walk_agrees userID start wellFormed (by omega)

/-- A buffer with a head for a name of a size and a number of entries. -/
def writeHead (buffer : Buffer Byte) (offset : Nat) (fullNameSize numOfComingSecrets : Int) :
    Buffer Byte :=
  (buffer.writeInt (offset + fullNameSizeAt) intSize fullNameSize).writeInt
    (offset + numOfComingSecretsAt) intSize numOfComingSecrets

/-- A name of two bytes with two entries, and a name of one byte with one entry. The second
fingerprint differs from the others. -/
def twoFiles : ReceivedPackage where
  shareMDBuffer := Function.update (writeHead (writeHead (fun _ => 0) 0 2 2) 138 1 1) 94 1
  shareMDSize := 231
  size_lt := by decide

theorem firstStageDedup_eq_readPackage_twoFiles :
    ((readPackage twoFiles.shareMDBuffer 231).map fun file => file.entries.length) = [2, 1] ∧
    ∃ fuel final,
      twoFiles.firstStageDedup (storeIndexUpdate 1) fuel .empty = .ok final ∧
      final.Agrees (ShareStore.empty.firstStageDedup 1
        (readPackage twoFiles.shareMDBuffer 231)) := by
  have first : twoFiles.WholeFile 0 :=
    ⟨by decide, by decide, ⟨by decide, by decide +kernel, by decide +kernel⟩,
      show twoFiles.Inside _ _ by decide +kernel⟩
  have second : twoFiles.WholeFile (twoFiles.nextHeadAt 0) :=
    ⟨by decide +kernel, by decide +kernel,
      ⟨by decide +kernel, by decide +kernel, by decide +kernel⟩,
      show twoFiles.Inside _ _ by decide +kernel⟩
  have wellFormed : twoFiles.WellFormed :=
    .link first fun _ => .link second fun _ => .past (by decide +kernel)
  exact ⟨by decide +kernel, firstStageDedup_eq_readPackage 1 wellFormed .empty⟩

end ReceivedPackage

end MetaDedup.Server
