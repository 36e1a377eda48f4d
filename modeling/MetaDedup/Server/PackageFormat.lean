import MetaDedup.Server.PackageParsing

/-! # Which packages can be parsed

A package is a sequence of heads, names and entries. The stages find the next head where
the sizes in the last one say it is. They come to the end and stay inside the package
exactly when the heads they find form a finite chain and announce only what is there. -/

namespace MetaDedup.Server

open Foundation Wire

theorem intAdd_of_lt {left right : Int} (nonneg : 0 ≤ left + right)
    (bounded : left + right < 2 ^ 31) : intAdd left right = left + right := by
  rw [intAdd, intSize]
  apply Int.bmod_eq_of_le <;> omega

private theorem intAdd_of_le {left right : Int} (large : 2 ^ 31 ≤ left + right)
    (bounded : left + right < 2 ^ 32) : intAdd left right = left + right - 2 ^ 32 := by
  have remainder : (left + right) % (2 ^ 32 : Nat) = left + right :=
    Int.emod_eq_of_lt (by omega) (by omega)
  rw [intAdd, intSize, Int.bmod_def, remainder, if_neg (by omega)]
  rfl

namespace ReceivedPackage

variable {package : ReceivedPackage}

-- What the bytes say is never computed below, and Lean should not try to.
attribute [local irreducible] Buffer.readInt intAdd longAdd

/-! ## Accesses -/

variable {offset : Int} {count : Nat}

theorem Inside.field {position size : Nat}
    (outer : package.Inside offset count) (fits : position + size ≤ count) :
    package.Inside (offset + position) size := by
  intro positive
  have bounds := outer (by omega)
  omega

theorem Inside.front {size : Nat}
    (outer : package.Inside offset count) (fits : size ≤ count) :
    package.Inside offset size := by
  intro positive
  have bounds := outer (by omega)
  omega

theorem inside_entries_succ_iff :
    package.Inside offset (shareMDEntrySize * (count + 1)) ↔
      package.Inside offset shareMDEntrySize ∧
        package.Inside (offset + shareMDEntrySize) (shareMDEntrySize * count) := by
  rw [Inside, Inside, Inside, shareMDEntrySize]
  omega

theorem access_of_inside {α : Type} (inside : package.Inside offset count) (value : α) :
    package.access offset count value = .ok value := if_pos inside

theorem ifEnds_access_bind_iff {α β : Type} {value : α}
    {rest : α → Parsing β} {post : β → Prop} {left : Prop} :
    Halt.IfEnds (package.access offset count value >>= rest) post left ↔
      (package.Inside offset count → Halt.IfEnds (rest value) post left) := by
  by_cases inside : package.Inside offset count
  · rw [access_of_inside inside, Loop.ok_bind]
    exact ⟨fun ends _ => ends, fun ends => ends inside⟩
  · rw [access, if_neg inside]
    exact ⟨fun _ held => absurd held inside, fun _ => trivial⟩

theorem ends_attempt {σ : Type} (result : Option σ) :
    Halt.Ends (attempt result) (fun _ => True) True := by
  cases result <;> trivial

/-! ## Entries -/

section Entries

variable {σ : Type} {visit : σ → Int → Parsing σ}

private theorem visitEntries_ends (safe : ∀ cursor offset, package.Inside offset shareMDEntrySize →
      Halt.Ends (visit cursor offset) (fun _ => True) True)
    {count : Nat} {offset : Int} (inside : package.Inside offset (shareMDEntrySize * count))
    (cursor : σ) :
    Halt.Ends (visitEntries visit count cursor offset)
      (fun visited => visited.2 = offset + shareMDEntrySize * count) True := by
  induction count generalizing offset cursor with
  | zero => exact (by simp : offset = offset + shareMDEntrySize * (0 : Nat))
  | succ count induction =>
      rcases inside_entries_succ_iff.mp inside with ⟨first, rest⟩
      have bounds := first (by decide)
      have size := package.size_lt
      have same : intAdd offset shareMDEntrySize = offset + shareMDEntrySize :=
        intAdd_of_lt (by omega) (by omega)
      rw [visitEntries, Halt.ends_bind_iff]
      refine (safe cursor offset first).imp (fun next _ => ?_) id
      rw [same]
      refine (induction rest next).imp (fun visited reached => ?_) id
      rw [reached]
      push_cast
      ring

private theorem visitEntries_ifEnds (faithful : ∀ cursor offset,
      Halt.IfEnds (visit cursor offset) (fun _ => package.Inside offset shareMDEntrySize) False)
    (count : Nat) (offset : Int) (cursor : σ) :
    Halt.IfEnds (visitEntries visit count cursor offset)
      (fun visited => package.Inside offset (shareMDEntrySize * count) ∧
        visited.2 = offset + shareMDEntrySize * count) False := by
  induction count generalizing offset cursor with
  | zero =>
      refine ⟨fun positive => absurd positive (Nat.lt_irrefl 0), ?_⟩
      simp
  | succ count induction =>
      rw [visitEntries, Halt.ifEnds_bind_iff]
      refine (faithful cursor offset).imp (fun next first => ?_) id
      have bounds := first (by decide)
      have size := package.size_lt
      have same : intAdd offset shareMDEntrySize = offset + shareMDEntrySize :=
        intAdd_of_lt (by omega) (by omega)
      rw [same]
      refine (induction (offset + shareMDEntrySize) next).imp (fun visited reached => ?_) id
      refine ⟨inside_entries_succ_iff.mpr ⟨first, reached.1⟩, ?_⟩
      rw [reached.2]
      push_cast
      ring

end Entries

/-! ## The format -/

variable (package)

/-- The field at an offset, whether it is inside or not. -/
def fullNameSize (offset : Int) : Int :=
  package.shareMDBuffer.readInt (offset + fullNameSizeAt).toNat intSize

@[inherit_doc fullNameSize]
def numOfComingSecrets (offset : Int) : Int :=
  package.shareMDBuffer.readInt (offset + numOfComingSecretsAt).toNat intSize

def fullNameAt (offset : Int) : Int :=
  intAdd offset fileShareMDHeadSize

def fullName (offset : Int) : List Byte :=
  package.shareMDBuffer.slice (fullNameAt offset).toNat (package.fullNameSize offset).toNat

def shareMDEntriesAt (offset : Int) : Int :=
  intAdd (fullNameAt offset) (package.fullNameSize offset)

def nextHeadAt (offset : Int) : Int :=
  package.shareMDEntriesAt offset + shareMDEntrySize * (package.numOfComingSecrets offset).toNat

def EntriesInside (offset : Int) : Prop :=
  package.Inside (package.shareMDEntriesAt offset)
    (shareMDEntrySize * (package.numOfComingSecrets offset).toNat)

/-- The head is there up to the last field the first stage reads, and the announced
entries are there. -/
def FileInside (offset : Int) : Prop :=
  package.Inside offset (numOfComingSecretsAt + intSize) ∧ package.EntriesInside offset

def NameRefused (offset : Int) : Prop :=
  formatFullFileName (package.fullName offset) = none

/-- The announced name has a size and is there. -/
structure NameInside (offset : Int) : Prop where
  size : package.Inside offset intSize
  nonneg : 0 ≤ package.fullNameSize offset
  name : package.Inside (fullNameAt offset) (package.fullNameSize offset).toNat

/-- The name is there, and unless it is refused the entries are too. -/
def NamedFileInside (offset : Int) : Prop :=
  package.NameInside offset ∧ (¬ package.NameRefused offset → package.EntriesInside offset)

/-- The files the first stage finds are inside the package, and it comes to the end. -/
def FirstStageFormat : Prop :=
  Chain package.shareMDSize package.FileInside (fun _ => False) package.nextHeadAt 0

/-- The files the second stage finds are inside the package, up to a name it refuses. -/
def SecondStageFormat : Prop :=
  Chain package.shareMDSize package.NamedFileInside package.NameRefused package.nextHeadAt 0

variable {package}

theorem readInt_fullNameSize (offset : Int) :
    package.readInt (offset + fullNameSizeAt) intSize =
      package.access (offset + fullNameSizeAt) intSize (package.fullNameSize offset) := rfl

theorem readInt_numOfComingSecrets (offset : Int) :
    package.readInt (offset + numOfComingSecretsAt) intSize =
      package.access (offset + numOfComingSecretsAt) intSize
        (package.numOfComingSecrets offset) := rfl

section Files

variable {σ : Type} {visit : σ → Int → Parsing σ}

theorem visitAnnounced_ends (safe : ∀ cursor offset, package.Inside offset shareMDEntrySize →
      Halt.Ends (visit cursor offset) (fun _ => True) True)
    {offset : Int} (entries : package.EntriesInside offset) (cursor : σ) :
    Halt.Ends (visitEntries visit (package.numOfComingSecrets offset).toNat cursor
        (package.shareMDEntriesAt offset))
      (fun visited => visited.2 = package.nextHeadAt offset) True := by
  rw [EntriesInside] at entries
  refine (visitEntries_ends safe entries cursor).imp (fun visited reached => ?_) id
  rw [reached, nextHeadAt]

theorem visitAnnounced_ifEnds (faithful : ∀ cursor offset,
      Halt.IfEnds (visit cursor offset) (fun _ => package.Inside offset shareMDEntrySize) False)
    (offset : Int) (cursor : σ) :
    Halt.IfEnds (visitEntries visit (package.numOfComingSecrets offset).toNat cursor
        (package.shareMDEntriesAt offset))
      (fun visited => package.EntriesInside offset ∧
        visited.2 = package.nextHeadAt offset) False := by
  refine (visitEntries_ifEnds faithful (package.numOfComingSecrets offset).toNat
    (package.shareMDEntriesAt offset) cursor).imp (fun visited reached => ?_) id
  rw [EntriesInside, nextHeadAt]
  exact reached

end Files

/-! ## First stage -/

section FirstStage

variable {σ : Type} {intraUserIndexUpdate : σ → Fingerprint → Option (σ × Bool)}

private theorem reportEntry_ends (cursor : FirstStageCursor σ) (offset : Int)
    (inside : package.Inside offset shareMDEntrySize) :
    Halt.Ends (package.reportEntry intraUserIndexUpdate cursor offset)
      (fun _ => True) True := by
  have shareFP : package.Inside offset fpSize := inside.front (by decide)
  have shareSize : package.Inside (offset + shareSizeAt) intSize := inside.field (by decide)
  rw [reportEntry, readFingerprint, access_of_inside shareFP, Loop.ok_bind]
  cases intraUserIndexUpdate cursor.index _ with
  | none => trivial
  | some updated =>
      rcases updated with ⟨index, duplicate⟩
      cases duplicate with
      | true => trivial
      | false =>
          dsimp only
          rw [readInt, access_of_inside shareSize, Loop.ok_bind]
          trivial

private theorem reportFile_ends (cursor : FirstStageCursor σ) (offset : Int)
    (file : package.FileInside offset) :
    Halt.Ends (package.reportFile intraUserIndexUpdate cursor offset)
      (fun visited => ¬ False ∧ visited.2 = package.nextHeadAt offset) True := by
  rcases file with ⟨head, entries⟩
  have nameSize : package.Inside (offset + fullNameSizeAt) intSize := head.field (by decide)
  have coming : package.Inside (offset + numOfComingSecretsAt) intSize :=
    head.field (by decide)
  rw [reportFile, readInt_fullNameSize, access_of_inside nameSize, Loop.ok_bind,
    readInt_numOfComingSecrets, access_of_inside coming, Loop.ok_bind, ← fullNameAt,
    ← shareMDEntriesAt]
  exact (visitAnnounced_ends reportEntry_ends entries cursor).imp
    (fun _ reached => ⟨id, reached⟩) id

/-- An index without shares: no share is a duplicate, and no update fails. -/
def emptyIndexUpdate (_ : Unit) (_ : Fingerprint) : Option (Unit × Bool) :=
  some ((), false)

private theorem reportEntry_ifEnds (cursor : FirstStageCursor Unit) (offset : Int) :
    Halt.IfEnds (package.reportEntry emptyIndexUpdate cursor offset)
      (fun _ => package.Inside offset shareMDEntrySize) False := by
  rw [reportEntry, readFingerprint, ifEnds_access_bind_iff]
  intro shareFP
  rw [emptyIndexUpdate]
  dsimp only
  rw [readInt, ifEnds_access_bind_iff]
  intro shareSize _
  have first := shareFP (by decide)
  have last := shareSize (by decide)
  rw [shareSizeAt, intSize] at last
  rw [shareMDEntrySize]
  omega

private theorem reportFile_ifEnds (cursor : FirstStageCursor Unit) (offset : Int) :
    Halt.IfEnds (package.reportFile emptyIndexUpdate cursor offset)
      (fun visited => package.FileInside offset ∧ visited.2 = package.nextHeadAt offset)
      (package.FileInside offset ∧ False) := by
  rw [reportFile, readInt_fullNameSize, ifEnds_access_bind_iff]
  intro nameSize
  rw [readInt_numOfComingSecrets, ifEnds_access_bind_iff, ← fullNameAt, ← shareMDEntriesAt]
  intro coming
  refine (visitAnnounced_ifEnds reportEntry_ifEnds offset cursor).imp
    (fun visited reached => ⟨⟨fun _ => ?_, reached.1⟩, reached.2⟩) False.elim
  have first := nameSize (by decide)
  have last := coming (by decide)
  rw [fullNameSizeAt] at first
  omega

end FirstStage

/-! ## Second stage -/

section SecondStage

variable {σ : Type} {steps : ShareSteps σ} {recipe : RecipeSteps σ}

theorem readName_ends {offset : Int} (name : package.NameInside offset) :
    Halt.Ends (package.readName offset)
      (fun named => ¬ package.NameRefused offset ∧
        named.2 = package.shareMDEntriesAt offset) True := by
  have nameSize : package.Inside (offset + fullNameSizeAt) intSize :=
    name.size.field (by decide)
  have assigned : package.assign (fullNameAt offset) (package.fullNameSize offset) =
      .ok (package.fullName offset) := by
    rw [assign, if_neg (not_lt.mpr name.nonneg)]
    exact access_of_inside name.name _
  rw [readName, readInt_fullNameSize, access_of_inside nameSize, Loop.ok_bind, ← fullNameAt,
    assigned, Loop.ok_bind]
  cases formatted : formatFullFileName (package.fullName offset) with
  | none => trivial
  | some fullFileName =>
      refine ⟨fun refused => ?_, rfl⟩
      rw [NameRefused, formatted] at refused
      cases refused

theorem readName_ifEnds (offset : Int) :
    Halt.IfEnds (package.readName offset)
      (fun named => package.NameInside offset ∧ ¬ package.NameRefused offset ∧
        named.2 = package.shareMDEntriesAt offset)
      (package.NameInside offset ∧ package.NameRefused offset) := by
  rw [readName, readInt_fullNameSize, ifEnds_access_bind_iff]
  intro nameSize
  rw [← fullNameAt, ← shareMDEntriesAt, assign]
  by_cases negative : package.fullNameSize offset < 0
  · rw [if_pos negative]
    trivial
  · rw [if_neg negative, ifEnds_access_bind_iff, ← fullName]
    intro name
    have inside : package.NameInside offset :=
      { size := by
          have same : offset + fullNameSizeAt = offset := by rw [fullNameSizeAt]; omega
          rw [same] at nameSize
          exact nameSize
        nonneg := not_lt.mp negative
        name := name }
    cases formatted : formatFullFileName (package.fullName offset) with
    | none => exact ⟨inside, formatted⟩
    | some fullFileName =>
        refine ⟨inside, fun refused => ?_, rfl⟩
        rw [NameRefused, formatted] at refused
        cases refused

theorem NameInside.head {offset : Int} (name : package.NameInside offset)
    (accepted : ¬ package.NameRefused offset) :
    package.Inside offset fileShareMDHeadSize := by
  have positive : 0 < (package.fullNameSize offset).toNat := by
    by_contra empty
    apply accepted
    have none : (package.fullNameSize offset).toNat = 0 := by omega
    rw [NameRefused, fullName, none, formatFullFileName, if_pos]
    rfl
  have size := package.size_lt
  have first := name.size (by decide)
  have last := name.name positive
  intro _
  by_cases bounded : offset + fileShareMDHeadSize < 2 ^ 31
  · rw [fullNameAt, intAdd_of_lt (by omega) bounded] at last
    omega
  · -- the sum wraps around to a negative number
    rw [fileShareMDHeadSize] at bounded
    rw [fullNameAt, fileShareMDHeadSize, intAdd_of_le (by omega) (by omega)] at last
    omega

theorem placeShare_ends (cursor : SecondStageCursor σ) (offset : Int)
    (inside : package.Inside offset shareMDEntrySize) :
    Halt.Ends (package.placeShare steps cursor offset) (fun _ => True) True := by
  have shareFP : package.Inside offset fpSize := inside.front (by decide)
  have shareSize : package.Inside (offset + shareSizeAt) intSize := inside.field (by decide)
  rw [placeShare]
  split
  · trivial
  · rw [readInt, access_of_inside shareSize, Loop.ok_bind, readFingerprint,
      access_of_inside shareFP, Loop.ok_bind, Halt.ends_bind_iff]
    exact (ends_attempt _).imp (fun _ _ => trivial) id

/-- No share is flagged, and every one is placed. -/
def placeEverything : ShareSteps Unit where
  intraUserDupStatList := fun _ => false
  placeShare := fun _ _ _ => some ()

theorem placeShare_ifEnds (cursor : SecondStageCursor Unit) (offset : Int) :
    Halt.IfEnds (package.placeShare placeEverything cursor offset)
      (fun _ => package.Inside offset shareMDEntrySize) False := by
  have unflagged : ¬ placeEverything.intraUserDupStatList cursor.numOfShares = true :=
    Bool.false_ne_true
  rw [placeShare, if_neg unflagged, readInt, ifEnds_access_bind_iff]
  intro shareSize
  rw [readFingerprint, ifEnds_access_bind_iff]
  intro shareFP _
  have first := shareFP (by decide)
  have last := shareSize (by decide)
  rw [shareSizeAt, intSize] at last
  rw [shareMDEntrySize]
  omega

namespace MinDedupCore

private theorem placeFile_ends (cursor : SecondStageCursor σ) (offset : Int)
    (file : package.NamedFileInside offset) :
    Halt.Ends (placeFile package steps cursor offset)
      (fun visited => ¬ package.NameRefused offset ∧
        visited.2 = package.nextHeadAt offset) True := by
  rcases file with ⟨name, entries⟩
  rw [placeFile, Halt.ends_bind_iff]
  refine (readName_ends name).imp (fun named read => ?_) id
  rcases read with ⟨accepted, reached⟩
  have coming : package.Inside (offset + numOfComingSecretsAt) intSize :=
    (name.head accepted).field (by decide)
  rw [readInt_numOfComingSecrets, access_of_inside coming, Loop.ok_bind, reached]
  exact (visitAnnounced_ends placeShare_ends (entries accepted) cursor).imp
    (fun _ visited => ⟨accepted, visited⟩) id

private theorem placeFile_ifEnds (cursor : SecondStageCursor Unit) (offset : Int) :
    Halt.IfEnds (placeFile package placeEverything cursor offset)
      (fun visited => package.NamedFileInside offset ∧
        visited.2 = package.nextHeadAt offset)
      (package.NamedFileInside offset ∧ package.NameRefused offset) := by
  rw [placeFile, Halt.ifEnds_bind_iff]
  refine (readName_ifEnds offset).imp (fun named read => ?_)
    fun read => ⟨⟨read.1, fun accepted => absurd read.2 accepted⟩, read.2⟩
  rcases read with ⟨name, accepted, reached⟩
  rw [readInt_numOfComingSecrets, ifEnds_access_bind_iff, reached]
  intro _
  exact (visitAnnounced_ifEnds placeShare_ifEnds offset cursor).imp
    (fun _ visited => ⟨⟨name, fun _ => visited.1⟩, visited.2⟩) False.elim

end MinDedupCore

namespace DedupCore

private theorem placeEntry_ends (cursor : SecondStageCursor σ) (offset : Int)
    (inside : package.Inside offset shareMDEntrySize) :
    Halt.Ends (placeEntry package steps recipe cursor offset) (fun _ => True) True := by
  have shareFP : package.Inside offset fpSize := inside.front (by decide)
  have secretID : package.Inside (offset + secretIDAt) intSize := inside.field (by decide)
  have secretSize : package.Inside (offset + secretSizeAt) intSize :=
    inside.field (by decide)
  rw [placeEntry, Halt.ends_bind_iff]
  refine (placeShare_ends cursor offset inside).imp (fun placed _ => ?_) id
  rw [readFingerprint, access_of_inside shareFP, Loop.ok_bind, readInt,
    access_of_inside secretID, Loop.ok_bind, readInt, access_of_inside secretSize,
    Loop.ok_bind]
  trivial

private theorem placeHead_ends {offset : Int} (head : package.Inside offset fileShareMDHeadSize)
    (state : σ) (fullFileName : List Byte) (numOfPastSecrets numOfComingSecrets : Int) :
    Halt.Ends (placeHead package recipe state offset fullFileName numOfPastSecrets
      numOfComingSecrets) (fun _ => True) True := by
  have fileSize : package.Inside (offset + fileSizeAt) longSize := head.field (by decide)
  rw [placeHead]
  split
  · rw [readInt, access_of_inside fileSize, Loop.ok_bind]
    exact ends_attempt _
  · trivial

private theorem finishFile_ends {offset : Int} (head : package.Inside offset fileShareMDHeadSize)
    (state : σ) (numOfPastSecrets : Int) :
    Halt.Ends (finishFile package recipe state offset numOfPastSecrets)
      (fun _ => True) True := by
  have past : package.Inside (offset + sizeOfPastSecretsAt) longSize :=
    head.field (by decide)
  have coming : package.Inside (offset + sizeOfComingSecretsAt) longSize :=
    head.field (by decide)
  have fileSize : package.Inside (offset + fileSizeAt) longSize := head.field (by decide)
  rw [finishFile, readInt, access_of_inside past, Loop.ok_bind, readInt,
    access_of_inside coming, Loop.ok_bind, readInt, access_of_inside fileSize, Loop.ok_bind]
  apply Halt.ends_ite
  · exact ends_attempt _
  · exact (Halt.ends_ok state).mpr trivial

private theorem placeFile_ends (cursor : SecondStageCursor σ) (offset : Int)
    (file : package.NamedFileInside offset) :
    Halt.Ends (placeFile package steps recipe cursor offset)
      (fun visited => ¬ package.NameRefused offset ∧
        visited.2 = package.nextHeadAt offset) True := by
  rcases file with ⟨name, entries⟩
  rw [placeFile, Halt.ends_bind_iff]
  refine (readName_ends name).imp (fun named read => ?_) id
  rcases read with ⟨accepted, reached⟩
  have head := name.head accepted
  have past : package.Inside (offset + numOfPastSecretsAt) intSize := head.field (by decide)
  have coming : package.Inside (offset + numOfComingSecretsAt) intSize :=
    head.field (by decide)
  rw [readInt, access_of_inside past, Loop.ok_bind, readInt_numOfComingSecrets,
    access_of_inside coming, Loop.ok_bind, reached, Halt.ends_bind_iff]
  refine (ends_attempt _).imp (fun roomy _ => ?_) id
  rw [Halt.ends_bind_iff]
  refine (placeHead_ends head _ _ _ _).imp (fun headed _ => ?_) id
  rw [Halt.ends_bind_iff]
  refine (visitAnnounced_ends placeEntry_ends (entries accepted) _).imp
    (fun visited moved => ?_) id
  rw [Halt.ends_bind_iff]
  exact (finishFile_ends head _ _).imp (fun _ _ => ⟨accepted, moved⟩) id

/-- The recipe never stands in the way. -/
def keepNoRecipe : RecipeSteps Unit where
  bufferIsEmpty := fun _ => false
  makeRoom := fun _ _ _ => some ()
  placeHead := fun _ _ _ _ _ => some ()
  growHead := fun _ _ => ()
  placeEntry := fun _ _ _ _ => ()
  finishFile := fun _ _ => some ()

private theorem placeEntry_ifEnds (cursor : SecondStageCursor Unit) (offset : Int) :
    Halt.IfEnds (placeEntry package placeEverything keepNoRecipe cursor offset)
      (fun _ => package.Inside offset shareMDEntrySize) False := by
  rw [placeEntry, Halt.ifEnds_bind_iff]
  refine (placeShare_ifEnds cursor offset).imp (fun placed inside => ?_) id
  rw [readFingerprint, ifEnds_access_bind_iff]
  intro _
  rw [readInt, ifEnds_access_bind_iff]
  intro _
  rw [readInt, ifEnds_access_bind_iff]
  intro _
  exact inside

private theorem placeHead_ifEnds (state : Unit) (offset : Int) (fullFileName : List Byte)
    (numOfPastSecrets numOfComingSecrets : Int) :
    Halt.IfEnds (placeHead package keepNoRecipe state offset fullFileName numOfPastSecrets
      numOfComingSecrets) (fun _ => True) False := by
  rw [placeHead]
  split
  · rw [readInt, ifEnds_access_bind_iff]
    exact fun _ => trivial
  · trivial

private theorem finishFile_ifEnds (state : Unit) (offset numOfPastSecrets : Int) :
    Halt.IfEnds (finishFile package keepNoRecipe state offset numOfPastSecrets)
      (fun _ => True) False := by
  rw [finishFile, readInt, ifEnds_access_bind_iff]
  intro _
  rw [readInt, ifEnds_access_bind_iff]
  intro _
  rw [readInt, ifEnds_access_bind_iff]
  intro _
  split <;> trivial

private theorem placeFile_ifEnds (cursor : SecondStageCursor Unit) (offset : Int) :
    Halt.IfEnds (placeFile package placeEverything keepNoRecipe cursor offset)
      (fun visited => package.NamedFileInside offset ∧
        visited.2 = package.nextHeadAt offset)
      (package.NamedFileInside offset ∧ package.NameRefused offset) := by
  rw [placeFile, Halt.ifEnds_bind_iff]
  refine (readName_ifEnds offset).imp (fun named read => ?_)
    fun read => ⟨⟨read.1, fun accepted => absurd read.2 accepted⟩, read.2⟩
  rcases read with ⟨name, accepted, reached⟩
  rw [readInt, ifEnds_access_bind_iff]
  intro _
  rw [readInt_numOfComingSecrets, ifEnds_access_bind_iff, reached]
  intro _
  rw [Halt.ifEnds_bind_iff]
  show Halt.IfEnds (placeHead _ _ _ _ _ _ _ >>= _) _ _
  rw [Halt.ifEnds_bind_iff]
  refine (placeHead_ifEnds _ _ _ _ _).imp (fun headed _ => ?_) False.elim
  rw [Halt.ifEnds_bind_iff]
  refine (visitAnnounced_ifEnds placeEntry_ifEnds offset _).imp (fun visited moved => ?_)
    False.elim
  rw [Halt.ifEnds_bind_iff]
  exact (finishFile_ifEnds _ _ _).imp
    (fun _ _ => ⟨⟨name, fun _ => moved.1⟩, moved.2⟩) False.elim

end DedupCore

end SecondStage

/-! ## Totality -/

/-- The first stage returns and reads only bytes of the package, whatever the index
says about the shares. -/
def FirstStageTotal (package : ReceivedPackage) : Prop :=
  ∀ (σ : Type) (intraUserIndexUpdate : σ → Fingerprint → Option (σ × Bool)) (index : σ),
    ∃ fuel, Halt.Ends (package.firstStageDedup intraUserIndexUpdate fuel index)
      (fun _ => True) True

/-- The second stage of `minDedupCore` returns and reads only bytes of the package,
whatever is done with the shares. -/
def MinDedupCore.SecondStageTotal (package : ReceivedPackage) : Prop :=
  ∀ (σ : Type) (steps : ShareSteps σ) (state : σ),
    ∃ fuel, Halt.Ends (MinDedupCore.secondStageDedup package steps fuel state)
      (fun _ => True) True

/-- The second stage of `DedupCore` returns and reads only bytes of the package,
whatever is done with the shares and the recipe. -/
def DedupCore.SecondStageTotal (package : ReceivedPackage) : Prop :=
  ∀ (σ : Type) (steps : ShareSteps σ) (recipe : RecipeSteps σ) (state : σ),
    ∃ fuel, Halt.Ends (DedupCore.secondStageDedup package steps recipe fuel state)
      (fun _ => True) True

theorem firstStageTotal_iff :
    package.FirstStageTotal ↔ package.FirstStageFormat := by
  constructor
  · intro total
    rcases total Unit emptyIndexUpdate () with ⟨fuel, ends⟩
    exact chain_of_walk_ends (fun cursor offset _ => reportFile_ifEnds cursor offset) ends
  · intro format σ intraUserIndexUpdate index
    exact walk_ends (fun cursor offset _ => reportFile_ends cursor offset) format _

theorem MinDedupCore.secondStageTotal_iff :
    MinDedupCore.SecondStageTotal package ↔ package.SecondStageFormat := by
  constructor
  · intro total
    rcases total Unit placeEverything () with ⟨fuel, ends⟩
    exact chain_of_walk_ends (fun cursor offset _ => placeFile_ifEnds cursor offset) ends
  · intro format σ steps state
    exact walk_ends (fun cursor offset _ => placeFile_ends cursor offset) format _

theorem DedupCore.secondStageTotal_iff :
    DedupCore.SecondStageTotal package ↔ package.SecondStageFormat := by
  constructor
  · intro total
    rcases total Unit placeEverything keepNoRecipe () with ⟨fuel, ends⟩
    exact chain_of_walk_ends (fun cursor offset _ => placeFile_ifEnds cursor offset) ends
  · intro format σ steps recipe state
    exact walk_ends (fun cursor offset _ => placeFile_ends cursor offset) format _

end ReceivedPackage

namespace ReceivedPackage

/-- The stages return and read only bytes of the package exactly when the package has
their format. The first stage is the same in both cores. -/
theorem parsing_total_iff (package : ReceivedPackage) :
    (package.FirstStageTotal ↔ package.FirstStageFormat) ∧
      (MinDedupCore.SecondStageTotal package ↔ package.SecondStageFormat) ∧
      (DedupCore.SecondStageTotal package ↔ package.SecondStageFormat) :=
  ⟨firstStageTotal_iff, MinDedupCore.secondStageTotal_iff, DedupCore.secondStageTotal_iff⟩

def headOnly (fullNameSize numOfComingSecrets : Int) : ReceivedPackage where
  shareMDBuffer :=
    (Buffer.writeInt (fun _ => 0) fullNameSizeAt intSize fullNameSize).writeInt
      numOfComingSecretsAt intSize numOfComingSecrets
  shareMDSize := fileShareMDHeadSize
  size_lt := by decide

private theorem firstStageDedup_backward {σ : Type}
    (intraUserIndexUpdate : σ → Fingerprint → Option (σ × Bool)) (fuel : Nat) (index : σ) :
    (headOnly (-48) 0).firstStageDedup intraUserIndexUpdate fuel index =
      .error .running := by
  have stays : ∀ cursor : FirstStageCursor σ,
      (headOnly (-48) 0).reportFile intraUserIndexUpdate cursor 0 = .ok (cursor, 0) :=
    fun cursor => rfl
  rw [firstStageDedup]
  generalize (⟨index, [], 0⟩ : FirstStageCursor σ) = cursor
  induction fuel with
  | zero => rfl
  | succ fuel induction =>
      rw [walk, if_pos (by decide), stays, Loop.ok_bind]
      exact induction

private theorem firstStageDedup_announced {σ : Type}
    (intraUserIndexUpdate : σ → Fingerprint → Option (σ × Bool)) (fuel : Nat) (index : σ) :
    (headOnly 0 1).firstStageDedup intraUserIndexUpdate (fuel + 1) index =
      .error (.fault .outside) := rfl

private theorem secondStageDedup_backward {σ : Type} (steps : ShareSteps σ) (fuel : Nat)
    (state : σ) :
    MinDedupCore.secondStageDedup (headOnly (-48) 0) steps (fuel + 1) state =
      .error (.fault .lengthError) := rfl

/-- Packages of 48 bytes on which the parsing is not total. -/
theorem parsing_not_total :
    (headOnly (-48) 0).shareMDSize = 48 ∧ ¬ (headOnly (-48) 0).FirstStageTotal ∧
      ¬ MinDedupCore.SecondStageTotal (headOnly (-48) 0) ∧
      ¬ (headOnly 0 1).FirstStageTotal := by
  refine ⟨rfl, fun total => ?_, fun total => ?_, fun total => ?_⟩
  · rcases total Unit emptyIndexUpdate () with ⟨fuel, ends⟩
    rw [firstStageDedup_backward] at ends
    exact ends
  · rcases total Unit placeEverything () with ⟨fuel, ends⟩
    cases fuel with
    | zero => exact ends
    | succ fuel =>
        rw [secondStageDedup_backward] at ends
        exact ends
  · rcases total Unit emptyIndexUpdate () with ⟨fuel, ends⟩
    cases fuel with
    | zero => exact ends
    | succ fuel =>
        rw [firstStageDedup_announced] at ends
        exact ends

end ReceivedPackage

end MetaDedup.Server
