import MetaDedup.Foundation.ChainWalk
import MetaDedup.Server.MetadataPackage

/-! # The bytes of a metadata package in the two stages

`firstStageDedup` and `secondStageDedup` walk through the bytes of a package as a client
has sent it. Offsets are of type `int`, and `fullNameSize` and `numOfComingSecrets` are
taken from the package unchecked. Every access to a field is checked here against the
size of the package. What a stage does besides reading the package is a parameter: the
calls that work on the index, on the buffer node and on the share data, and whether they
fail. -/

namespace MetaDedup.Server

open Foundation Wire

/-- Addition in `int`. -/
def intAdd (left right : Int) : Int :=
  (left + right).bmod (2 ^ (8 * intSize))

/-- Addition in `long`. -/
def longAdd (left right : Int) : Int :=
  (left + right).bmod (2 ^ (8 * longSize))

/-- The contents of a `META` message. -/
structure ReceivedPackage where
  shareMDBuffer : Buffer Byte
  shareMDSize : Int
  /-- The size is an `int`. -/
  size_lt : shareMDSize < 2 ^ 31

inductive ParseFault where
  /-- A byte is read that does not belong to the package. -/
  | outside
  /-- `std::string::assign` takes a negative size for one beyond its maximal size. -/
  | lengthError
  deriving DecidableEq, Repr

abbrev Parsing (α : Type) : Type := Except (Halt ParseFault) α

namespace ReceivedPackage

variable (package : ReceivedPackage)

def Inside (offset : Int) (count : Nat) : Prop :=
  0 < count → 0 ≤ offset ∧ offset + count ≤ package.shareMDSize

instance (offset : Int) (count : Nat) : Decidable (package.Inside offset count) := by
  unfold Inside
  infer_instance

/-! ## Accesses -/

/-- An access to bytes of the package, whose value is `value`. -/
def access {α : Type} (offset : Int) (count : Nat) (value : α) : Parsing α :=
  if package.Inside offset count then .ok value else .error (.fault .outside)

def readInt (offset : Int) (count : Nat) : Parsing Int :=
  package.access offset count (package.shareMDBuffer.readInt offset.toNat count)

def readFingerprint (offset : Int) : Parsing Fingerprint :=
  package.access offset fpSize
    ⟨package.shareMDBuffer.slice offset.toNat fpSize, Buffer.slice_length _ _ _⟩

/-- `fullFileName.assign(shareMDBuffer + offset, size)`. -/
def assign (offset size : Int) : Parsing (List Byte) :=
  if size < 0 then .error (.fault .lengthError)
  else package.access offset size.toNat (package.shareMDBuffer.slice offset.toNat size.toNat)

def visitEntries {σ : Type} (visit : σ → Int → Parsing σ) :
    (count : Nat) → σ → Int → Parsing (σ × Int)
  | 0, cursor, offset => .ok (cursor, offset)
  | count + 1, cursor, offset => do
      let cursor ← visit cursor offset
      visitEntries visit count cursor (intAdd offset shareMDEntrySize)

/-! ## First stage -/

structure FirstStageCursor (σ : Type) where
  index : σ
  intraUserDupStatList : List Bool
  sentShareDataSize : Int

section FirstStage

variable {σ : Type} (intraUserIndexUpdate : σ → Fingerprint → Option (σ × Bool))

def reportEntry (cursor : FirstStageCursor σ) (offset : Int) :
    Parsing (FirstStageCursor σ) := do
  let shareFP ← package.readFingerprint offset
  match intraUserIndexUpdate cursor.index shareFP with
  | none => .error .leaves
  | some (index, true) =>
      .ok
        { cursor with
          index := index
          intraUserDupStatList := cursor.intraUserDupStatList ++ [true] }
  | some (index, false) => do
      let shareSize ← package.readInt (offset + shareSizeAt) intSize
      .ok
        { index := index
          intraUserDupStatList := cursor.intraUserDupStatList ++ [false]
          sentShareDataSize := intAdd cursor.sentShareDataSize shareSize }

def reportFile (cursor : FirstStageCursor σ) (offset : Int) :
    Parsing (FirstStageCursor σ × Int) := do
  let fullNameSize ← package.readInt (offset + fullNameSizeAt) intSize
  let numOfComingSecrets ← package.readInt (offset + numOfComingSecretsAt) intSize
  visitEntries (package.reportEntry intraUserIndexUpdate) numOfComingSecrets.toNat cursor
    (intAdd (intAdd offset fileShareMDHeadSize) fullNameSize)

/-- The text of the function is the same in both cores. -/
def firstStageDedup (fuel : Nat) (index : σ) : Parsing (FirstStageCursor σ) :=
  walk package.shareMDSize (package.reportFile intraUserIndexUpdate) fuel ⟨index, [], 0⟩ 0

end FirstStage

/-! ## Second stage -/

structure SecondStageCursor (σ : Type) where
  state : σ
  numOfShares : Nat

/-- What is done with a share. `placeShare` compares the share data with the fingerprint
and calls `interUserIndexUpdate_`. -/
structure ShareSteps (σ : Type) where
  intraUserDupStatList : Nat → Bool
  placeShare : σ → (shareSize : Int) → (shareFP : Fingerprint) → Option σ

structure RecipeSteps (σ : Type) where
  /-- The test for `recipeFileBufferCurrLen == 0`. -/
  bufferIsEmpty : σ → Bool
  makeRoom : σ → (numOfPastSecrets numOfComingSecrets : Int) → Option σ
  placeHead : σ → (fullFileName : List Byte) →
    (numOfPastSecrets fileSize numOfComingSecrets : Int) → Option σ
  growHead : σ → (numOfComingSecrets : Int) → σ
  placeEntry : σ → (shareFP : Fingerprint) → (secretID secretSize : Int) → σ
  finishFile : σ → (numOfPastSecrets : Int) → Option σ

def attempt {σ : Type} : Option σ → Parsing σ
  | none => .error .leaves
  | some state => .ok state

section SecondStage

variable {σ : Type} (steps : ShareSteps σ) (recipe : RecipeSteps σ)

/-- The formatted name of the file at an offset, and the offset of its entries. -/
def readName (offset : Int) : Parsing (List Byte × Int) := do
  let fullNameSize ← package.readInt (offset + fullNameSizeAt) intSize
  let fullFileName ← package.assign (intAdd offset fileShareMDHeadSize) fullNameSize
  match formatFullFileName fullFileName with
  | none => .error .leaves
  | some formatted =>
      .ok (formatted, intAdd (intAdd offset fileShareMDHeadSize) fullNameSize)

def placeShare (cursor : SecondStageCursor σ) (offset : Int) :
    Parsing (SecondStageCursor σ) :=
  if steps.intraUserDupStatList cursor.numOfShares then
    .ok { cursor with numOfShares := cursor.numOfShares + 1 }
  else do
    let shareSize ← package.readInt (offset + shareSizeAt) intSize
    let shareFP ← package.readFingerprint offset
    let state ← attempt (steps.placeShare cursor.state shareSize shareFP)
    .ok ⟨state, cursor.numOfShares + 1⟩

namespace MinDedupCore

def placeFile (cursor : SecondStageCursor σ) (offset : Int) :
    Parsing (SecondStageCursor σ × Int) := do
  let named ← package.readName offset
  let numOfComingSecrets ← package.readInt (offset + numOfComingSecretsAt) intSize
  visitEntries (package.placeShare steps) numOfComingSecrets.toNat cursor named.2

def secondStageDedup (fuel : Nat) (state : σ) : Parsing (SecondStageCursor σ) :=
  walk package.shareMDSize (placeFile package steps) fuel ⟨state, 0⟩ 0

end MinDedupCore

namespace DedupCore

def placeHead (state : σ) (offset : Int) (fullFileName : List Byte)
    (numOfPastSecrets numOfComingSecrets : Int) : Parsing σ :=
  if numOfPastSecrets = 0 ∨ recipe.bufferIsEmpty state then do
    let fileSize ← package.readInt (offset + fileSizeAt) longSize
    attempt (recipe.placeHead state fullFileName numOfPastSecrets fileSize numOfComingSecrets)
  else .ok (recipe.growHead state numOfComingSecrets)

def placeEntry (cursor : SecondStageCursor σ) (offset : Int) :
    Parsing (SecondStageCursor σ) := do
  let placed ← package.placeShare steps cursor offset
  let shareFP ← package.readFingerprint offset
  let secretID ← package.readInt (offset + secretIDAt) intSize
  let secretSize ← package.readInt (offset + secretSizeAt) intSize
  .ok { placed with state := recipe.placeEntry placed.state shareFP secretID secretSize }

def finishFile (state : σ) (offset : Int) (numOfPastSecrets : Int) : Parsing σ := do
  let sizeOfPastSecrets ← package.readInt (offset + sizeOfPastSecretsAt) longSize
  let sizeOfComingSecrets ← package.readInt (offset + sizeOfComingSecretsAt) longSize
  let fileSize ← package.readInt (offset + fileSizeAt) longSize
  if longAdd sizeOfPastSecrets sizeOfComingSecrets = fileSize then
    attempt (recipe.finishFile state numOfPastSecrets)
  else .ok state

def placeFile (cursor : SecondStageCursor σ) (offset : Int) :
    Parsing (SecondStageCursor σ × Int) := do
  let named ← package.readName offset
  let numOfPastSecrets ← package.readInt (offset + numOfPastSecretsAt) intSize
  let numOfComingSecrets ← package.readInt (offset + numOfComingSecretsAt) intSize
  let roomy ← attempt (recipe.makeRoom cursor.state numOfPastSecrets numOfComingSecrets)
  let headed ← placeHead package recipe roomy offset named.1 numOfPastSecrets
    numOfComingSecrets
  let visited ← visitEntries (placeEntry package steps recipe) numOfComingSecrets.toNat
    { cursor with state := headed } named.2
  let finished ← finishFile package recipe visited.1.state offset numOfPastSecrets
  .ok ({ visited.1 with state := finished }, visited.2)

def secondStageDedup (fuel : Nat) (state : σ) : Parsing (SecondStageCursor σ) :=
  walk package.shareMDSize (placeFile package steps recipe) fuel ⟨state, 0⟩ 0

end DedupCore

end SecondStage

end ReceivedPackage

end MetaDedup.Server
