import MetaDedup.Foundation.Loop
import MetaDedup.Server.DataStruct

/-! # The recipe store

`DedupCore` records for every file which shares it consists of. A recipe is a head
followed by one entry per share. Recipes are collected in a buffer per user and
written to recipe files; the inode index says where the recipe of each version of a
file begins.

Buffers and files are lists of byte-sized cells: the first cell of a record stands
for its contents, the remaining ones for the rest of its bytes. -/

namespace MetaDedup.Server

open Foundation Function

/-! ## Records -/

structure InodeFileEntry where
  recipeFileName : InternalFileName
  recipeFileOffset : Nat
  deriving DecidableEq

/-- What follows the head and the short name in an inode value. -/
inductive InodeEntry
  | file (entry : InodeFileEntry)
  | dir (inodeFP : Fingerprint)
  deriving DecidableEq

inductive InodeType
  | dir
  | file
  deriving DecidableEq

structure InodeIndexValue where
  userID : Int
  inodeType : InodeType
  numOfChildren : Nat
  shortName : List Byte
  entries : List InodeEntry

structure FileRecipeHead where
  userID : Int
  fileSize : Int
  numOfShares : Int
  deriving DecidableEq

structure FileRecipeEntry where
  shareFP : Fingerprint
  secretID : Int
  secretSize : Int
  deriving DecidableEq

/-- One byte of a recipe buffer or file. A `hole` is a byte that a seek past the end
of a file leaves behind. -/
inductive RecipeCell
  | head (head : FileRecipeHead)
  | entry (entry : FileRecipeEntry)
  | tail
  | hole
  deriving DecidableEq

def fileRecipeHeadSize : Nat := 24

def fileRecipeEntrySize : Nat := 40

def headCells (head : FileRecipeHead) : List RecipeCell :=
  .head head :: List.replicate (fileRecipeHeadSize - 1) .tail

def entryCells (entry : FileRecipeEntry) : List RecipeCell :=
  .entry entry :: List.replicate (fileRecipeEntrySize - 1) .tail

def ShareMDEntry.recipeEntry (entry : ShareMDEntry) : FileRecipeEntry :=
  ⟨entry.shareFP, entry.secretID, entry.secretSize⟩

/-- The head read at a position. Bytes that are not a head are read as some head
all the same; `stray` says as which. -/
def readRecipeHead (stray : List RecipeCell → FileRecipeHead) (cells : List RecipeCell)
    (position : Nat) : FileRecipeHead :=
  match (cells.drop position).head? with
  | some (.head head) =>
      if (cells.drop position).take fileRecipeHeadSize = headCells head then head
      else stray ((cells.drop position).take fileRecipeHeadSize)
  | _ => stray ((cells.drop position).take fileRecipeHeadSize)

/-- Write `data` at a position of a file, leaving a hole when the position lies past
the end. -/
def overwrite (cells : List RecipeCell) (position : Nat) (data : List RecipeCell) :
    List RecipeCell :=
  cells.take position ++ List.replicate (position - cells.length) .hole ++ data ++
    cells.drop (position + data.length)

/-- The recipe half of `perUserBufferNode_t`. The list holds the first
`recipeFileBufferCurrLen` bytes of the buffer. -/
structure RecipeBuffer where
  recipeFileName : InternalFileName
  recipeFileBuffer : List RecipeCell
  lastRecipeHeadPos : Nat
  lastInodeFP : Fingerprint

structure RecipeStore where
  inodeIndex : Fingerprint → Option InodeIndexValue
  recipeFiles : InternalFileName → Option (List RecipeCell)
  globalRecipeFileName : GlobalFileName

/-! ## The inode index -/

def intBytes (number : Int) : List Byte :=
  (List.range 4).map fun index => BitVec.ofInt 8 (number / 256 ^ index)

def fileName2InodeFP (generateHash : List Byte → Fingerprint) (fullFileName : List Byte)
    (userID : Int) : Fingerprint :=
  generateHash (fullFileName ++ intBytes userID)

/-- What follows the last `'/'` of a name. -/
def shortNameOf (fullFileName : List Byte) : List Byte :=
  (fullFileName.reverse.takeWhile (· ≠ slash)).reverse

/-- The last component of a directory name, with the `'/'` at its end. -/
def dirShortNameOf (dirName : List Byte) : List Byte :=
  if dirName = [slash] then dirName else shortNameOf dirName.dropLast ++ [slash]

/-- The directories on the path of a file, from bottom to top. A directory name ends
with `'/'`. -/
def dirNames (fullFileName : List Byte) : List (List Byte) :=
  fullFileName.inits.reverse.filter fun dirName => dirName.getLast? = some slash

abbrev InodeIndex := Fingerprint → Option InodeIndexValue

/-- Enter a child into the inode of a directory, unless it is there already. The
state also holds the fingerprint of the child, which is the directory in the next
pass. -/
def addChild (generateHash : List Byte → Fingerprint) (userID : Int)
    (state : InodeIndex × Fingerprint) (dirName : List Byte) : InodeIndex × Fingerprint :=
  let dirFP := fileName2InodeFP generateHash dirName userID
  match state.1 dirFP with
  | some value =>
      if .dir state.2 ∈ value.entries.take value.numOfChildren then (state.1, dirFP)
      else
        (update state.1 dirFP (some
          { value with
            numOfChildren := value.numOfChildren + 1
            entries := value.entries ++ [.dir state.2] }), dirFP)
  | none =>
      (update state.1 dirFP (some
        { userID := userID
          inodeType := .dir
          numOfChildren := 1
          shortName := dirShortNameOf dirName
          entries := [.dir state.2] }), dirFP)

/-- Enter a new version of a file. The first version also makes the directories on
its path. -/
def addFileIntoInodeIndex (generateHash : List Byte → Fingerprint) (index : InodeIndex)
    (fullFileName : List Byte) (userID : Int) (entry : InodeFileEntry) : InodeIndex :=
  let fileFP := fileName2InodeFP generateHash fullFileName userID
  match index fileFP with
  | some value =>
      update index fileFP (some
        { value with
          numOfChildren := value.numOfChildren + 1
          entries := .file entry :: value.entries })
  | none =>
      let added := update index fileFP (some
        { userID := userID
          inodeType := .file
          numOfChildren := 1
          shortName := shortNameOf fullFileName
          entries := [.file entry] })
      ((dirNames fullFileName).foldl (addChild generateHash userID) (added, fileFP)).1

/-- The entry of a version of a file, counted back from the newest. -/
def InodeIndexValue.version (value : InodeIndexValue) (age : Nat) :
    Option InodeFileEntry :=
  match value.entries[age]? with
  | some (.file entry) => some entry
  | _ => none

namespace RecipeStore

def empty : RecipeStore := ⟨fun _ => none, fun _ => none, .initial⟩

def writeRecipeFile (recipes : RecipeStore) (name : InternalFileName)
    (cells : List RecipeCell) : RecipeStore :=
  { recipes with recipeFiles := update recipes.recipeFiles name (some cells) }

def drawRecipeFileName (recipes : RecipeStore) : InternalFileName × RecipeStore :=
  (recipes.globalRecipeFileName.draw.1,
    { recipes with globalRecipeFileName := recipes.globalRecipeFileName.draw.2 })

/-! ## Recipe files -/

def fileCells (recipes : RecipeStore) (name : InternalFileName) : List RecipeCell :=
  (recipes.recipeFiles name).getD []

/-- The recipe of the newest version of the file the buffer's last head belongs to. -/
def findOldRecipeFile (recipes : RecipeStore) (buffer : RecipeBuffer) :
    Option InodeFileEntry :=
  (recipes.inodeIndex buffer.lastInodeFP).bind fun value => value.version 0

/-- Append the entries of a buffer to the recipe at `offset` of a recipe file and add
up the share counts; `none` when the head cannot be read or there is nothing to
append. A seek to a negative position fails and leaves the file position after the
head. -/
def appendEntries (stray : List RecipeCell → FileRecipeHead) (file : List RecipeCell)
    (offset : Nat) (buffer : List RecipeCell) : Option (List RecipeCell) :=
  if file.length < offset + fileRecipeHeadSize then none
  else if buffer.drop fileRecipeHeadSize = [] then none
  else
    let head := readRecipeHead stray file offset
    let sought : Int := offset + fileRecipeHeadSize + fileRecipeEntrySize * head.numOfShares
    let position := if 0 ≤ sought then sought.toNat else offset + fileRecipeHeadSize
    let appended := overwrite file position (buffer.drop fileRecipeHeadSize)
    let added := (readRecipeHead stray buffer 0).numOfShares
    some (overwrite appended offset
      (headCells { head with numOfShares := head.numOfShares + added }))

/-- The recipe part of `flushBufferNodeIntoDisk_`. -/
def flushRecipeBuffer (stray : List RecipeCell → FileRecipeHead) (recipes : RecipeStore)
    (buffer : RecipeBuffer) : Except RecipeStore RecipeStore :=
  if buffer.recipeFileBuffer = [] then .ok recipes
  else if buffer.lastRecipeHeadPos = 0 then
    match recipes.findOldRecipeFile buffer with
    | none => .error recipes
    | some entry =>
        let file := recipes.fileCells entry.recipeFileName
        if file = [] then
          if entry.recipeFileOffset ≠ 0 then
            .error (recipes.writeRecipeFile entry.recipeFileName [])
          else .ok (recipes.writeRecipeFile entry.recipeFileName buffer.recipeFileBuffer)
        else
          match appendEntries stray file entry.recipeFileOffset buffer.recipeFileBuffer with
          | none => .error recipes
          | some appended => .ok (recipes.writeRecipeFile entry.recipeFileName appended)
  else .ok (recipes.writeRecipeFile buffer.recipeFileName buffer.recipeFileBuffer)

/-- Writing an empty buffer fails: `fwrite` of zero bytes returns 0. -/
def storeNewRecipeFile (recipes : RecipeStore) (buffer : RecipeBuffer) :
    Except (RecipeStore × RecipeBuffer) (RecipeStore × RecipeBuffer) :=
  let written := recipes.writeRecipeFile buffer.recipeFileName buffer.recipeFileBuffer
  if buffer.recipeFileBuffer = [] then .error (written, buffer)
  else
    .ok (written.drawRecipeFileName.2,
      { buffer with
        recipeFileName := written.drawRecipeFileName.1
        recipeFileBuffer := []
        lastRecipeHeadPos := 0 })

def appendOldRecipeFile (stray : List RecipeCell → FileRecipeHead) (recipes : RecipeStore)
    (buffer : RecipeBuffer) :
    Except (RecipeStore × RecipeBuffer) (RecipeStore × RecipeBuffer) :=
  match recipes.findOldRecipeFile buffer with
  | none => .error (recipes, buffer)
  | some entry =>
      let file := recipes.fileCells entry.recipeFileName
      if file = [] then .error (recipes, buffer)
      else
        match appendEntries stray file entry.recipeFileOffset buffer.recipeFileBuffer with
        | none => .error (recipes, buffer)
        | some appended =>
            .ok (recipes.writeRecipeFile entry.recipeFileName appended,
              { buffer with recipeFileBuffer := [], lastRecipeHeadPos := 0 })

/-! ## The recipe of one round -/

/-- The bytes a file of a package adds to the buffer (`recipeFileBufferAddedLen`). -/
def addedLen (buffer : RecipeBuffer) (file : FileShareMD) : Int :=
  if file.numOfPastSecrets = 0 then
    fileRecipeHeadSize + fileRecipeEntrySize * file.numOfComingSecrets
  else if buffer.recipeFileBuffer.length = 0 then
    fileRecipeHeadSize + fileRecipeEntrySize * file.numOfComingSecrets
  else fileRecipeEntrySize * file.numOfComingSecrets

def Overflows (buffer : RecipeBuffer) (file : FileShareMD) : Prop :=
  buffer.recipeFileBuffer.length + addedLen buffer file > recipeBufferSize

instance (buffer : RecipeBuffer) (file : FileShareMD) :
    Decidable (Overflows buffer file) :=
  inferInstanceAs (Decidable (_ > _))

/-- The test by which the code decides that the last recipe of the buffer is the rest
of one in a recipe file: its head is at the start of the buffer and counts fewer
shares than have come before. -/
def ContinuesOldRecipe (stray : List RecipeCell → FileRecipeHead) (buffer : RecipeBuffer)
    (file : FileShareMD) : Prop :=
  buffer.lastRecipeHeadPos = 0 ∧
    file.numOfPastSecrets >
      (readRecipeHead stray buffer.recipeFileBuffer buffer.lastRecipeHeadPos).numOfShares

instance (stray : List RecipeCell → FileRecipeHead) (buffer : RecipeBuffer)
    (file : FileShareMD) : Decidable (ContinuesOldRecipe stray buffer file) :=
  inferInstanceAs (Decidable (_ ∧ _))

/-- Step 2 of `secondStageDedup`: empty the buffer when it has no room. -/
def makeRoom (stray : List RecipeCell → FileRecipeHead) (recipes : RecipeStore)
    (buffer : RecipeBuffer) (file : FileShareMD) :
    Except (RecipeStore × RecipeBuffer) (RecipeStore × RecipeBuffer) :=
  if Overflows buffer file then
    if ContinuesOldRecipe stray buffer file then recipes.appendOldRecipeFile stray buffer
    else recipes.storeNewRecipeFile buffer
  else .ok (recipes, buffer)

def beginRecipe (generateHash : List Byte → Fingerprint) (buffer : RecipeBuffer)
    (fullFileName : List Byte) (userID : Int) (file : FileShareMD) : RecipeBuffer :=
  { buffer with
    recipeFileBuffer := buffer.recipeFileBuffer ++
      headCells ⟨userID, file.fileSize, file.numOfComingSecrets⟩
    lastRecipeHeadPos := buffer.recipeFileBuffer.length
    lastInodeFP := fileName2InodeFP generateHash fullFileName userID }

/-- Step 3 of `secondStageDedup`: a new file gets a head and a version in the inode
index; the rest of a file gets a head if the buffer is empty, and otherwise is counted
in the last head. -/
def placeHead (generateHash : List Byte → Fingerprint)
    (stray : List RecipeCell → FileRecipeHead) (recipes : RecipeStore)
    (buffer : RecipeBuffer) (fullFileName : List Byte) (userID : Int)
    (file : FileShareMD) : RecipeStore × RecipeBuffer :=
  if file.numOfPastSecrets = 0 then
    ({ recipes with
        inodeIndex := addFileIntoInodeIndex generateHash recipes.inodeIndex fullFileName
          userID ⟨buffer.recipeFileName, buffer.recipeFileBuffer.length⟩ },
      beginRecipe generateHash buffer fullFileName userID file)
  else if buffer.recipeFileBuffer.length = 0 then
    (recipes, beginRecipe generateHash buffer fullFileName userID file)
  else
    let head := readRecipeHead stray buffer.recipeFileBuffer buffer.lastRecipeHeadPos
    (recipes,
      { buffer with
        recipeFileBuffer := overwrite buffer.recipeFileBuffer buffer.lastRecipeHeadPos
          (headCells { head with
            numOfShares := head.numOfShares + file.numOfComingSecrets }) })

def placeEntry (buffer : RecipeBuffer) (entry : ShareMDEntry) : RecipeBuffer :=
  { buffer with
    recipeFileBuffer := buffer.recipeFileBuffer ++ entryCells entry.recipeEntry }

/-- The test by which the code recognises the last round of a file. -/
def EndsHere (file : FileShareMD) : Prop :=
  file.sizeOfPastSecrets + file.sizeOfComingSecrets = file.fileSize

instance (file : FileShareMD) : Decidable (EndsHere file) :=
  inferInstanceAs (Decidable (_ = _))

/-- Step 5 of `secondStageDedup`: the rest of a finished file goes to its recipe
file. -/
def finishFile (stray : List RecipeCell → FileRecipeHead) (recipes : RecipeStore)
    (buffer : RecipeBuffer) (file : FileShareMD) :
    Except (RecipeStore × RecipeBuffer) (RecipeStore × RecipeBuffer) :=
  if EndsHere file then
    if ContinuesOldRecipe stray buffer file then recipes.appendOldRecipeFile stray buffer
    else .ok (recipes, buffer)
  else .ok (recipes, buffer)

end RecipeStore

end MetaDedup.Server
