import MetaDedup.Server.RecipeStore
import MetaDedup.Wire.ShareMetadata

/-! # The layout of recipe files

A recipe that the client has retrieved is a `fileRecipeHead_t` and one
`fileRecipeEntry_t` for every share. The compiler puts four bytes behind the first and
the last field of the head, and the client does not set them. -/

namespace MetaDedup.Wire

open Foundation
open Server (Fingerprint FileRecipeHead FileRecipeEntry fpSize fileRecipeHeadSize
  fileRecipeEntrySize)

def recipeFileSizeAt : Nat := 8

def recipeNumOfSharesAt : Nat := 16

def recipeSecretIDAt : Nat := 32

def recipeSecretSizeAt : Nat := 36

/-- The size of each of the two gaps of a head. -/
def recipePaddingSize : Nat := 4

theorem zeroPadding_size : ([0, 0, 0, 0] : List Byte).length = recipePaddingSize := rfl

/-- An entry of a recipe in memory. -/
structure RecipeRecord where
  shareFP : Fingerprint
  secretID : BitVec 32
  secretSize : BitVec 32
  deriving DecidableEq

namespace RecipeRecord

def entry (record : RecipeRecord) : FileRecipeEntry :=
  ⟨record.shareFP, record.secretID.toInt, record.secretSize.toInt⟩

def bytes (record : RecipeRecord) : List Byte :=
  record.shareFP.bytes ++ wordBytes intSize record.secretID.toNat ++
    wordBytes intSize record.secretSize.toNat

@[simp] theorem bytes_length (record : RecipeRecord) :
    record.bytes.length = fileRecipeEntrySize := by
  simp only [bytes, List.length_append, wordBytes_length, record.shareFP.size_eq]
  rfl

end RecipeRecord

/-- A recipe as the client sends it. The client keeps its size in an `int`. -/
structure RetrievedRecipeFile where
  userID : BitVec 32
  fileSize : BitVec 64
  records : List RecipeRecord
  userPadding : List Byte
  endPadding : List Byte
  userPadding_size : userPadding.length = recipePaddingSize
  endPadding_size : endPadding.length = recipePaddingSize
  uploadSize_small : records.length * fileRecipeEntrySize + fileRecipeHeadSize < 2 ^ 31

namespace RetrievedRecipeFile

variable (recipe : RetrievedRecipeFile)

def headBytes : List Byte :=
  wordBytes intSize recipe.userID.toNat ++ recipe.userPadding ++
    wordBytes longSize recipe.fileSize.toNat ++
    wordBytes intSize (BitVec.ofNat 32 recipe.records.length).toNat ++ recipe.endPadding

def bytes : List Byte := recipe.headBytes ++ (recipe.records.map RecipeRecord.bytes).flatten

def head : FileRecipeHead :=
  ⟨recipe.userID.toInt, recipe.fileSize.toInt, recipe.records.length⟩

def entries : List FileRecipeEntry := recipe.records.map RecipeRecord.entry

@[simp] theorem headBytes_length : recipe.headBytes.length = fileRecipeHeadSize := by
  simp only [headBytes, List.length_append, wordBytes_length, recipe.userPadding_size,
    recipe.endPadding_size]
  rfl

end RetrievedRecipeFile

/-! ## Reading -/

def recipeHeadAt (buffer : Buffer Byte) : FileRecipeHead where
  userID := buffer.readInt 0 intSize
  fileSize := buffer.readInt recipeFileSizeAt longSize
  numOfShares := buffer.readInt recipeNumOfSharesAt intSize

def recipeRecordAt (buffer : Buffer Byte) : FileRecipeEntry where
  shareFP := ⟨buffer.slice 0 fpSize, Buffer.slice_length _ _ _⟩
  secretID := buffer.readInt recipeSecretIDAt intSize
  secretSize := buffer.readInt recipeSecretSizeAt intSize

theorem recipeHeadAt_of_slice {buffer : Buffer Byte} {recipe : RetrievedRecipeFile}
    (holds : buffer.slice 0 fileRecipeHeadSize = recipe.headBytes) :
    recipeHeadAt buffer = recipe.head := by
  have parts : fileRecipeHeadSize = intSize + recipePaddingSize + longSize + intSize +
      recipePaddingSize := rfl
  rw [parts, Buffer.slice_add, Buffer.slice_add, Buffer.slice_add, Buffer.slice_add,
    RetrievedRecipeFile.headBytes] at holds
  rcases List.append_inj' holds (by simp [recipe.endPadding_size]) with ⟨holds, _⟩
  rcases List.append_inj' holds (by simp) with ⟨holds, numOfShares⟩
  rcases List.append_inj' holds (by simp) with ⟨holds, fileSize⟩
  rcases List.append_inj' holds (by simp [recipe.userPadding_size]) with ⟨userID, _⟩
  have fileSizePlace : 0 + (intSize + recipePaddingSize) = recipeFileSizeAt := rfl
  have numOfSharesPlace : 0 + (intSize + recipePaddingSize + longSize) =
      recipeNumOfSharesAt := rfl
  rw [fileSizePlace] at fileSize
  rw [numOfSharesPlace] at numOfShares
  have small := recipe.uploadSize_small
  rw [fileRecipeEntrySize, fileRecipeHeadSize] at small
  have count : (BitVec.ofNat 32 recipe.records.length).toInt = recipe.records.length := by
    rw [BitVec.toInt_ofNat', Int.bmod_eq_of_le] <;> omega
  rw [recipeHeadAt, RetrievedRecipeFile.head, readInt_of_slice_word userID,
    readInt_of_slice_long fileSize, readInt_of_slice_word numOfShares, count]

theorem recipeRecordAt_of_slice {buffer : Buffer Byte} {record : RecipeRecord}
    (holds : buffer.slice 0 fileRecipeEntrySize = record.bytes) :
    recipeRecordAt buffer = record.entry := by
  have parts : fileRecipeEntrySize = fpSize + intSize + intSize := rfl
  rw [parts, Buffer.slice_add, Buffer.slice_add, RecipeRecord.bytes] at holds
  rcases List.append_inj' holds (by simp) with ⟨holds, secretSize⟩
  rcases List.append_inj' holds (by simp) with ⟨shareFP, secretID⟩
  have secretIDPlace : 0 + fpSize = recipeSecretIDAt := rfl
  have secretSizePlace : 0 + (fpSize + intSize) = recipeSecretSizeAt := rfl
  rw [secretIDPlace] at secretID
  rw [secretSizePlace] at secretSize
  have fingerprint : (recipeRecordAt buffer).shareFP = record.shareFP :=
    Server.Fingerprint.eq_of_bytes shareFP
  rw [RecipeRecord.entry, ← readInt_of_slice_word secretID,
    ← readInt_of_slice_word secretSize, ← fingerprint]
  rfl

end MetaDedup.Wire
