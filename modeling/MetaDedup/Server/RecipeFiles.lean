import MetaDedup.Server.MinDedupCore
import MetaDedup.Server.RestoreShares
import MetaDedup.Wire.FileNames
import MetaDedup.Wire.FileRecipe

/-! # Recipe files of the data core

The client sends the recipe it has retrieved to the server with a `FILE_RECIPE` message,
and the server appends it to a file of `meta/RecipeFiles`. A `DOWNLOAD` request for the
name of the file makes `restoreShareFile` of `minDedupCore` read the recipe from the
file and send the shares. -/

namespace MetaDedup.Server

open Foundation Wire

abbrev RecipeFiles := List Byte → Option (List Byte)

namespace RecipeFiles

/-- A `FILE_RECIPE` message: the file is opened for appending. -/
def append (recipeFiles : RecipeFiles) (name bytes : List Byte) : RecipeFiles :=
  Function.update recipeFiles (directoryEntry name)
    (some ((recipeFiles (directoryEntry name)).getD [] ++ bytes))

theorem append_self (recipeFiles : RecipeFiles) (name bytes : List Byte) :
    recipeFiles.append name bytes (directoryEntry name) =
      some ((recipeFiles (directoryEntry name)).getD [] ++ bytes) :=
  Function.update_self _ _ _

/-- `rm -rf` with the name of a file, run by a shell. `removes` says which files the
command removes: for most names the one that is named. -/
def remove (removes : List Byte → List Byte → Bool) (recipeFiles : RecipeFiles)
    (file : List Byte) : RecipeFiles :=
  fun other => if removes file other then none else recipeFiles other

end RecipeFiles

/-- Memory of `restoreShareFile` that is not initialized. -/
structure RestoreMemory where
  recipeFileBuffer : Buffer Byte
  shareFileBuffer : Buffer Byte
  shareContainerCache : Buffer Byte

/-- What a call of `restoreShareFile` does: its return value, the messages it sends, and
the recipe files it leaves. -/
structure RestoreResult where
  returns : Bool
  sent : List (List Byte)
  recipeFiles : RecipeFiles

namespace MinDedupCore

variable (core : MinDedupCore) (socket : Nat → Bool) (memory : RestoreMemory)

def restoreEntries : Nat → List Byte → Buffer Byte → Restoration →
    Except Restoration Restoration
  | 0, _, _, restoration => .ok restoration
  | count + 1, file, recipeFileBuffer, restoration =>
      if file = [] then .error restoration
      else
        let recipeFileBuffer := recipeFileBuffer.write 0 (file.take fileRecipeEntrySize)
        (core.store.restoreShare core.bufferNodes socket memory.shareContainerCache
          restoration (recipeRecordAt recipeFileBuffer)).bind
          (restoreEntries count (file.drop fileRecipeEntrySize) recipeFileBuffer)

def restoreRecipeFile (file : List Byte) : Except Restoration Restoration :=
  let recipeFileBuffer := memory.recipeFileBuffer.write 0 (file.take fileRecipeHeadSize)
  let head := recipeHeadAt recipeFileBuffer
  (core.restoreEntries socket memory head.numOfShares.toNat (file.drop fileRecipeHeadSize)
    recipeFileBuffer ⟨[], .start memory.shareFileBuffer head⟩).bind
    (ShareStore.finishRestore socket)

/-- The user who calls is not used. The recipe file is removed when the shares have been
sent, and when there is no such file; on the ways out with an error it stays. -/
def restoreShareFile (removes : List Byte → List Byte → Bool) (recipeFiles : RecipeFiles)
    (_userID : Int) (fullRecipeFileName : List Byte) : RestoreResult :=
  match recipeFiles fullRecipeFileName with
  | none => ⟨true, [], recipeFiles.remove removes fullRecipeFileName⟩
  | some [] => ⟨false, [], recipeFiles⟩
  | some file =>
      match core.restoreRecipeFile socket memory file with
      | .error restoration => ⟨false, restoration.stream.sent, recipeFiles⟩
      | .ok restoration =>
          ⟨true, restoration.stream.sent, recipeFiles.remove removes fullRecipeFileName⟩

theorem restoreShareFile_recipeFiles (removes : List Byte → List Byte → Bool)
    (recipeFiles : RecipeFiles) (userID : Int) (name : List Byte) :
    let result := core.restoreShareFile socket memory removes recipeFiles userID name
    result.recipeFiles = recipeFiles ∨
      result.recipeFiles = recipeFiles.remove removes name := by
  rw [restoreShareFile]
  split
  · exact .inr rfl
  · exact .inl rfl
  · split
    · exact .inl rfl
    · exact .inr rfl

/-! ## A recipe that was sent whole -/

private theorem restoreEntries_of_records (records : List RecipeRecord) (rest : List Byte)
    (recipeFileBuffer : Buffer Byte) (restoration : Restoration) :
    core.restoreEntries socket memory records.length
      ((records.map RecipeRecord.bytes).flatten ++ rest) recipeFileBuffer restoration =
    (records.map RecipeRecord.entry).foldlM
      (core.store.restoreShare core.bufferNodes socket memory.shareContainerCache)
      restoration := by
  induction records generalizing recipeFileBuffer restoration with
  | nil => rfl
  | cons record records induction =>
      have nonempty : record.bytes ++ ((records.map RecipeRecord.bytes).flatten ++ rest) ≠
          [] := by
        intro empty
        have size := record.bytes_length
        rw [(List.append_eq_nil_iff.mp empty).1] at size
        cases size
      have read : recipeRecordAt (recipeFileBuffer.write 0 record.bytes) = record.entry :=
        recipeRecordAt_of_slice (Buffer.slice_write_of_length _ _ record.bytes_length)
      rw [List.map_cons, List.flatten_cons, List.append_assoc, List.length_cons,
        restoreEntries, if_neg nonempty, List.take_left' record.bytes_length,
        List.drop_left' record.bytes_length, List.map_cons, List.foldlM_cons]
      simp only [read]
      cases core.store.restoreShare core.bufferNodes socket memory.shareContainerCache
        restoration record.entry with
      | error stopped => rfl
      | ok next => exact induction _ next

private theorem restoreRecipeFile_of_recipe (recipe : RetrievedRecipeFile) (rest : List Byte) :
    core.restoreRecipeFile socket memory (recipe.bytes ++ rest) =
      core.store.restoreShares core.bufferNodes socket memory.shareContainerCache
        memory.shareFileBuffer recipe.head recipe.entries := by
  have read : recipeHeadAt (memory.recipeFileBuffer.write 0 recipe.headBytes) =
      recipe.head :=
    recipeHeadAt_of_slice (Buffer.slice_write_of_length _ _ recipe.headBytes_length)
  rw [restoreRecipeFile, RetrievedRecipeFile.bytes, List.append_assoc,
    List.take_left' recipe.headBytes_length, List.drop_left' recipe.headBytes_length, read]
  simp only [RetrievedRecipeFile.head, Int.toNat_natCast]
  rw [restoreEntries_of_records]
  rfl

theorem restoreShareFile_of_recipe (removes : List Byte → List Byte → Bool)
    {recipeFiles : RecipeFiles} {name rest : List Byte} {recipe : RetrievedRecipeFile}
    (present : recipeFiles name = some (recipe.bytes ++ rest)) (userID : Int) :
    core.restoreShareFile socket memory removes recipeFiles userID name =
      match core.store.restoreShares core.bufferNodes socket memory.shareContainerCache
          memory.shareFileBuffer recipe.head recipe.entries with
      | .error restoration => ⟨false, restoration.stream.sent, recipeFiles⟩
      | .ok restoration =>
          ⟨true, restoration.stream.sent, recipeFiles.remove removes name⟩ := by
  have nonempty : recipe.bytes ++ rest ≠ [] := by
    intro empty
    have size := recipe.headBytes_length
    rw [RetrievedRecipeFile.bytes, List.append_assoc] at empty
    rw [(List.append_eq_nil_iff.mp empty).1] at size
    cases size
  rw [restoreShareFile, present, ← restoreRecipeFile_of_recipe core socket memory recipe rest]
  cases content : recipe.bytes ++ rest with
  | nil => exact absurd content nonempty
  | cons first others => rfl

end MinDedupCore

/-! ## Samples -/

def removesNamed (file other : List Byte) : Bool := file == other

def clearedRestoreMemory : RestoreMemory := ⟨fun _ => 0, fun _ => 0, fun _ => 0⟩

def byteShareValue (offset : Nat) : ShareIndexValue where
  shareContainerName := .first
  shareContainerOffset := offset
  shareSize := 1
  numOfUsers := 1
  userRefs := [⟨1, 1⟩]

/-- Two shares of one byte in one container. -/
def twoShareCore : MinDedupCore where
  store :=
    { shareIndex := fun shareFP =>
        if shareFP.bytes = List.replicate fpSize 0 then some (byteShareValue 0)
        else if shareFP.bytes = List.replicate fpSize 1 then some (byteShareValue 1)
        else none
      shareContainers := fun _ => some [7, 9]
      globalShareContainerName := .initial }
  bufferNodes := []

theorem ones_size : (List.replicate fpSize (1 : Byte)).length = fpSize :=
  List.length_replicate

def oneShareRecipe : RetrievedRecipeFile where
  userID := 1
  fileSize := 100
  records := [⟨⟨List.replicate fpSize 0, zeros_size⟩, 7, 100⟩]
  userPadding := [0, 0, 0, 0]
  endPadding := [0, 0, 0, 0]
  userPadding_size := zeroPadding_size
  endPadding_size := zeroPadding_size
  uploadSize_small := by decide

def otherShareRecipe : RetrievedRecipeFile :=
  { oneShareRecipe with
    fileSize := 200
    records := [⟨⟨_, ones_size⟩, 8, 200⟩]
    uploadSize_small := by decide }

def twoShareRecipe : RetrievedRecipeFile :=
  { oneShareRecipe with
    fileSize := 300
    records := oneShareRecipe.records ++ otherShareRecipe.records
    uploadSize_small := by decide }

end MetaDedup.Server
