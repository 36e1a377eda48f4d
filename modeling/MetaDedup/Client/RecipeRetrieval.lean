import MetaDedup.Client.Collector
import MetaDedup.Server.RecipeStore

/-! # `Downloader::writeRetrivedFileRecipe`

The downloader looks up the key of a metadata chunk in the key file, decrypts the chunk
and appends an entry for each of its records to the recipe file. -/

namespace MetaDedup.Downloader

open Foundation Wire Encoder
open Server (Fingerprint FileRecipeEntry fpSize)

structure MetaItem where
  secretID : Int
  shareSize : Nat
  data : Buffer Byte

/-- The recipe file of a cloud and the counter of its file size. -/
structure RetrievedRecipe where
  entries : List FileRecipeEntry
  fileSize : Int

structure ReadMemory where
  keyBuffer : KeyRecord
  decData : Buffer Byte

/-- Read records of the key file one after another. At the end of the file a read leaves
the buffer as it is. -/
def readKeyRecords (keyFile : List KeyRecord) (keyBuffer : KeyRecord) (count : Nat) :
    KeyRecord :=
  (List.range count).foldl (fun buffer position => (keyFile[position]?).getD buffer)
    keyBuffer

def keyBytes (key : Fingerprint) : Buffer Byte := fun position => key.bytes.getD position 0

/-- The decrypted data of a chunk; `none` when the function returns 0. Without a key file
the data is taken as it is. -/
def decryptChunk (crypto : CryptoPrimitive) (keyFile : Option (List KeyRecord))
    (memory : ReadMemory) (input : MetaItem) : Option (Buffer Byte) :=
  match keyFile with
  | none => some input.data
  | some records =>
      let metaChunkID := -input.secretID
      let record := readKeyRecords records memory.keyBuffer metaChunkID.toNat
      if -record.secretID ≠ metaChunkID then none
      else
        (crypto.decryptWithKey input.data input.shareSize (keyBytes record.key)
          memory.decData 0).map fun decData => input.data.copy 0 decData input.shareSize

def recipeEntryAt (data : Buffer Byte) (offset : Nat) : FileRecipeEntry where
  shareFP := fingerprintOf (data.advance offset)
  secretID := data.readInt (offset + nodeSecretIDAt) intSize
  secretSize := data.readInt (offset + nodeSecretSizeAt) intSize

def writeRetrivedFileRecipe (crypto : CryptoPrimitive) (keyFile : Option (List KeyRecord))
    (memory : ReadMemory) (recipe : RetrievedRecipe) (input : MetaItem) :
    RetrievedRecipe × Bool :=
  match decryptChunk crypto keyFile memory input with
  | none => (recipe, false)
  | some data =>
      let entries := (List.range (input.shareSize / metaNodeSize)).map fun node =>
        recipeEntryAt data (node * metaNodeSize)
      (⟨recipe.entries ++ entries,
        recipe.fileSize + (entries.map FileRecipeEntry.secretSize).sum⟩, true)

def writeAll (crypto : CryptoPrimitive) (keyFile : Option (List KeyRecord))
    (recipe : RetrievedRecipe) (inputs : List (MetaItem × ReadMemory)) :
    RetrievedRecipe × Bool :=
  inputs.foldl (fun state input =>
    let written := writeRetrivedFileRecipe crypto keyFile input.2 state.1 input.1
    (written.1, state.2 && written.2)) (recipe, true)

end MetaDedup.Downloader
