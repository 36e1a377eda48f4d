import MetaDedup.Server.DataStruct
import MetaDedup.Wire.ShareMetadata

/-! # Reading metadata packages

Both stages walk through the package of a `META` message in the same way: they read a
head, go past the full name, and read as many entries as the head announces, until
they have come to the end of the package. Names and shares of negative size are not
modelled. -/

namespace MetaDedup.Server

open Foundation Wire

def readEntry (shareMDBuffer : Buffer Byte) (offset : Nat) : ShareMDEntry where
  shareFP := ⟨shareMDBuffer.slice offset fpSize, Buffer.slice_length _ _ _⟩
  secretID := shareMDBuffer.readInt (offset + secretIDAt) intSize
  secretSize := shareMDBuffer.readInt (offset + secretSizeAt) intSize
  shareSize := (shareMDBuffer.readInt (offset + shareSizeAt) intSize).toNat

def entriesAt (shareMDBuffer : Buffer Byte) (offset : Nat) : Nat :=
  offset + fileShareMDHeadSize +
    (shareMDBuffer.readInt (offset + fullNameSizeAt) intSize).toNat

def readFile (shareMDBuffer : Buffer Byte) (offset : Nat) : FileShareMD :=
  let numOfComingSecrets := shareMDBuffer.readInt (offset + numOfComingSecretsAt) intSize
  { fullName := shareMDBuffer.slice (offset + fileShareMDHeadSize)
      (shareMDBuffer.readInt (offset + fullNameSizeAt) intSize).toNat
    fileSize := shareMDBuffer.readInt (offset + fileSizeAt) longSize
    numOfPastSecrets := shareMDBuffer.readInt (offset + numOfPastSecretsAt) intSize
    sizeOfPastSecrets := shareMDBuffer.readInt (offset + sizeOfPastSecretsAt) longSize
    numOfComingSecrets := numOfComingSecrets
    sizeOfComingSecrets := shareMDBuffer.readInt (offset + sizeOfComingSecretsAt) longSize
    entries := (List.range numOfComingSecrets.toNat).map fun index =>
      readEntry shareMDBuffer (entriesAt shareMDBuffer offset + shareMDEntrySize * index)
    entries_length := by rw [List.length_map, List.length_range] }

def nextFileAt (shareMDBuffer : Buffer Byte) (offset : Nat) : Nat :=
  entriesAt shareMDBuffer offset +
    shareMDEntrySize * (readFile shareMDBuffer offset).entries.length

def readFiles (shareMDBuffer : Buffer Byte) (shareMDSize : Nat) :
    (count offset : Nat) → List FileShareMD
  | 0, _ => []
  | count + 1, offset =>
      if offset < shareMDSize then
        readFile shareMDBuffer offset ::
          readFiles shareMDBuffer shareMDSize count (nextFileAt shareMDBuffer offset)
      else []

/-- The files of a package. Every file takes up some bytes, so there are not more of
them than bytes. -/
def readPackage (shareMDBuffer : Buffer Byte) (shareMDSize : Nat) : List FileShareMD :=
  readFiles shareMDBuffer shareMDSize shareMDSize 0

theorem readPackage_single (shareMDBuffer : Buffer Byte) :
    readPackage shareMDBuffer (nextFileAt shareMDBuffer 0) = [readFile shareMDBuffer 0] := by
  have size : nextFileAt shareMDBuffer 0 = nextFileAt shareMDBuffer 0 - 1 + 1 := by
    have head : fileShareMDHeadSize ≤ nextFileAt shareMDBuffer 0 := by
      rw [nextFileAt, entriesAt]
      omega
    rw [fileShareMDHeadSize] at head
    omega
  have rest : ∀ count, readFiles shareMDBuffer (nextFileAt shareMDBuffer 0) count
      (nextFileAt shareMDBuffer 0) = [] := by
    intro count
    cases count with
    | zero => rfl
    | succ count => rw [readFiles, if_neg (Nat.lt_irrefl _)]
  have unfolded : readFiles shareMDBuffer (nextFileAt shareMDBuffer 0)
      (nextFileAt shareMDBuffer 0 - 1 + 1) 0 = [readFile shareMDBuffer 0] := by
    rw [readFiles, if_pos (by omega), rest]
  rw [readPackage]
  rw [← size] at unfolded
  exact unfolded

end MetaDedup.Server
