import MetaDedup.Client.GaloisField
import MetaDedup.Server.InternalFileName

/-! # Data structures of the server

The records of `dataStruct.hh` that the share index and the metadata packages
consist of. Counters and sizes are unbounded integers. -/

namespace MetaDedup.Server

/-- `FP_SIZE`. -/
def fpSize : Nat := 32

/-- `CONTAINER_BUFFER_SIZE`. -/
def containerBufferSize : Nat := 4 * 2 ^ 20

/-- `RECIPE_BUFFER_SIZE`. -/
def recipeBufferSize : Nat := 4 * 2 ^ 20

/-- A SHA-256 value. -/
structure Fingerprint where
  bytes : List Byte
  size_eq : bytes.length = fpSize
  deriving DecidableEq

theorem Fingerprint.eq_of_bytes {left right : Fingerprint} (same : left.bytes = right.bytes) :
    left = right := by
  cases left
  cases right
  cases same
  rfl

theorem zeros_size : (List.replicate fpSize (0 : Byte)).length = fpSize :=
  List.length_replicate

/-! ## Share index -/

structure ShareUserRefEntry where
  userID : Int
  refCnt : Nat
  deriving DecidableEq

/-- The value stored under a fingerprint: the head `shareIndexValueHead_t` and the
user reference entries that follow it. -/
structure ShareIndexValue where
  shareContainerName : InternalFileName
  shareContainerOffset : Nat
  shareSize : Nat
  numOfUsers : Nat
  userRefs : List ShareUserRefEntry
  deriving DecidableEq

namespace ShareIndexValue

/-- The scan for the reference entry of a user, over the announced number of
entries. -/
def ownerPosition (value : ShareIndexValue) (userID : Int) : Option Nat :=
  (value.userRefs.take value.numOfUsers).findIdx? fun ref => ref.userID == userID

def incrRefCnt (value : ShareIndexValue) (position : Nat) : ShareIndexValue :=
  { value with
    userRefs := value.userRefs.modify position fun ref =>
      { ref with refCnt := ref.refCnt + 1 } }

def appendUserRef (value : ShareIndexValue) (userID : Int) : ShareIndexValue :=
  { value with
    numOfUsers := value.numOfUsers + 1
    userRefs := value.userRefs ++ [⟨userID, 1⟩] }

/-- The update `interUserIndexUpdate_` makes to a value it finds. -/
def addReference (value : ShareIndexValue) (userID : Int) : ShareIndexValue :=
  match value.ownerPosition userID with
  | some position => value.incrRefCnt position
  | none => value.appendUserRef userID

end ShareIndexValue

/-! ## Metadata packages -/

structure ShareMDEntry where
  shareFP : Fingerprint
  secretID : Int
  secretSize : Int
  shareSize : Nat
  deriving DecidableEq

/-- The metadata of one file in a package: the fields of `fileShareMDHead_t`, the
full name and the entries. A loop bounded by `numOfComingSecrets` reads the
entries, so there are exactly that many. -/
structure FileShareMD where
  fullName : List Byte
  fileSize : Int
  numOfPastSecrets : Int
  sizeOfPastSecrets : Int
  numOfComingSecrets : Int
  sizeOfComingSecrets : Int
  entries : List ShareMDEntry
  entries_length : entries.length = numOfComingSecrets.toNat

def slash : Byte := 47

def dot : Byte := 46

/-- Put a name into the form `/…`; `none` when the name is empty or begins with
`./` or `../`. -/
def formatFullFileName (fullFileName : List Byte) : Option (List Byte) :=
  if fullFileName = [] then none
  else if fullFileName.head? ≠ some slash then
    if fullFileName.take 2 = [dot, slash] ∨ fullFileName.take 3 = [dot, dot, slash]
    then none
    else some (slash :: fullFileName)
  else some fullFileName

end MetaDedup.Server
