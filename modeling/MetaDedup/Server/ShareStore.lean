import MetaDedup.Foundation.Buffer
import MetaDedup.Foundation.Loop
import MetaDedup.Foundation.NamedLogs
import MetaDedup.Server.DataStruct

/-! # The share store

`DedupCore` and `minDedupCore` keep shares in the same way, with the same code: a
share index in LevelDB, a container buffer for every user, and container files.
LevelDB is a map from fingerprints to values, and a directory is a map from file
names to contents. Database errors and failing file calls are left out.

A function that returns 0 leaves the server in some state too, so the functions
return an `Except` whose two cases both carry the state. -/

namespace MetaDedup.Server

open Foundation

/-- The container half of `perUserBufferNode_t`. The list holds the first
`shareContainerBufferCurrLen` bytes of the buffer. -/
structure ShareContainerBuffer where
  userID : Int
  shareContainerName : InternalFileName
  shareContainerBuffer : List Byte
  deriving DecidableEq

structure ShareStore where
  shareIndex : Fingerprint → Option ShareIndexValue
  shareContainers : InternalFileName → Option (List Byte)
  globalShareContainerName : GlobalFileName

namespace ShareStore

def empty : ShareStore := ⟨fun _ => none, fun _ => none, .initial⟩

/-- `db_->Put`, and a batch of `Delete` and `Put`. -/
def put (store : ShareStore) (shareFP : Fingerprint) (value : ShareIndexValue) :
    ShareStore :=
  { store with shareIndex := Function.update store.shareIndex shareFP (some value) }

/-- Create or truncate a container file and write `bytes` into it. -/
def writeContainer (store : ShareStore) (name : InternalFileName) (bytes : List Byte) :
    ShareStore :=
  { store with
    shareContainers := Function.update store.shareContainers name (some bytes) }

def drawContainerName (store : ShareStore) : InternalFileName × ShareStore :=
  (store.globalShareContainerName.draw.1,
    { store with globalShareContainerName := store.globalShareContainerName.draw.2 })

/-- The returned flag is `intraUserDupStat`. -/
def intraUserIndexUpdate (store : ShareStore) (shareFP : Fingerprint) (userID : Int) :
    ShareStore × Bool :=
  match store.shareIndex shareFP with
  | some value =>
      match value.ownerPosition userID with
      | some position => (store.put shareFP (value.incrRefCnt position), true)
      | none => (store, false)
  | none => (store, false)

/-- Writing an empty buffer fails: `fwrite` of zero bytes returns 0. -/
def storeShareContainer (store : ShareStore) (buffer : ShareContainerBuffer) :
    Except (ShareStore × ShareContainerBuffer) (ShareStore × ShareContainerBuffer) :=
  let written := store.writeContainer buffer.shareContainerName buffer.shareContainerBuffer
  if buffer.shareContainerBuffer = [] then .error (written, buffer)
  else
    .ok (written.drawContainerName.2,
      { buffer with
        shareContainerName := written.drawContainerName.1
        shareContainerBuffer := [] })

def newShareValue (buffer : ShareContainerBuffer) (userID : Int) (shareSize : Nat) :
    ShareIndexValue where
  shareContainerName := buffer.shareContainerName
  shareContainerOffset := buffer.shareContainerBuffer.length
  shareSize := shareSize
  numOfUsers := 1
  userRefs := [⟨userID, 1⟩]

/-- Put a share whose fingerprint is new into the share index and the container
buffer. -/
def addNewShare (store : ShareStore) (buffer : ShareContainerBuffer)
    (shareFP : Fingerprint) (userID : Int) (share : List Byte) :
    ShareStore × ShareContainerBuffer :=
  (store.put shareFP (newShareValue buffer userID share.length),
    { buffer with shareContainerBuffer := buffer.shareContainerBuffer ++ share })

def interUserIndexUpdate (store : ShareStore) (buffer : ShareContainerBuffer)
    (shareFP : Fingerprint) (userID : Int) (share : List Byte) :
    Except (ShareStore × ShareContainerBuffer) (ShareStore × ShareContainerBuffer) :=
  match store.shareIndex shareFP with
  | some value => .ok (store.put shareFP (value.addReference userID), buffer)
  | none => do
      let (store, buffer) ←
        if buffer.shareContainerBuffer.length + share.length > containerBufferSize
        then store.storeShareContainer buffer
        else .ok (store, buffer)
      .ok (store.addNewShare buffer shareFP userID share)

/-- The container part of `flushBufferNodeIntoDisk_`. -/
def flushContainer (store : ShareStore) (buffer : ShareContainerBuffer) : ShareStore :=
  if 0 < buffer.shareContainerBuffer.length then
    store.writeContainer buffer.shareContainerName buffer.shareContainerBuffer
  else store

/-- The first buffer in the link that carries the container's name. -/
def readShareContainerFromBuffer (buffers : List ShareContainerBuffer)
    (shareContainerName : InternalFileName) : Option (List Byte) :=
  (buffers.find? fun buffer => buffer.shareContainerName == shareContainerName).map
    ShareContainerBuffer.shareContainerBuffer

/-- A container is read from the buffers, and from its file if no buffer has it. -/
def readShareContainer (store : ShareStore) (buffers : List ShareContainerBuffer)
    (shareContainerName : InternalFileName) : Option (List Byte) :=
  (readShareContainerFromBuffer buffers shareContainerName).or
    (store.shareContainers shareContainerName)

/-- The bytes an index value refers to; `none` when its container is missing or too
short. -/
def readShare (store : ShareStore) (buffers : List ShareContainerBuffer)
    (value : ShareIndexValue) : Option (List Byte) :=
  (store.readShareContainer buffers value.shareContainerName).bind fun container =>
    region container value.shareContainerOffset value.shareSize

end ShareStore

/-! ## The shares of one package -/

/-- Where `secondStageDedup` stands in a package: the store, the container buffer of
the user, and the two counters. -/
structure ShareCursor where
  store : ShareStore
  buffer : ShareContainerBuffer
  numOfShares : Nat
  shareDataBufferOffset : Nat

namespace ShareCursor

/-- One pass of the loop over the entries. A share the first stage reported as a
duplicate is skipped; any other one is checked against its fingerprint. -/
def placeShare (generateHash : List Byte → Fingerprint) (userID : Int)
    (intraUserDupStatList : Nat → Bool) (shareDataBuffer : Buffer Byte)
    (cursor : ShareCursor) (entry : ShareMDEntry) : Except ShareCursor ShareCursor :=
  if intraUserDupStatList cursor.numOfShares then
    .ok { cursor with numOfShares := cursor.numOfShares + 1 }
  else
    let share := (shareDataBuffer.advance cursor.shareDataBufferOffset).slice 0
      entry.shareSize
    if generateHash share ≠ entry.shareFP then .error cursor
    else
      match cursor.store.interUserIndexUpdate cursor.buffer entry.shareFP userID share with
      | .error (store, buffer) => .error { cursor with store := store, buffer := buffer }
      | .ok (store, buffer) =>
          .ok
            { store := store
              buffer := buffer
              numOfShares := cursor.numOfShares + 1
              shareDataBufferOffset := cursor.shareDataBufferOffset + entry.shareSize }

end ShareCursor

/-! ## First stage -/

structure FirstStageReply where
  intraUserDupStatList : List Bool
  sentShareDataSize : Nat

namespace ShareStore

def reportShare (userID : Int) (state : ShareStore × FirstStageReply)
    (entry : ShareMDEntry) : ShareStore × FirstStageReply :=
  let update := state.1.intraUserIndexUpdate entry.shareFP userID
  (update.1,
    { intraUserDupStatList := state.2.intraUserDupStatList ++ [update.2]
      sentShareDataSize := state.2.sentShareDataSize +
        if update.2 then 0 else entry.shareSize })

/-- The number of shares is the length of the returned list. -/
def firstStageDedup (store : ShareStore) (userID : Int) (package : List FileShareMD) :
    ShareStore × FirstStageReply :=
  package.foldl (fun state file => file.entries.foldl (reportShare userID) state)
    (store, ⟨[], 0⟩)

end ShareStore

end MetaDedup.Server
