import MetaDedup.Foundation.Packets
import MetaDedup.Foundation.RecentCache
import MetaDedup.Server.RecipeStore
import MetaDedup.Server.ShareStore
import MetaDedup.Wire.ShareFile

/-! # Restoring the shares of a recipe

The loop of `restoreShareFile` looks up every share of a recipe, reads its container
through a small cache and collects the shares in a buffer, which it sends whenever the
next share does not fit. `DedupCore` and `minDedupCore` have the same loop; they differ
in where the recipe comes from. -/

namespace MetaDedup.Server

open Foundation Wire

/-- `NUM_OF_CACHED_CONTAINERS`. -/
def numOfCachedContainers : Nat := 4

/-! ## The share file buffer -/

/-- The share file buffer and the messages that have been sent from it. -/
structure ShareStream where
  shareFileBuffer : Buffer Byte
  shareFileBufferOffset : Nat
  sent : List (List Byte)

namespace ShareStream

/-- A buffer with the head of the share file, behind the room for the message head. -/
def start (shareFileBuffer : Buffer Byte) (head : FileRecipeHead) : ShareStream where
  shareFileBuffer := (shareFileBuffer.writeInt msgHeadSize longSize head.fileSize).writeInt
    (msgHeadSize + headNumOfSharesAt) intSize head.numOfShares
  shareFileBufferOffset := msgHeadSize + shareFileHeadSize
  sent := []

/-- Set the message head and send the message. `socket` says which calls of `send`
succeed; what a failing call may have sent is left out. -/
def send (socket : Nat → Bool) (stream : ShareStream) : Except ShareStream ShareStream :=
  let sentDataSize := stream.shareFileBufferOffset - msgHeadSize
  let buffer := (stream.shareFileBuffer.write 0 (htonl (-5))).write intSize
    (htonl (BitVec.ofNat 32 sentDataSize))
  if socket stream.sent.length then
    .ok ⟨buffer, msgHeadSize, stream.sent ++ [buffer.slice 0 stream.shareFileBufferOffset]⟩
  else .error ⟨buffer, stream.shareFileBufferOffset, stream.sent⟩

def makeRoom (socket : Nat → Bool) (stream : ShareStream) (shareSize : Nat) :
    Except ShareStream ShareStream :=
  if stream.shareFileBufferOffset + shareEntrySize + shareSize >
      msgHeadSize + shareFileBufferSize then
    stream.send socket
  else .ok stream

def putShare (stream : ShareStream) (entry : FileRecipeEntry) (share : List Byte) :
    ShareStream :=
  let offset := stream.shareFileBufferOffset
  { stream with
    shareFileBuffer :=
      (((stream.shareFileBuffer.writeInt offset intSize entry.secretID).writeInt
        (offset + entrySecretSizeAt) intSize entry.secretSize).writeInt
        (offset + entryShareSizeAt) intSize share.length).write
        (offset + shareEntrySize) share
    shareFileBufferOffset := offset + shareEntrySize + share.length }

/-- The last message, if there is something in the buffer. -/
def finish (socket : Nat → Bool) (stream : ShareStream) : Except ShareStream ShareStream :=
  if stream.shareFileBufferOffset > msgHeadSize then stream.send socket else .ok stream

end ShareStream

/-! ## The loop over the entries -/

/-- The cached containers and the share file buffer. -/
structure Restoration where
  shareContainerCache : List (InternalFileName × List Byte)
  stream : ShareStream

namespace ShareStore

/-- Read a container to be cached. Reading an empty file fails. -/
def loadShareContainer (store : ShareStore) (buffers : List ShareContainerBuffer)
    (shareContainerName : InternalFileName) : Option (List Byte) :=
  (readShareContainerFromBuffer buffers shareContainerName).or
    ((store.shareContainers shareContainerName).filter (· ≠ []))

/-- The share at the place a value names in a cached container. Behind the container the
cache has what was there before. -/
def cachedShare (stale : Buffer Byte) (container : List Byte) (value : ShareIndexValue) :
    List Byte :=
  Buffer.slice (fun position => container.getD position (stale position))
    value.shareContainerOffset value.shareSize

variable (store : ShareStore) (buffers : List ShareContainerBuffer)
  (socket : Nat → Bool) (stale : Buffer Byte)

def restoreShare (restoration : Restoration) (entry : FileRecipeEntry) :
    Except Restoration Restoration :=
  match store.shareIndex entry.shareFP with
  | none => .error restoration
  | some value =>
      match RecentCache.fetch numOfCachedContainers (store.loadShareContainer buffers)
          restoration.shareContainerCache value.shareContainerName with
      | none => .error restoration
      | some (container, shareContainerCache) =>
          match restoration.stream.makeRoom socket value.shareSize with
          | .error stream => .error { shareContainerCache, stream }
          | .ok stream =>
              .ok
                { shareContainerCache
                  stream := stream.putShare entry (cachedShare stale container value) }

def finishRestore (restoration : Restoration) : Except Restoration Restoration :=
  match restoration.stream.finish socket with
  | .error stream => .error { restoration with stream }
  | .ok stream => .ok { restoration with stream }

def restoreShares (shareFileBuffer : Buffer Byte) (head : FileRecipeHead)
    (entries : List FileRecipeEntry) : Except Restoration Restoration := do
  let restoration ← entries.foldlM (store.restoreShare buffers socket stale)
    ⟨[], .start shareFileBuffer head⟩
  finishRestore socket restoration

end ShareStore

end MetaDedup.Server
