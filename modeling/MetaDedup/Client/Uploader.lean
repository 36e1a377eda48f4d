import MetaDedup.Server.DataConnection

/-! # `Uploader`

The thread that uploads the shares of a file to one cloud. It collects shares and
their metadata in two buffers. When the shares no longer fit, and after the last one,
it sends the metadata, waits for the status list, and sends the shares the server does
not have yet. The metadata buffer has no limit here. -/

namespace MetaDedup.Uploader

open Foundation Wire
open Server (Fingerprint DataRequest)

/-- `UPLOAD_BUFFER_SIZE`. -/
def uploadBufferSize : Nat := 4 * 1024 * 1024

/-- `RING_BUFFER_DATA_SIZE`. -/
def ringBufferDataSize : Nat := 16 * 1024

/-- A share object of the ring buffer. The list is the first `shareSize` bytes of the
data of the item. -/
structure ShareObject where
  shareFP : Fingerprint
  secretID : BitVec 32
  secretSize : BitVec 32
  data : List Byte
  deriving DecidableEq

def ShareObject.header (share : ShareObject) : List Byte :=
  share.shareFP.bytes ++ wordBytes intSize share.secretID.toNat ++
    wordBytes intSize share.secretSize.toNat ++ wordBytes intSize share.data.length

/-- An item of the ring buffer: `FILE_HEADER` with the memory of a `fileShareMDHead_t`
and the data that begins with the full name, or a share object. The last share of a
file has the type `SHARE_END` instead of `SHARE_OBJECT`. -/
inductive Item
  | fileHeader (head data : Buffer Byte)
  | share (share : ShareObject) (isEnd : Bool)

/-- The buffers and write pointers for one cloud. The file header is at the offset
`header` of the metadata buffer. -/
structure UploadBuffers where
  uploadMetaBuffer : Buffer Byte
  metaWP : Nat
  header : Nat
  uploadContainer : Buffer Byte
  containerWP : Nat
  shareSizeArray : Buffer Nat
  numOfShares : Nat

namespace UploadBuffers

def headerField (buffers : UploadBuffers) (field size : Nat) : Int :=
  buffers.uploadMetaBuffer.readInt (buffers.header + field) size

def setHeaderField (buffers : UploadBuffers) (field size : Nat) (value : Int) :
    UploadBuffers :=
  { buffers with
    uploadMetaBuffer := buffers.uploadMetaBuffer.writeInt (buffers.header + field) size
      value }

/-- The branch of `thread_handler` for a file header. -/
def putFileHeader (buffers : UploadBuffers) (head data : Buffer Byte) : UploadBuffers :=
  let headed : UploadBuffers :=
    { buffers with
      uploadMetaBuffer := buffers.uploadMetaBuffer.copy buffers.metaWP head
        fileShareMDHeadSize
      header := buffers.metaWP
      metaWP := buffers.metaWP + fileShareMDHeadSize }
  let named : UploadBuffers :=
    { headed with
      uploadMetaBuffer := headed.uploadMetaBuffer.copy headed.metaWP data
        (head.readInt fullNameSizeAt intSize).toNat }
  { named with metaWP := named.metaWP + (named.headerField fullNameSizeAt intSize).toNat }

def putShare (buffers : UploadBuffers) (share : ShareObject) : UploadBuffers :=
  let copied : UploadBuffers :=
    { buffers with
      uploadMetaBuffer := buffers.uploadMetaBuffer.write buffers.metaWP share.header
      metaWP := buffers.metaWP + shareMDEntrySize
      uploadContainer := buffers.uploadContainer.write buffers.containerWP share.data
      containerWP := buffers.containerWP + share.data.length
      shareSizeArray := buffers.shareSizeArray.write buffers.numOfShares [share.data.length]
      numOfShares := buffers.numOfShares + 1 }
  let counted := copied.setHeaderField numOfComingSecretsAt intSize
    (copied.headerField numOfComingSecretsAt intSize + 1)
  counted.setHeaderField sizeOfComingSecretsAt longSize
    (counted.headerField sizeOfComingSecretsAt longSize + share.secretSize.toInt)

/-- The package `performUpload` sends first. -/
def metaPackage (buffers : UploadBuffers) : List Byte :=
  buffers.uploadMetaBuffer.slice 0 buffers.metaWP

/-- Where `performUpload` stands in the reconstruction of the container buffer. -/
structure Reconstruction where
  uploadContainer : Buffer Byte
  index : Nat
  indexCount : Nat
  containerIndex : Nat

/-- One pass of that loop. A share is moved through `temp`, so it may overlap with the
place it is moved to. -/
def keepShare (shareSizeArray : Buffer Nat) (state : Reconstruction) (status : Bool) :
    Reconstruction :=
  let currentSize := shareSizeArray state.index
  if status then
    { state with
      index := state.index + 1
      containerIndex := state.containerIndex + currentSize }
  else
    { uploadContainer := state.uploadContainer.copy state.indexCount
        (state.uploadContainer.advance state.containerIndex) currentSize
      index := state.index + 1
      indexCount := state.indexCount + currentSize
      containerIndex := state.containerIndex + currentSize }

def reconstruct (buffers : UploadBuffers) (statusList : List Bool) : Reconstruction :=
  statusList.foldl (keepShare buffers.shareSizeArray) ⟨buffers.uploadContainer, 0, 0, 0⟩

def performUpload (buffers : UploadBuffers) (statusList : List Bool) :
    UploadBuffers × List Byte :=
  let state := buffers.reconstruct statusList
  ({ buffers with uploadContainer := state.uploadContainer },
    state.uploadContainer.slice 0 state.indexCount)

def updateHeader (buffers : UploadBuffers) : UploadBuffers :=
  let offset := (buffers.headerField fullNameSizeAt intSize).toNat
  let past := buffers.setHeaderField numOfPastSecretsAt intSize
    (buffers.headerField numOfPastSecretsAt intSize +
      buffers.headerField numOfComingSecretsAt intSize)
  let past := past.setHeaderField sizeOfPastSecretsAt longSize
    (past.headerField sizeOfPastSecretsAt longSize +
      past.headerField sizeOfComingSecretsAt longSize)
  let reset := past.setHeaderField numOfComingSecretsAt intSize 0
  let reset := reset.setHeaderField sizeOfComingSecretsAt longSize 0
  { reset with
    uploadMetaBuffer := reset.uploadMetaBuffer.copy 0
      (reset.uploadMetaBuffer.advance reset.header) (fileShareMDHeadSize + offset)
    metaWP := fileShareMDHeadSize + offset
    containerWP := 0
    numOfShares := 0 }

end UploadBuffers

/-- What the thread is about to do. While it waits for a status list it may have a
share in hand that did not fit. -/
inductive Phase
  | extract
  | awaitStatus (inHand : Option (ShareObject × Bool))
  | exited

structure Thread where
  buffers : UploadBuffers
  ringBuffer : List Item
  phase : Phase

namespace Thread

def place (thread : Thread) (share : ShareObject) (isEnd : Bool) :
    Thread × List DataRequest :=
  let placed := thread.buffers.putShare share
  if isEnd then
    ({ thread with buffers := placed, phase := .awaitStatus none },
      [.metadata placed.metaPackage])
  else ({ thread with buffers := placed, phase := .extract }, [])

/-- Handle an item of the ring buffer up to the next message the thread has to wait
for. -/
def handle (thread : Thread) : Item → Thread × List DataRequest
  | .fileHeader head data =>
      ({ thread with buffers := thread.buffers.putFileHeader head data }, [])
  | .share share isEnd =>
      if share.data.length + thread.buffers.containerWP > uploadBufferSize then
        ({ thread with phase := .awaitStatus (some (share, isEnd)) },
          [.metadata thread.buffers.metaPackage])
      else thread.place share isEnd

/-- The thread receives the status list it waits for and goes on up to the next message
it has to wait for. -/
def receiveStatus (thread : Thread) (inHand : Option (ShareObject × Bool))
    (statusList : List Bool) : Thread × List DataRequest :=
  let uploaded := thread.buffers.performUpload statusList
  match inHand with
  | none =>
      ({ thread with buffers := uploaded.1, phase := .exited }, [.shareData uploaded.2])
  | some (share, isEnd) =>
      let next := place { thread with buffers := uploaded.1.updateHeader } share isEnd
      (next.1, .shareData uploaded.2 :: next.2)

end Thread

end MetaDedup.Uploader
