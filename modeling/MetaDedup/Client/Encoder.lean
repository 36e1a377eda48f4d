import MetaDedup.Client.CDCodec.Convergence
import MetaDedup.Client.Collector
import MetaDedup.Client.Uploader

/-! # `Encoder`

The encoder threads turn secrets into shares. The collect thread distributes the shares
over the clouds, gives each of them a fingerprint, and collects the metadata of each
cloud. The arrays of an item are as long as they have to be. -/

namespace MetaDedup.Encoder

open Foundation Wire
open Server (Fingerprint fpSize)

/-- `NUM_THREADS`. -/
def numThreads : Nat := 2

/-- `RB_SIZE`. -/
def rbSize : Nat := 1024

/-- A `fileHead_t`. The list is the first `fullNameSize` bytes of its array. -/
structure FileHead where
  fullName : List Byte
  fileSize : Int
  bounded : fullName.length ≤ secretSize

/-- A `Secret_t`. The list is the first `secretSize` bytes of its array. -/
structure Secret where
  data : List Byte
  secretID : BitVec 32
  isEnd : Bool
  bounded : data.length ≤ secretSize

inductive SecretItem
  | file (head : FileHead)
  | secret (secret : Secret)

/-- A `ShareChunk_t`. The list is the part of its array that holds shares. -/
structure ShareChunk where
  data : List Byte
  secretID : BitVec 32
  secretSize : Nat
  shareSize : Nat
  isEnd : Bool

inductive ShareChunkItem
  | file (head : FileHead)
  | share (chunk : ShareChunk)

def ShareChunkItem.HoldsShares (clouds : Nat) : ShareChunkItem → Prop
  | .file _ => True
  | .share chunk => chunk.data.length = clouds * chunk.shareSize

variable {gf : GaloisField} {crypto : CryptoPrimitive}

/-! ## The encoder threads -/

/-- What a call of the codec finds: the memory of the codec, random bytes, the array that
the secret is at the beginning of, and the places for the shares and their size. -/
structure EncodeMemory (codec : CDCodec gf crypto) where
  buffers : codec.Buffers
  randomKey : Buffer Byte
  secretBuffer : Buffer Byte
  shareBuffer : Buffer Byte
  shareSize : Nat

def EncodeMemory.zero (codec : CDCodec gf crypto) : EncodeMemory codec where
  buffers := .zero codec
  randomKey := fun _ => 0
  secretBuffer := fun _ => 0
  shareBuffer := fun _ => 0
  shareSize := 0

/-- The share size and the shares after a call of the codec. Nobody looks at the returned
value: a call that fails leaves both places as they are. -/
def encode (codec : CDCodec gf crypto) (memory : EncodeMemory codec) (data : List Byte) :
    Nat × Buffer Byte :=
  match codec.encoding memory.buffers memory.randomKey (memory.secretBuffer.write 0 data)
      data.length memory.shareBuffer with
  | .ok encoded => (encoded.shareSize, encoded.shareBuffer)
  | .error _ => (memory.shareSize, memory.shareBuffer)

def encodeItem (codec : CDCodec gf crypto) (memory : EncodeMemory codec) :
    SecretItem → ShareChunkItem
  | .file head => .file head
  | .secret secret =>
      let encoded := encode codec memory secret.data
      .share
        { data := encoded.2.slice 0 (codec.n * encoded.1)
          secretID := secret.secretID
          secretSize := secret.data.length
          shareSize := encoded.1
          isEnd := secret.isEnd }

theorem encodeItem_holdsShares (codec : CDCodec gf crypto) (memory : EncodeMemory codec)
    (item : SecretItem) : (encodeItem codec memory item).HoldsShares codec.n := by
  cases item with
  | file head => trivial
  | secret secret => exact Buffer.slice_length _ _ _

/-! ## The collect thread -/

/-- What the arrays for a data share hold before they are written to: the data of the item
for the uploader, the fingerprint, and the bytes of the `metaNode` that are never set. -/
structure NodeMemory where
  data : Buffer Byte
  shareFP : Buffer Byte
  unset : List Byte
  unset_size : unset.length = unsetSize

structure CollectMemory (codec : CDCodec gf crypto) where
  name : EncodeMemory codec
  node : NodeMemory
  chunk : StackMemory

def CollectMemory.zero (codec : CDCodec gf crypto) : CollectMemory codec where
  name := .zero codec
  node := ⟨fun _ => 0, fun _ => 0, List.replicate unsetSize 0, zeroUnset_size⟩
  chunk := .zero

/-- An item handed to the data thread of a cloud: a file header with the share of the file
name, or a share. A file header is handed to the metadata thread, too. -/
inductive CollectedItem
  | fileHeader (fileSize : Int) (name : List Byte)
  | share (share : Uploader.ShareObject) (isEnd : Bool)

theorem fingerprintOf_take (crypto : CryptoPrimitive) (data : Buffer Byte) (size : Nat)
    (stale : Buffer Byte) {count : Nat} (written : count ≤ crypto.hashSize)
    (inside : count ≤ fpSize) :
    (fingerprintOf (crypto.generateHash data size stale 0)).bytes.take count =
      (crypto.digest (data.slice 0 size)).slice 0 count := by
  rw [fingerprintOf, Buffer.slice_take _ _ inside]
  apply Buffer.slice_congr
  intro position early
  rw [CryptoPrimitive.generateHash,
    stale.copy_inside 0 _ (Nat.lt_of_lt_of_le early written), Nat.zero_add]

def shareObject (crypto : CryptoPrimitive) (memory : NodeMemory) (chunk : ShareChunk)
    (cloud : Nat) : Uploader.ShareObject :=
  let share := (chunk.data.drop (cloud * chunk.shareSize)).take chunk.shareSize
  { shareFP := fingerprintOf (crypto.generateHash (memory.data.write 0 share)
      chunk.shareSize memory.shareFP 0)
    secretID := chunk.secretID
    secretSize := BitVec.ofNat 32 chunk.secretSize
    data := share }

theorem shareObject_length (crypto : CryptoPrimitive) (memory : NodeMemory)
    {chunk : ShareChunk} {clouds cloud : Nat}
    (holds : (ShareChunkItem.share chunk).HoldsShares clouds) (listed : cloud < clouds) :
    (shareObject crypto memory chunk cloud).data.length = chunk.shareSize := by
  have row : (cloud + 1) * chunk.shareSize ≤ clouds * chunk.shareSize :=
    Nat.mul_le_mul_right _ listed
  have length : chunk.data.length = clouds * chunk.shareSize := holds
  rw [Nat.succ_mul] at row
  rw [shareObject, List.length_take, List.length_drop, length]
  omega

theorem shareObject_shareFP (crypto : CryptoPrimitive) (memory : NodeMemory)
    {chunk : ShareChunk} {clouds cloud : Nat}
    (holds : (ShareChunkItem.share chunk).HoldsShares clouds) (listed : cloud < clouds)
    {count : Nat} (written : count ≤ crypto.hashSize) (inside : count ≤ fpSize) :
    (shareObject crypto memory chunk cloud).shareFP.bytes.take count =
      (crypto.digest (shareObject crypto memory chunk cloud).data).slice 0 count := by
  have stored := memory.data.slice_write_of_length 0
    (shareObject_length crypto memory holds listed)
  have hashed := fingerprintOf_take crypto
    (memory.data.write 0 (shareObject crypto memory chunk cloud).data) chunk.shareSize
    memory.shareFP written inside
  rw [stored] at hashed
  exact hashed

def dataShare (memory : NodeMemory) (chunk : ShareChunk) (share : Uploader.ShareObject) :
    DataShare where
  node :=
    { shareFP := share.shareFP
      unset := memory.unset
      secretID := share.secretID
      secretSize := share.secretSize
      shareSize := BitVec.ofNat 32 chunk.shareSize
      unset_size := memory.unset_size }
  isEnd := chunk.isEnd

structure CloudOutput where
  items : List CollectedItem
  collection : Collection

namespace CloudOutput

def start (metaChunkBuffer : Buffer Byte) : CloudOutput := ⟨[], .start metaChunkBuffer⟩

def add (codec : CDCodec gf crypto) (cloud : Nat) (output : CloudOutput)
    (item : ShareChunkItem × CollectMemory codec) : CloudOutput :=
  match item.1 with
  | .file head =>
      let encoded := encode codec item.2.name head.fullName
      { output with
        items := output.items ++
          [.fileHeader head.fileSize (encoded.2.slice (cloud * encoded.1) encoded.1)] }
  | .share chunk =>
      let share := shareObject crypto item.2.node chunk cloud
      { items := output.items ++ [.share share chunk.isEnd]
        collection := output.collection.add crypto
          (dataShare item.2.node chunk share, item.2.chunk) }

def addAll (codec : CDCodec gf crypto) (cloud : Nat) (output : CloudOutput)
    (items : List (ShareChunkItem × CollectMemory codec)) : CloudOutput :=
  items.foldl (add codec cloud) output

end CloudOutput

end MetaDedup.Encoder
