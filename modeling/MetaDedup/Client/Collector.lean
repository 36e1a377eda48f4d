import MetaDedup.Client.CryptoTypes
import MetaDedup.Wire.MetaNode

/-! # Metadata chunks in `Encoder::collect`

For each cloud the collect thread turns the metadata of the data shares into metadata
chunks. It cuts a chunk where a fingerprint matches a pattern, where the shares of the
chunk have become large, and at the end of the file. A chunk is encrypted under its
hash, passed on, and its key is appended to the file `share-%d.key`. The buffer of the
chunk has no limit here, and the numbers of chunks and records are not bounded. -/

namespace MetaDedup.Encoder

open Foundation Wire
open Server (Fingerprint fpSize)

def avgSegmentSize : Nat := 2 <<< 19

def minSegmentSize : Nat := 2 <<< 18

def maxSegmentSize : Nat := 2 <<< 20

def divisor : Nat := (avgSegmentSize - minSegmentSize) / (8 * (2 <<< 10))

def pattern : Nat := (avgSegmentSize - minSegmentSize) / (8 * (2 <<< 10)) - 1

/-- `SECRET_SIZE`, the number of bytes of the chunk buffer that are cleared. -/
def secretSize : Nat := 16 * 1024

structure DataShare where
  node : MetaNode
  isEnd : Bool

structure MetaChunk where
  isEnd : Bool
  secretID : Int
  secretSize : Nat
  shareSize : Nat
  shareFP : Fingerprint
  data : Buffer Byte

/-- A record of the key file: an `int` and twice 32 bytes. -/
structure KeyRecord where
  secretID : Int
  shareFP : Fingerprint
  key : Fingerprint

/-- What the arrays of the thread hold before they are written to when a chunk is cut. -/
structure StackMemory where
  key : Buffer Byte
  encOutTemp : Buffer Byte
  shareFP : Buffer Byte

def StackMemory.zero : StackMemory := ⟨fun _ => 0, fun _ => 0, fun _ => 0⟩

structure Collector where
  segSizeTemp : BitVec 64
  metaChunkBuffer : Buffer Byte
  metaChunkCounter : Nat
  metaChunkID : Int

theorem fingerprint_size (buffer : Buffer Byte) : (buffer.slice 0 fpSize).length = fpSize :=
  Buffer.slice_length _ _ _

def fingerprintOf (buffer : Buffer Byte) : Fingerprint :=
  ⟨buffer.slice 0 fpSize, fingerprint_size buffer⟩

def matchesPattern (shareFP : Fingerprint) : Bool :=
  BitVec.ofNat 32 (littleEndian (shareFP.bytes.take intSize)) &&&
    BitVec.ofNat 32 (divisor - 1) == BitVec.ofNat 32 pattern

namespace Collector

def start (metaChunkBuffer : Buffer Byte) : Collector := ⟨0, metaChunkBuffer, 0, -1⟩

def addNode (collector : Collector) (node : MetaNode) : Collector :=
  { collector with
    segSizeTemp := collector.segSizeTemp + node.shareSize.signExtend 64
    metaChunkBuffer := collector.metaChunkBuffer.write
      (collector.metaChunkCounter * metaNodeSize) node.bytes
    metaChunkCounter := collector.metaChunkCounter + 1 }

def cutsAfter (collector : Collector) (share : DataShare) : Bool :=
  matchesPattern share.node.shareFP ||
    decide (collector.segSizeTemp.toNat > maxSegmentSize) || share.isEnd

variable (crypto : CryptoPrimitive)

def chunkKey (memory : StackMemory) (collector : Collector) : Buffer Byte :=
  crypto.generateHash collector.metaChunkBuffer (collector.metaChunkCounter * metaNodeSize)
    memory.key 0

/-- The encrypted chunk. When the encryption fails, a message is printed and the thread
goes on with what is in the array. -/
def encryptChunk (memory : StackMemory) (collector : Collector) : Buffer Byte :=
  (crypto.encryptWithKey collector.metaChunkBuffer
    (collector.metaChunkCounter * metaNodeSize) (collector.chunkKey crypto memory)
    memory.encOutTemp 0).getD memory.encOutTemp

def cutChunk (memory : StackMemory) (isEnd : Bool) (collector : Collector) :
    MetaChunk × KeyRecord :=
  let size := collector.metaChunkCounter * metaNodeSize
  let data := collector.encryptChunk crypto memory
  let shareFP := fingerprintOf (crypto.generateHash data size memory.shareFP 0)
  (⟨isEnd, collector.metaChunkID, size, size, shareFP, data⟩,
    ⟨collector.metaChunkID, shareFP, fingerprintOf (collector.chunkKey crypto memory)⟩)

def reset (collector : Collector) : Collector :=
  { segSizeTemp := 0
    metaChunkBuffer := collector.metaChunkBuffer.copy 0 (fun _ => 0) secretSize
    metaChunkCounter := 0
    metaChunkID := collector.metaChunkID - 1 }

def collectShare (memory : StackMemory) (collector : Collector) (share : DataShare) :
    Collector × Option (MetaChunk × KeyRecord) :=
  let added := collector.addNode share.node
  if added.cutsAfter share then
    (added.reset, some (added.cutChunk crypto memory share.isEnd))
  else (added, none)

end Collector

/-- What has been collected for one cloud: the chunks passed to the uploader, in order,
and the contents of the key file. -/
structure Collection where
  collector : Collector
  chunks : List MetaChunk
  keyFile : List KeyRecord

namespace Collection

def start (metaChunkBuffer : Buffer Byte) : Collection := ⟨.start metaChunkBuffer, [], []⟩

/-- Collect a share. The file is opened for appending. -/
def add (crypto : CryptoPrimitive) (collection : Collection)
    (item : DataShare × StackMemory) : Collection :=
  let collected := collection.collector.collectShare crypto item.2 item.1
  { collector := collected.1
    chunks := collection.chunks ++ (collected.2.map Prod.fst).toList
    keyFile := collection.keyFile ++ (collected.2.map Prod.snd).toList }

def addAll (crypto : CryptoPrimitive) (collection : Collection)
    (items : List (DataShare × StackMemory)) : Collection :=
  items.foldl (add crypto) collection

end Collection

end MetaDedup.Encoder
