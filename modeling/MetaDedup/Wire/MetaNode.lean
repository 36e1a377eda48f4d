import MetaDedup.Server.DataStruct
import MetaDedup.Wire.ShareMetadata

/-! # The layout of metadata chunks

A metadata chunk is a sequence of `metaNode` records, one for each data share. The
record is declared alike in the encoder and in the downloader. Eighteen bytes of it are
never set, and two more align the integers. -/

namespace MetaDedup.Wire

open Foundation
open Server (Fingerprint fpSize)

def metaNodeSize : Nat := 64

def nodeSecretIDAt : Nat := 52

def nodeSecretSizeAt : Nat := 56

/-- The number of bytes of a `metaNode` that are not set. -/
def unsetSize : Nat := 20

theorem zeroUnset_size : (List.replicate unsetSize (0 : Byte)).length = unsetSize :=
  List.length_replicate

/-- A `metaNode` in memory. -/
structure MetaNode where
  shareFP : Fingerprint
  unset : List Byte
  secretID : BitVec 32
  secretSize : BitVec 32
  shareSize : BitVec 32
  unset_size : unset.length = unsetSize

namespace MetaNode

def bytes (node : MetaNode) : List Byte :=
  node.shareFP.bytes ++ node.unset ++ wordBytes intSize node.secretID.toNat ++
    wordBytes intSize node.secretSize.toNat ++ wordBytes intSize node.shareSize.toNat

@[simp] theorem bytes_length (node : MetaNode) : node.bytes.length = metaNodeSize := by
  simp only [bytes, List.length_append, wordBytes_length, node.shareFP.size_eq,
    node.unset_size]
  rfl

theorem slice_bytes {buffer : Buffer Byte} {offset : Nat} {node : MetaNode}
    (holds : buffer.slice offset metaNodeSize = node.bytes) :
    buffer.slice offset fpSize = node.shareFP.bytes ∧
      buffer.slice (offset + nodeSecretIDAt) intSize =
        wordBytes intSize node.secretID.toNat ∧
      buffer.slice (offset + nodeSecretSizeAt) intSize =
        wordBytes intSize node.secretSize.toNat := by
  have parts : metaNodeSize = fpSize + unsetSize + intSize + intSize + intSize := rfl
  rw [parts, Buffer.slice_add, Buffer.slice_add, Buffer.slice_add, Buffer.slice_add,
    bytes] at holds
  rcases List.append_inj' holds (by simp) with ⟨holds, _⟩
  rcases List.append_inj' holds (by simp) with ⟨holds, secretSize⟩
  rcases List.append_inj' holds (by simp) with ⟨holds, secretID⟩
  rcases List.append_inj' holds (by simp [node.unset_size]) with ⟨shareFP, _⟩
  exact ⟨shareFP, secretID, secretSize⟩

end MetaNode

end MetaDedup.Wire
