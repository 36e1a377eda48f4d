import MetaDedup.Wire.ShareMetadata

/-! # The layout of share files

A restored file is sent as a sequence of messages. The first one begins with a
`shareFileHead_t`; shares follow, each a `shareEntry_t` and the data. In front of every
message there are an indicator and the size of the message, in network byte order. -/

namespace MetaDedup.Wire

open Foundation

def shareFileHeadSize : Nat := 16

def headNumOfSharesAt : Nat := 8

/-- The bytes of a head that are not set. -/
def headPaddingSize : Nat := 4

def shareEntrySize : Nat := 12

def entrySecretSizeAt : Nat := 4

def entryShareSizeAt : Nat := 8

/-- The size of the indicator and the size in front of a message. -/
def msgHeadSize : Nat := 8

/-- `SHARE_FILE_BUFFER_SIZE`. -/
def shareFileBufferSize : Nat := 4 <<< 20

/-- An integer in network byte order. -/
def htonl (value : BitVec 32) : List Byte := (wordBytes intSize value.toNat).reverse

def ntohl (bytes : List Byte) : BitVec 32 := BitVec.ofNat 32 (littleEndian bytes.reverse)

@[simp] theorem htonl_length (value : BitVec 32) : (htonl value).length = intSize := by
  rw [htonl, List.length_reverse, wordBytes_length]

theorem ntohl_htonl (value : BitVec 32) : ntohl (htonl value) = value := by
  rw [ntohl, htonl, List.reverse_reverse]
  exact Buffer.ofNat_littleEndian_wordBytes intSize value

/-- A message: the indicator -5, the size of the payload and the payload. -/
def frame (payload : List Byte) : List Byte :=
  htonl (-5) ++ htonl (BitVec.ofNat 32 payload.length) ++ payload

structure ShareItem where
  secretID : BitVec 32
  secretSize : BitVec 32
  shareSize : BitVec 32
  data : List Byte
  deriving DecidableEq

namespace ShareItem

def bytes (item : ShareItem) : List Byte :=
  wordBytes intSize item.secretID.toNat ++ wordBytes intSize item.secretSize.toNat ++
    wordBytes intSize item.shareSize.toNat ++ item.data

@[simp] theorem bytes_length (item : ShareItem) :
    item.bytes.length = shareEntrySize + item.data.length := by
  simp only [bytes, List.length_append, wordBytes_length]
  rfl

end ShareItem

structure ShareFileHead where
  fileSize : BitVec 64
  numOfShares : BitVec 32
  deriving DecidableEq

/-- The bytes of a head, with what is in the bytes that are not set. -/
def ShareFileHead.bytes (head : ShareFileHead) (padding : List Byte) : List Byte :=
  wordBytes longSize head.fileSize.toNat ++ wordBytes intSize head.numOfShares.toNat ++
    padding

theorem ShareFileHead.bytes_length (head : ShareFileHead) {padding : List Byte}
    (padded : padding.length = headPaddingSize) :
    (head.bytes padding).length = shareFileHeadSize := by
  rw [bytes, List.length_append, List.length_append, wordBytes_length, wordBytes_length,
    padded]
  rfl

/-- The word of 32 bits at an offset. -/
def readWord (buffer : Buffer Byte) (offset : Nat) : BitVec 32 :=
  BitVec.ofNat 32 (littleEndian (buffer.slice offset intSize))

variable {buffer : Buffer Byte}

theorem readWord_of_slice {offset : Nat} {word : BitVec 32}
    (holds : buffer.slice offset intSize = wordBytes intSize word.toNat) :
    readWord buffer offset = word := by
  rw [readWord, holds]
  exact Buffer.ofNat_littleEndian_wordBytes intSize word

theorem ShareItem.slice_bytes {offset : Nat} {item : ShareItem}
    (holds : buffer.slice offset item.bytes.length = item.bytes) :
    readWord buffer offset = item.secretID ∧
      readWord buffer (offset + entrySecretSizeAt) = item.secretSize ∧
      readWord buffer (offset + entryShareSizeAt) = item.shareSize ∧
      buffer.slice (offset + shareEntrySize) item.data.length = item.data := by
  have parts : item.bytes.length = intSize + intSize + intSize + item.data.length := by
    rw [bytes_length]
    rfl
  rw [parts, Buffer.slice_add, Buffer.slice_add, Buffer.slice_add, bytes] at holds
  rcases List.append_inj' holds (by simp) with ⟨holds, data⟩
  rcases List.append_inj' holds (by simp) with ⟨holds, shareSize⟩
  rcases List.append_inj' holds (by simp) with ⟨secretID, secretSize⟩
  exact ⟨readWord_of_slice secretID, readWord_of_slice secretSize,
    readWord_of_slice shareSize, data⟩

theorem ShareFileHead.slice_bytes {head : ShareFileHead}
    {padding : List Byte} (padded : padding.length = headPaddingSize)
    (holds : buffer.slice 0 shareFileHeadSize = head.bytes padding) :
    BitVec.ofNat 64 (littleEndian (buffer.slice 0 longSize)) = head.fileSize ∧
      readWord buffer headNumOfSharesAt = head.numOfShares := by
  have parts : shareFileHeadSize = longSize + intSize + headPaddingSize := rfl
  have place : 0 + longSize = headNumOfSharesAt := rfl
  rw [parts, Buffer.slice_add, Buffer.slice_add, bytes, place] at holds
  rcases List.append_inj' holds (by simp [padded]) with ⟨holds, _⟩
  rcases List.append_inj' holds (by simp) with ⟨fileSize, numOfShares⟩
  refine ⟨?_, readWord_of_slice numOfShares⟩
  rw [fileSize]
  exact Buffer.ofNat_littleEndian_wordBytes longSize head.fileSize

end MetaDedup.Wire
