import MetaDedup.Client.CDCodec.SquareMatrixInverting
import MetaDedup.Client.CryptoPrimitive
import MetaDedup.Client.RegionArithmetic

/-! # The convergent dispersal codec

`CDCodec` turns a secret into `n` shares so that any `k = n - m` of them give
the secret back. This module translates the constructor, the four encoders and
the four decoders. All sizes are natural numbers; the memory behind a pointer is
a `Buffer`. -/

namespace MetaDedup

open Foundation RegionArithmetic

inductive CDType where
  | crsss
  | aontRS
  | oldCaontRS
  | caontRS
  deriving DecidableEq, Repr

def maxSecretSize : Nat := 64 <<< 10

/-- The parameters with which the constructor does not exit. -/
def CDCodec.Accepts (crypto : CryptoPrimitive) (type : CDType) (n m r : Int) : Prop :=
  0 < n ∧ (0 < m ∧ m < n) ∧ 1 < n - m ∧
    match type with
    | .crsss => 0 < r ∧ r < n - m
    | .aontRS | .oldCaontRS | .caontRS =>
        r = n - m - 1 ∧ (crypto.hashSize : Int) = crypto.keySize

instance (crypto : CryptoPrimitive) (type : CDType) (n m r : Int) :
    Decidable (CDCodec.Accepts crypto type n m r) := by
  unfold CDCodec.Accepts
  cases type <;> exact inferInstance

/-- A constructed codec. `gf` is its `gfObj_` and `crypto` its `cryptoObj_`. -/
structure CDCodec (gf : GaloisField) (crypto : CryptoPrimitive) where
  type : CDType
  n : Nat
  m : Nat
  r : Nat
  accepted : CDCodec.Accepts crypto type n m r

namespace CDCodec

variable {gf : GaloisField} {crypto : CryptoPrimitive}

private theorem accepts_standard (sizes : (crypto.hashSize : Int) = crypto.keySize) :
    Accepts crypto .caontRS (4 : Nat) (1 : Nat) (2 : Nat) :=
  ⟨by decide, by decide, by decide, by decide, sizes⟩

/-- The codec of the default configuration, four shares of which three suffice. -/
def standard (gf : GaloisField) (crypto : CryptoPrimitive)
    (sizes : (crypto.hashSize : Int) = crypto.keySize) : CDCodec gf crypto where
  type := .caontRS
  n := 4
  m := 1
  r := 2
  accepted := accepts_standard sizes

variable (codec : CDCodec gf crypto)

/-! ## The members the constructor computes -/

def k : Nat := codec.n - codec.m

def bytesPerSecretWord (_ : CDCodec gf crypto) : Nat := crypto.hashSize

def secretWordsPerGroup : Nat := codec.k - codec.r

def bytesPerGroup : Nat := codec.bytesPerSecretWord * codec.secretWordsPerGroup

def alignedSecretBufferSize : Nat :=
  match codec.type with
  | .crsss => maxSecretSize + codec.bytesPerSecretWord * codec.secretWordsPerGroup
  | .aontRS | .oldCaontRS | .caontRS =>
      maxSecretSize + codec.bytesPerSecretWord * codec.k

def erasureCodingDataSize : Nat :=
  match codec.type with
  | .crsss =>
      codec.bytesPerSecretWord * (codec.alignedSecretBufferSize /
        (codec.bytesPerSecretWord * codec.secretWordsPerGroup)) * codec.k
  | .aontRS | .oldCaontRS | .caontRS =>
      codec.bytesPerSecretWord *
        ((codec.alignedSecretBufferSize / codec.bytesPerSecretWord + 1) / codec.k) *
        codec.k

def alignedSizeConstant (_ : CDCodec gf crypto) : Buffer Byte :=
  fun i => BitVec.ofNat 8 (i &&& 0xff)

/-- `distributionMatrix_[k_ * i + j]`. -/
def distributionMatrix (i : Nat) (j : Fin codec.k) : gf.Element :=
  match codec.type with
  | .crsss => ⟨gf.divide 1#8 (BitVec.ofNat 8 (i ^^^ (codec.n + j.val)))⟩
  | .aontRS | .oldCaontRS | .caontRS =>
      if i < codec.k then if i = j.val then 1 else 0
      else ⟨gf.divide 1#8 (BitVec.ofNat 8 ((i - codec.k) ^^^ (codec.m + j.val)))⟩

/-- `wordForIndex_`: zeroed by the constructor, after which only its first four
bytes are written. -/
structure IndexWord where
  bytes : Buffer Byte
  rest_zero : ∀ position, 4 ≤ position → position < codec.bytesPerSecretWord →
    bytes position = 0#8

/-- The memory of the object that lives from one call to the next. The two
square matrices are not part of it: every decoder overwrites them before it
reads them. -/
structure Buffers where
  key : Buffer Byte
  hashInputBuffer : Buffer Byte
  rHashes : Buffer Byte
  alignedSecretBuffer : Buffer Byte
  wordForIndex : codec.IndexWord
  erasureCodingData : Buffer Byte

structure Encoded where
  buffers : codec.Buffers
  shareBuffer : Buffer Byte
  shareSize : Nat

structure Decoded where
  buffers : codec.Buffers
  secretBuffer : Buffer Byte

variable {codec}

def Buffers.loadSecret (buffers : codec.Buffers) (secretBuffer : Buffer Byte)
    (secretSize alignedSecretSize : Nat) : codec.Buffers :=
  let copied := buffers.alignedSecretBuffer.copy 0 secretBuffer secretSize
  { buffers with
    alignedSecretBuffer :=
      if alignedSecretSize ≠ secretSize then
        copied.copy secretSize (fun _ => 0#8) (alignedSecretSize - secretSize)
      else copied }

def IndexWord.store (word : codec.IndexWord) (i : Nat) : codec.IndexWord where
  bytes := word.bytes.copy 0 (fun byte => BitVec.ofNat 8 (i >>> (8 * byte))) 4
  rest_zero := by
    intro position late bounded
    rw [Buffer.copy_outside _ _ (by omega)]
    exact word.rest_zero position late bounded

variable (codec)

def IndexWord.zero : codec.IndexWord := ⟨fun _ => 0#8, fun _ _ _ => rfl⟩

def Buffers.zero : codec.Buffers where
  key := fun _ => 0#8
  hashInputBuffer := fun _ => 0#8
  rHashes := fun _ => 0#8
  alignedSecretBuffer := fun _ => 0#8
  wordForIndex := .zero codec
  erasureCodingData := fun _ => 0#8

/-! ## Encoding -/

/-- Hash the secret words of group `i` with the seed `j` into `rHashes_`. -/
def hashWithSeed (i : Nat) (buffers : codec.Buffers) (j : Nat) : codec.Buffers :=
  let copied := buffers.hashInputBuffer.copy 0
    (buffers.alignedSecretBuffer.advance (codec.bytesPerGroup * i)) codec.bytesPerGroup
  let hashInputBuffer := copied.copy codec.bytesPerGroup (fun _ => BitVec.ofNat 8 j) 1
  { buffers with
    hashInputBuffer := hashInputBuffer
    rHashes := crypto.generateHash hashInputBuffer (codec.bytesPerGroup + 1)
      buffers.rHashes (codec.bytesPerSecretWord * j) }

/-- Append the secret words and the hashes of group `i` to the data blocks. -/
def encodeGroup (shareSize : Nat) (buffers : codec.Buffers) (i : Nat) :
    codec.Buffers :=
  let hashed := (List.range codec.r).foldl (codec.hashWithSeed i) buffers
  let withWords := (List.range codec.secretWordsPerGroup).foldl
    (fun data j => data.copy (shareSize * j + codec.bytesPerSecretWord * i)
      (hashed.alignedSecretBuffer.advance
        (codec.bytesPerGroup * i + codec.bytesPerSecretWord * j))
      codec.bytesPerSecretWord)
    hashed.erasureCodingData
  let withHashes := (List.range codec.r).foldl
    (fun data j => data.copy
      (shareSize * (codec.secretWordsPerGroup + j) + codec.bytesPerSecretWord * i)
      (hashed.rHashes.advance (codec.bytesPerSecretWord * j))
      codec.bytesPerSecretWord)
    withWords
  { hashed with erasureCodingData := withHashes }

/-- An encoder returns its results, or the object's memory when it returns 0. -/
def crsssEncoding (buffers : codec.Buffers) (secretBuffer : Buffer Byte)
    (secretSize : Nat) (shareBuffer : Buffer Byte) :
    Except codec.Buffers codec.Encoded :=
  let alignedSecretSize :=
    if secretSize % codec.bytesPerGroup = 0 then secretSize
    else codec.bytesPerGroup * (secretSize / codec.bytesPerGroup + 1)
  if codec.alignedSecretBufferSize < alignedSecretSize then .error buffers
  else
    let numOfGroups := alignedSecretSize / codec.bytesPerGroup
    let shareSize := codec.bytesPerSecretWord * numOfGroups
    if codec.erasureCodingDataSize < shareSize * codec.k then .error buffers
    else
      let loaded := buffers.loadSecret secretBuffer secretSize alignedSecretSize
      let grouped := (List.range numOfGroups).foldl (codec.encodeGroup shareSize) loaded
      .ok {
        buffers := grouped
        shareBuffer := multiplyBlocks codec.distributionMatrix codec.n
          grouped.erasureCodingData shareSize shareBuffer 0
        shareSize := shareSize }

def rsAlignedSecretSize (secretSize : Nat) : Nat :=
  if (secretSize + codec.bytesPerSecretWord) %
      (codec.bytesPerSecretWord * codec.k) = 0 then secretSize
  else
    codec.bytesPerSecretWord * codec.k *
      ((secretSize + codec.bytesPerSecretWord) /
        (codec.bytesPerSecretWord * codec.k) + 1) - codec.bytesPerSecretWord

/-- The loop that encrypts the indices of `count` words into `destination` and
XORs the words of `source` into it. The memory it leaves behind when an
encryption fails is returned as the error. -/
def xorEncryptedIndices (key source : Buffer Byte) (count : Nat)
    (word : codec.IndexWord) (destination : Buffer Byte) :
    Except (codec.IndexWord × Buffer Byte) (codec.IndexWord × Buffer Byte) :=
  (List.range count).foldlM
    (fun state i =>
      let word := state.1.store i
      match crypto.encryptWithKey word.bytes codec.bytesPerSecretWord key state.2
          (codec.bytesPerSecretWord * i) with
      | none => .error (word, state.2)
      | some ciphertext =>
          .ok (word, multiplyRegion (source.advance (codec.bytesPerSecretWord * i))
            ciphertext (codec.bytesPerSecretWord * i) (1 : gf.Element)
            codec.bytesPerSecretWord true))
    (word, destination)

def xorEncryptedConstant (key source : Buffer Byte) (alignedSecretSize : Nat)
    (word : codec.IndexWord) (destination : Buffer Byte) :
    Except (codec.IndexWord × Buffer Byte) (codec.IndexWord × Buffer Byte) :=
  match crypto.encryptWithKey codec.alignedSizeConstant alignedSecretSize key
      destination 0 with
  | none => .error (word, destination)
  | some ciphertext =>
      .ok (word, multiplyRegion source ciphertext 0 (1 : gf.Element) alignedSecretSize true)

variable {codec} in
def Buffers.maskInto (buffers : codec.Buffers)
    (masked : Except (codec.IndexWord × Buffer Byte) (codec.IndexWord × Buffer Byte)) :
    Except codec.Buffers codec.Buffers :=
  match masked with
  | .ok (word, data) =>
      .ok { buffers with wordForIndex := word, erasureCodingData := data }
  | .error (word, data) =>
      .error { buffers with wordForIndex := word, erasureCodingData := data }

def maskWords (buffers : codec.Buffers) (numOfSecretWords : Nat) :
    Except codec.Buffers codec.Buffers :=
  buffers.maskInto (codec.xorEncryptedIndices buffers.key buffers.alignedSecretBuffer
    numOfSecretWords buffers.wordForIndex buffers.erasureCodingData)

def maskConstant (buffers : codec.Buffers) (alignedSecretSize : Nat) :
    Except codec.Buffers codec.Buffers :=
  buffers.maskInto (codec.xorEncryptedConstant buffers.key buffers.alignedSecretBuffer
    alignedSecretSize buffers.wordForIndex buffers.erasureCodingData)

def appendTail (buffers : codec.Buffers) (alignedSecretSize : Nat) : codec.Buffers :=
  let hashed := crypto.generateHash buffers.erasureCodingData alignedSecretSize
    buffers.erasureCodingData alignedSecretSize
  { buffers with
    erasureCodingData := multiplyRegion buffers.key hashed alignedSecretSize
      (1 : gf.Element) codec.bytesPerSecretWord true }

def systematicShares (buffers : codec.Buffers) (alignedSecretSize shareSize : Nat)
    (shareBuffer : Buffer Byte) : codec.Encoded :=
  let copied := shareBuffer.copy 0 buffers.erasureCodingData
    (alignedSecretSize + codec.bytesPerSecretWord)
  { buffers := buffers
    shareBuffer := multiplyBlocks (fun i => codec.distributionMatrix (codec.k + i))
      codec.m buffers.erasureCodingData shareSize copied (shareSize * codec.k)
    shareSize := shareSize }

/-- `randomKey` stands for the bytes drawn with `lrand48`. -/
def aontRSEncoding (buffers : codec.Buffers) (randomKey secretBuffer : Buffer Byte)
    (secretSize : Nat) (shareBuffer : Buffer Byte) :
    Except codec.Buffers codec.Encoded := do
  let alignedSecretSize := codec.rsAlignedSecretSize secretSize
  if codec.alignedSecretBufferSize < alignedSecretSize then throw buffers
  let numOfSecretWords := alignedSecretSize / codec.bytesPerSecretWord
  let shareSize := codec.bytesPerSecretWord * ((numOfSecretWords + 1) / codec.k)
  let loaded := buffers.loadSecret secretBuffer secretSize alignedSecretSize
  let keyed := { loaded with
    key := loaded.key.copy 0 randomKey codec.bytesPerSecretWord }
  let masked ← codec.maskWords keyed numOfSecretWords
  return codec.systematicShares (codec.appendTail masked alignedSecretSize)
    alignedSecretSize shareSize shareBuffer

def hashKey (buffers : codec.Buffers) (alignedSecretSize : Nat) : codec.Buffers :=
  { buffers with
    key := crypto.generateHash buffers.alignedSecretBuffer alignedSecretSize
      buffers.key 0 }

def caontRSOldEncoding (buffers : codec.Buffers) (secretBuffer : Buffer Byte)
    (secretSize : Nat) (shareBuffer : Buffer Byte) :
    Except codec.Buffers codec.Encoded := do
  let alignedSecretSize := codec.rsAlignedSecretSize secretSize
  if codec.alignedSecretBufferSize < alignedSecretSize then throw buffers
  let numOfSecretWords := alignedSecretSize / codec.bytesPerSecretWord
  let shareSize := codec.bytesPerSecretWord * ((numOfSecretWords + 1) / codec.k)
  let loaded := buffers.loadSecret secretBuffer secretSize alignedSecretSize
  let keyed := codec.hashKey loaded alignedSecretSize
  let masked ← codec.maskWords keyed numOfSecretWords
  return codec.systematicShares (codec.appendTail masked alignedSecretSize)
    alignedSecretSize shareSize shareBuffer

def caontRSEncoding (buffers : codec.Buffers) (secretBuffer : Buffer Byte)
    (secretSize : Nat) (shareBuffer : Buffer Byte) :
    Except codec.Buffers codec.Encoded := do
  let alignedSecretSize := codec.rsAlignedSecretSize secretSize
  if codec.alignedSecretBufferSize < alignedSecretSize then throw buffers
  let shareSize := codec.bytesPerSecretWord *
    ((alignedSecretSize / codec.bytesPerSecretWord + 1) / codec.k)
  let loaded := buffers.loadSecret secretBuffer secretSize alignedSecretSize
  let keyed := codec.hashKey loaded alignedSecretSize
  let masked ← codec.maskConstant keyed alignedSecretSize
  return codec.systematicShares (codec.appendTail masked alignedSecretSize)
    alignedSecretSize shareSize shareBuffer

def encoding (buffers : codec.Buffers) (randomKey secretBuffer : Buffer Byte)
    (secretSize : Nat) (shareBuffer : Buffer Byte) :
    Except codec.Buffers codec.Encoded :=
  match codec.type with
  | .crsss => codec.crsssEncoding buffers secretBuffer secretSize shareBuffer
  | .aontRS => codec.aontRSEncoding buffers randomKey secretBuffer secretSize shareBuffer
  | .oldCaontRS => codec.caontRSOldEncoding buffers secretBuffer secretSize shareBuffer
  | .caontRS => codec.caontRSEncoding buffers secretBuffer secretSize shareBuffer

/-! ## Decoding -/

def CrsssAcceptsSizes (shareSize secretSize : Nat) : Prop :=
  let alignedSecretSize := codec.bytesPerGroup * (shareSize / codec.bytesPerSecretWord)
  shareSize % codec.bytesPerSecretWord = 0 ∧
    shareSize * codec.k ≤ codec.erasureCodingDataSize ∧
    alignedSecretSize ≤ codec.alignedSecretBufferSize ∧
    secretSize ≤ alignedSecretSize

/-- The size checks of the three other decoders. The aligned size is a signed
number: it is negative for an empty share. -/
def RSAcceptsSizes (shareSize secretSize : Nat) : Prop :=
  let alignedSecretSize : Int := shareSize * codec.k - codec.bytesPerSecretWord
  shareSize % codec.bytesPerSecretWord = 0 ∧
    shareSize * codec.k ≤ codec.erasureCodingDataSize ∧
    alignedSecretSize ≤ codec.alignedSecretBufferSize ∧
    (secretSize : Int) ≤ alignedSecretSize

instance (shareSize secretSize : Nat) :
    Decidable (codec.CrsssAcceptsSizes shareSize secretSize) :=
  inferInstanceAs (Decidable (_ ∧ _))

instance (shareSize secretSize : Nat) :
    Decidable (codec.RSAcceptsSizes shareSize secretSize) :=
  inferInstanceAs (Decidable (_ ∧ _))

def shareRows (kShareIDList : Fin codec.k → Nat) : SquareMatrix gf codec.k :=
  Matrix.of fun i => codec.distributionMatrix (kShareIDList i)

/-- Multiply the `k` shares with the inverse of their rows. -/
def recoverBlocks (buffers : codec.Buffers) (shareBuffer : Buffer Byte)
    (kShareIDList : Fin codec.k → Nat) (shareSize : Nat) :
    Except codec.Buffers codec.Buffers :=
  match squareMatrixInverting (codec.shareRows kShareIDList) with
  | none => .error buffers
  | some matrices =>
      .ok { buffers with
        erasureCodingData := multiplyBlocks
          (fun i j => if bounded : i < codec.k then matrices.inverseMatrix ⟨i, bounded⟩ j
            else 0)
          codec.k shareBuffer shareSize buffers.erasureCodingData 0 }

def restoreGroup (shareSize : Nat) (buffers : codec.Buffers) (i : Nat) : codec.Buffers :=
  { buffers with
    alignedSecretBuffer := (List.range codec.secretWordsPerGroup).foldl
      (fun secret j => secret.copy
        (codec.bytesPerGroup * i + codec.bytesPerSecretWord * j)
        (buffers.erasureCodingData.advance
          (shareSize * j + codec.bytesPerSecretWord * i))
        codec.bytesPerSecretWord)
      buffers.alignedSecretBuffer }

def checkHash (shareSize i : Nat) (buffers : codec.Buffers) (j : Nat) :
    Except codec.Buffers codec.Buffers :=
  let hashed := codec.hashWithSeed i buffers j
  if hashed.erasureCodingData.slice
      (shareSize * (codec.secretWordsPerGroup + j) + codec.bytesPerSecretWord * i)
      codec.bytesPerSecretWord ≠
      hashed.rHashes.slice (codec.bytesPerSecretWord * j) codec.bytesPerSecretWord
  then .error hashed
  else .ok hashed

def decodeGroup (shareSize : Nat) (buffers : codec.Buffers) (i : Nat) :
    Except codec.Buffers codec.Buffers :=
  (List.range codec.r).foldlM (codec.checkHash shareSize i)
    (codec.restoreGroup shareSize buffers i)

def crsssDecoding (buffers : codec.Buffers) (shareBuffer : Buffer Byte)
    (kShareIDList : Fin codec.k → Nat) (shareSize secretSize : Nat)
    (secretBuffer : Buffer Byte) : Except codec.Buffers codec.Decoded := do
  if ¬ codec.CrsssAcceptsSizes shareSize secretSize then throw buffers
  let numOfGroups := shareSize / codec.bytesPerSecretWord
  let recovered ← codec.recoverBlocks buffers shareBuffer kShareIDList shareSize
  let restored ← (List.range numOfGroups).foldlM (codec.decodeGroup shareSize) recovered
  return {
    buffers := restored
    secretBuffer := secretBuffer.copy 0 restored.alignedSecretBuffer secretSize }

/-- The key of a package: the hash of its main part, XORed with its tail. -/
def recoverKey (buffers : codec.Buffers) (alignedSecretSize : Nat) : codec.Buffers :=
  let hashed := crypto.generateHash buffers.erasureCodingData alignedSecretSize
    buffers.key 0
  { buffers with
    key := multiplyRegion (buffers.erasureCodingData.advance alignedSecretSize) hashed 0
      (1 : gf.Element) codec.bytesPerSecretWord true }

variable {codec} in
def Buffers.unmaskInto (buffers : codec.Buffers)
    (unmasked : Except (codec.IndexWord × Buffer Byte) (codec.IndexWord × Buffer Byte)) :
    Except codec.Buffers codec.Buffers :=
  match unmasked with
  | .ok (word, secret) =>
      .ok { buffers with wordForIndex := word, alignedSecretBuffer := secret }
  | .error (word, secret) =>
      .error { buffers with wordForIndex := word, alignedSecretBuffer := secret }

def unmaskWords (buffers : codec.Buffers) (numOfSecretWords : Nat) :
    Except codec.Buffers codec.Buffers :=
  buffers.unmaskInto (codec.xorEncryptedIndices buffers.key buffers.erasureCodingData
    numOfSecretWords buffers.wordForIndex buffers.alignedSecretBuffer)

def unmaskConstant (buffers : codec.Buffers) (alignedSecretSize : Nat) :
    Except codec.Buffers codec.Buffers :=
  buffers.unmaskInto (codec.xorEncryptedConstant buffers.key buffers.erasureCodingData
    alignedSecretSize buffers.wordForIndex buffers.alignedSecretBuffer)

def checkSecret (buffers : codec.Buffers) (alignedSecretSize : Nat) :
    Except codec.Buffers codec.Buffers :=
  let hashed := { buffers with
    erasureCodingData := crypto.generateHash buffers.alignedSecretBuffer
      alignedSecretSize buffers.erasureCodingData 0 }
  if hashed.erasureCodingData.slice 0 codec.bytesPerSecretWord ≠
      hashed.key.slice 0 codec.bytesPerSecretWord then .error hashed
  else .ok hashed

def aontRSDecoding (buffers : codec.Buffers) (shareBuffer : Buffer Byte)
    (kShareIDList : Fin codec.k → Nat) (shareSize secretSize : Nat)
    (secretBuffer : Buffer Byte) : Except codec.Buffers codec.Decoded := do
  if ¬ codec.RSAcceptsSizes shareSize secretSize then throw buffers
  let alignedSecretSize := shareSize * codec.k - codec.bytesPerSecretWord
  let numOfSecretWords := alignedSecretSize / codec.bytesPerSecretWord
  let recovered ← codec.recoverBlocks buffers shareBuffer kShareIDList shareSize
  let unmasked ← codec.unmaskWords (codec.recoverKey recovered alignedSecretSize)
    numOfSecretWords
  return {
    buffers := unmasked
    secretBuffer := secretBuffer.copy 0 unmasked.alignedSecretBuffer secretSize }

def caontRSOldDecoding (buffers : codec.Buffers) (shareBuffer : Buffer Byte)
    (kShareIDList : Fin codec.k → Nat) (shareSize secretSize : Nat)
    (secretBuffer : Buffer Byte) : Except codec.Buffers codec.Decoded := do
  if ¬ codec.RSAcceptsSizes shareSize secretSize then throw buffers
  let alignedSecretSize := shareSize * codec.k - codec.bytesPerSecretWord
  let numOfSecretWords := alignedSecretSize / codec.bytesPerSecretWord
  let recovered ← codec.recoverBlocks buffers shareBuffer kShareIDList shareSize
  let unmasked ← codec.unmaskWords (codec.recoverKey recovered alignedSecretSize)
    numOfSecretWords
  let checked ← codec.checkSecret unmasked alignedSecretSize
  return {
    buffers := checked
    secretBuffer := secretBuffer.copy 0 checked.alignedSecretBuffer secretSize }

def caontRSDecoding (buffers : codec.Buffers) (shareBuffer : Buffer Byte)
    (kShareIDList : Fin codec.k → Nat) (shareSize secretSize : Nat)
    (secretBuffer : Buffer Byte) : Except codec.Buffers codec.Decoded := do
  if ¬ codec.RSAcceptsSizes shareSize secretSize then throw buffers
  let alignedSecretSize := shareSize * codec.k - codec.bytesPerSecretWord
  let recovered ← codec.recoverBlocks buffers shareBuffer kShareIDList shareSize
  let unmasked ← codec.unmaskConstant (codec.recoverKey recovered alignedSecretSize)
    alignedSecretSize
  let checked ← codec.checkSecret unmasked alignedSecretSize
  return {
    buffers := checked
    secretBuffer := secretBuffer.copy 0 checked.alignedSecretBuffer secretSize }

def decoding (buffers : codec.Buffers) (shareBuffer : Buffer Byte)
    (kShareIDList : Fin codec.k → Nat) (shareSize secretSize : Nat)
    (secretBuffer : Buffer Byte) : Except codec.Buffers codec.Decoded :=
  match codec.type with
  | .crsss =>
      codec.crsssDecoding buffers shareBuffer kShareIDList shareSize secretSize secretBuffer
  | .aontRS =>
      codec.aontRSDecoding buffers shareBuffer kShareIDList shareSize secretSize secretBuffer
  | .oldCaontRS =>
      codec.caontRSOldDecoding buffers shareBuffer kShareIDList shareSize secretSize
        secretBuffer
  | .caontRS =>
      codec.caontRSDecoding buffers shareBuffer kShareIDList shareSize secretSize secretBuffer

end CDCodec

end MetaDedup
