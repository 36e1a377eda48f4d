import MetaDedup.Client.GaloisField
import MetaDedup.Foundation.Buffer

/-! # Hashing and encryption

A `CryptoPrimitive` object fixes a hash function and a cipher together with
their sizes. The functions themselves belong to OpenSSL and are parameters:
`digest` gives the bytes `EVP_DigestFinal_ex` writes, `cipher` and `decipher`
those of the CBC calls with padding disabled and the constant zero IV. -/

namespace MetaDedup

open Foundation

structure CryptoPrimitive where
  hashSize : Nat
  keySize : Int
  blockSize : Int
  digest : List Byte → Buffer Byte
  cipher : List Byte → List Byte → Buffer Byte
  decipher : List Byte → List Byte → Buffer Byte
  hashSize_pos : 0 < hashSize

namespace CryptoPrimitive

variable (crypto : CryptoPrimitive)

/-- Write the hash of the first `dataSize` bytes to `hash + offset`. -/
def generateHash (dataBuffer : Buffer Byte) (dataSize : Nat)
    (hash : Buffer Byte) (offset : Nat) : Buffer Byte :=
  hash.copy offset (crypto.digest (dataBuffer.slice 0 dataSize)) crypto.hashSize

/-- A size that is a whole number of encryption blocks, with the remainder of
C. -/
def WholeBlocks (dataSize : Nat) : Prop :=
  (dataSize : Int).tmod crypto.blockSize = 0

instance (dataSize : Nat) : Decidable (crypto.WholeBlocks dataSize) :=
  inferInstanceAs (Decidable (_ = _))

/-- Write the ciphertext to `ciphertext + offset`; `none` when the function
returns 0. -/
def encryptWithKey (dataBuffer : Buffer Byte) (dataSize : Nat)
    (key : Buffer Byte) (ciphertext : Buffer Byte) (offset : Nat) :
    Option (Buffer Byte) :=
  if crypto.WholeBlocks dataSize then
    some (ciphertext.copy offset
      (crypto.cipher (key.slice 0 crypto.keySize.toNat) (dataBuffer.slice 0 dataSize))
      dataSize)
  else none

/-- Write the plaintext to `dataBuffer + offset`; `none` when the function
returns 0. -/
def decryptWithKey (ciphertext : Buffer Byte) (dataSize : Nat)
    (key : Buffer Byte) (dataBuffer : Buffer Byte) (offset : Nat) :
    Option (Buffer Byte) :=
  if crypto.WholeBlocks dataSize then
    some (dataBuffer.copy offset
      (crypto.decipher (key.slice 0 crypto.keySize.toNat) (ciphertext.slice 0 dataSize))
      dataSize)
  else none

/-- A pair with the sizes of SHA-256 and AES-256: a polynomial checksum and an XOR
with the repeated key. -/
def checksumPair : CryptoPrimitive where
  hashSize := 32
  keySize := 32
  blockSize := 16
  digest := fun data position => BitVec.ofNat 8
    (data.foldl (fun total byte => (31 * total + byte.toNat + position) % 65521) 7)
  cipher := fun key data position =>
    data.getD position 0#8 ^^^ key.getD (position % 32) 0#8
  decipher := fun key data position =>
    data.getD position 0#8 ^^^ key.getD (position % 32) 0#8
  hashSize_pos := by decide

theorem checksumPair_sizes : (checksumPair.hashSize : Int) = checksumPair.keySize := rfl

end CryptoPrimitive

end MetaDedup
