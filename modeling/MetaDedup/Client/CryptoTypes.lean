import MetaDedup.Client.CryptoPrimitive

/-! # The types of `CryptoPrimitive`

The constructor of `CryptoPrimitive` chooses a hash function and a cipher of OpenSSL by
the type it is given. The client uses one of the two pair types, the server the hash
SHA-256 alone. -/

namespace MetaDedup

open Foundation

/-- The functions of OpenSSL the program calls. A digest gives the bytes of its hash
size, a cipher as many bytes as it is given. -/
structure OpenSSL where
  sha256 : List Byte → Buffer Byte
  md5 : List Byte → Buffer Byte
  sha1 : List Byte → Buffer Byte
  aes256Encrypt : List Byte → List Byte → Buffer Byte
  aes256Decrypt : List Byte → List Byte → Buffer Byte
  aes128Encrypt : List Byte → List Byte → Buffer Byte
  aes128Decrypt : List Byte → List Byte → Buffer Byte

inductive CryptoType
  | highSecPair
  | lowSecPair
  | sha256
  | sha1
  deriving DecidableEq

/-- The security settings of the client: `HIGH`, and anything else for low. -/
inductive SecureType
  | high
  | low
  deriving DecidableEq

def SecureType.cryptoType : SecureType → CryptoType
  | .high => .highSecPair
  | .low => .lowSecPair

namespace OpenSSL

private theorem sha256Size_pos : 0 < 32 := by decide

/-- The object the constructor builds. A hash type leaves the cipher unset. -/
def cryptoPrimitive (openssl : OpenSSL) : CryptoType → CryptoPrimitive
  | .highSecPair =>
      { hashSize := 32
        keySize := 32
        blockSize := 16
        digest := openssl.sha256
        cipher := openssl.aes256Encrypt
        decipher := openssl.aes256Decrypt
        hashSize_pos := sha256Size_pos }
  | .lowSecPair =>
      { hashSize := 16
        keySize := 16
        blockSize := 16
        digest := openssl.md5
        cipher := openssl.aes128Encrypt
        decipher := openssl.aes128Decrypt
        hashSize_pos := by decide }
  | .sha256 =>
      { hashSize := 32
        keySize := -1
        blockSize := -1
        digest := openssl.sha256
        cipher := fun _ _ _ => 0
        decipher := fun _ _ _ => 0
        hashSize_pos := sha256Size_pos }
  | .sha1 =>
      { hashSize := 20
        keySize := -1
        blockSize := -1
        digest := openssl.sha1
        cipher := fun _ _ _ => 0
        decipher := fun _ _ _ => 0
        hashSize_pos := by decide }

end OpenSSL

namespace CryptoPrimitive

def Inverts (crypto : CryptoPrimitive) : Prop :=
  ∀ key data, crypto.WholeBlocks data.length →
    (crypto.decipher key ((crypto.cipher key data).slice 0 data.length)).slice 0
      data.length = data

end CryptoPrimitive

end MetaDedup
