import MetaDedup.Client.GaloisField
import MetaDedup.Foundation.Words

/-! # The layout of share metadata

`fileShareMDHead_t` and `shareMDEntry_t` are declared alike in the client and in the
server. A metadata package is a head, the full name of the file, and the entries of
shares. Fields are aligned to their size, so a head has bytes that belong to no field. -/

namespace MetaDedup.Wire

open Foundation

def intSize : Nat := 4

def longSize : Nat := 8

theorem readInt_of_slice_word {buffer : Buffer Byte} {offset : Nat} {word : BitVec 32}
    (holds : buffer.slice offset intSize = wordBytes intSize word.toNat) :
    buffer.readInt offset intSize = word.toInt :=
  Buffer.readInt_of_slice holds

theorem readInt_of_slice_long {buffer : Buffer Byte} {offset : Nat} {word : BitVec 64}
    (holds : buffer.slice offset longSize = wordBytes longSize word.toNat) :
    buffer.readInt offset longSize = word.toInt :=
  Buffer.readInt_of_slice holds

/-! ## `fileShareMDHead_t` -/

def fileShareMDHeadSize : Nat := 48

def fullNameSizeAt : Nat := 0

def fileSizeAt : Nat := 8

def numOfPastSecretsAt : Nat := 16

def sizeOfPastSecretsAt : Nat := 24

def numOfComingSecretsAt : Nat := 32

def sizeOfComingSecretsAt : Nat := 40

/-! ## `shareMDEntry_t` -/

def shareMDEntrySize : Nat := 44

def secretIDAt : Nat := 32

def secretSizeAt : Nat := 36

def shareSizeAt : Nat := 40

end MetaDedup.Wire
