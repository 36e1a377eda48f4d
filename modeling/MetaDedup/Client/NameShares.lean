import MetaDedup.Client.CDCodec.BufferSizes
import MetaDedup.Client.EncoderPipeline

/-! # The arrays for the shares of a file name

`Encoder::collect` and `Downloader::preDownloadFile` encode the path name into a local
array `tmp` of 32 bytes per byte of the name and copy each share into a field of an item:
`data` of the upload items, `filename` of `init_t`. Nothing compares the share size with
these sizes. -/

namespace MetaDedup.NameShares

open Foundation Encoder

def tmpSize (namesize : Nat) : Nat := namesize * 32

def filenameSize : Nat := 256

/-- The shares of a name fit the array they are written to and the fields they are copied
into. -/
structure SharesFit {gf : GaloisField} {crypto : CryptoPrimitive} (codec : CDCodec gf crypto)
    (memory : EncodeMemory codec) (name : List Byte) : Prop where
  array : codec.n * (encode codec memory name).1 ≤ tmpSize name.length
  data : (encode codec memory name).1 ≤ Uploader.ringBufferDataSize
  filename : (encode codec memory name).1 ≤ filenameSize

def FittingSize (namesize : Nat) : SecureType → Prop
  | .high => 4 ≤ namesize ∧ namesize ≤ 736
  | .low => 2 ≤ namesize ∧ namesize ≤ 752

variable {gf : GaloisField} {openssl : OpenSSL} {securetype : SecureType}

theorem default_systematic : (defaultCodec gf openssl securetype).type ≠ .crsss := by
  intro type
  cases type

/-- The share size after a call of the codec: what it deduces from the size of the name,
unless it rejects that size. -/
theorem encode_shareSize (memory : EncodeMemory (defaultCodec gf openssl securetype))
    (name : List Byte) :
    ((defaultCodec gf openssl securetype).EncoderAcceptsSize name.length →
      (encode (defaultCodec gf openssl securetype) memory name).1 =
        (defaultCodec gf openssl securetype).encoderShareSize name.length) ∧
    (¬(defaultCodec gf openssl securetype).EncoderAcceptsSize name.length →
      (encode (defaultCodec gf openssl securetype) memory name).1 = memory.shareSize) := by
  constructor
  · intro accepted
    rcases (defaultCodec gf openssl securetype).rsAlignedSecretSize_rows name.length with
      ⟨rows, filled, _⟩
    have encrypts : (defaultCodec gf openssl securetype).EncodesSize name.length := by
      rw [CDCodec.encodesSize_iff]
      exact ⟨accepted, fun _ => wholeBlocks_of_dvd
        ⟨_, (CDCodec.rsAlignedSecretSize_dvd filled).symm⟩⟩
    rcases (CDCodec.encoding_ok_iff memory.buffers memory.randomKey
      (memory.secretBuffer.write 0 name) memory.shareBuffer name.length).mpr encrypts with
      ⟨encoded, success⟩
    rw [encode, success]
    exact CDCodec.encoding_shareSize success
  · intro rejected
    rw [encode, CDCodec.encoding_rejects rejected]

theorem defaultShareSize_high (namesize : Nat) :
    (defaultCodec gf openssl .high).encoderShareSize namesize =
      32 * ((namesize + 127) / 96) :=
  CDCodec.encoderShareSize_rows default_systematic namesize

theorem defaultShareSize_low (namesize : Nat) :
    (defaultCodec gf openssl .low).encoderShareSize namesize =
      16 * ((namesize + 63) / 48) :=
  CDCodec.encoderShareSize_rows default_systematic namesize

theorem sharesFit_of_shareSize {memory : EncodeMemory (defaultCodec gf openssl securetype)}
    {name : List Byte} {shareSize : Nat}
    (size : (encode (defaultCodec gf openssl securetype) memory name).1 = shareSize) :
    SharesFit (defaultCodec gf openssl securetype) memory name ↔
      4 * shareSize ≤ name.length * 32 ∧ shareSize ≤ 256 := by
  constructor
  · rintro ⟨array, _, filename⟩
    rw [size] at array filename
    exact ⟨array, filename⟩
  · rintro ⟨array, filename⟩
    refine ⟨?_, ?_, ?_⟩
    · rw [size]
      exact array
    · rw [size]
      exact filename.trans (by decide)
    · rw [size]
      exact filename

/-- The shares of a name fit, whatever the memory held before, exactly for names of the
fitting sizes. -/
theorem sharesFit_iff (gf : GaloisField) (openssl : OpenSSL) (securetype : SecureType)
    (name : List Byte) :
    (∀ memory, SharesFit (defaultCodec gf openssl securetype) memory name) ↔
      FittingSize name.length securetype := by
  have accepts : name.length ≤ 752 →
      (defaultCodec gf openssl securetype).EncoderAcceptsSize name.length := by
    intro short
    exact CDCodec.encoderAcceptsSize_of_le (short.trans (by decide))
  constructor
  · intro fits
    -- a call that is rejected leaves a size in place that is too large
    have fit := fits { EncodeMemory.zero _ with shareSize := 257 }
    by_cases accepted :
        (defaultCodec gf openssl securetype).EncoderAcceptsSize name.length
    · rw [sharesFit_of_shareSize ((encode_shareSize _ name).1 accepted)] at fit
      cases securetype with
      | high =>
          rw [defaultShareSize_high] at fit
          unfold FittingSize
          omega
      | low =>
          rw [defaultShareSize_low] at fit
          unfold FittingSize
          omega
    · rw [sharesFit_of_shareSize ((encode_shareSize _ name).2 accepted)] at fit
      have bounded : 257 ≤ 256 := fit.2
      omega
  · intro fitting memory
    cases securetype with
    | high =>
        unfold FittingSize at fitting
        rw [sharesFit_of_shareSize ((encode_shareSize memory name).1 (accepts (by omega))),
          defaultShareSize_high]
        omega
    | low =>
        unfold FittingSize at fitting
        rw [sharesFit_of_shareSize ((encode_shareSize memory name).1 (accepts (by omega))),
          defaultShareSize_low]
        omega

/-! ## Uploads -/

/-- The shares of a name fit the arrays of an upload, whatever the memory held before. -/
def NameFits {gf : GaloisField} {crypto : CryptoPrimitive} (codec : CDCodec gf crypto)
    (name : List Byte) : Prop :=
  ∀ memory, codec.n * (encode codec memory name).1 ≤ tmpSize name.length ∧
    (encode codec memory name).1 ≤ Uploader.ringBufferDataSize

/-- The size of the shortest name whose shares fit, terminator included. -/
def shortestName : SecureType → Nat
  | .high => 4
  | .low => 2

theorem nameFits_default_iff {name : List Byte} (bounded : name.length ≤ secretSize) :
    NameFits (defaultCodec gf openssl securetype) name ↔
      shortestName securetype ≤ name.length := by
  have size (memory : EncodeMemory (defaultCodec gf openssl securetype)) :=
    (encode_shareSize memory name).1
      (CDCodec.encoderAcceptsSize_of_le (bounded.trans (by decide)))
  have clouds : (defaultCodec gf openssl securetype).n = 4 := rfl
  have exact_size : NameFits (defaultCodec gf openssl securetype) name ↔
      4 * (defaultCodec gf openssl securetype).encoderShareSize name.length ≤
          name.length * 32 ∧
        (defaultCodec gf openssl securetype).encoderShareSize name.length ≤ 16384 := by
    constructor
    · intro fits
      have fit := fits (.zero _)
      rwa [size, clouds] at fit
    · intro fits memory
      rwa [size, clouds]
  rw [secretSize] at bounded
  rw [exact_size]
  cases securetype with
  | high =>
      rw [defaultShareSize_high, shortestName]
      omega
  | low =>
      rw [defaultShareSize_low, shortestName]
      omega

/-- With the high setting the shares of the path `a` take 128 bytes of an array of 64, and
each share of a path of 740 characters takes 288 bytes of a field of 256. -/
theorem short_and_long_names_overflow :
    (4 * (encode (defaultCodec GaloisField.complete plainOpenSSL .high)
          (EncodeMemory.zero _) [97, 0]).1 = 128 ∧ tmpSize 2 = 64 ∧
      ¬SharesFit (defaultCodec GaloisField.complete plainOpenSSL .high)
        (EncodeMemory.zero _) [97, 0]) ∧
    (encode (defaultCodec GaloisField.complete plainOpenSSL .high)
        (EncodeMemory.zero _) (List.replicate 740 97 ++ [0])).1 = 288 ∧
      ¬SharesFit (defaultCodec GaloisField.complete plainOpenSSL .high)
        (EncodeMemory.zero _) (List.replicate 740 97 ++ [0]) := by
  have short : (encode (defaultCodec GaloisField.complete plainOpenSSL .high)
      (EncodeMemory.zero _) [97, 0]).1 = 32 := by
    rw [(encode_shareSize _ [97, 0]).1 (CDCodec.encoderAcceptsSize_of_le (by decide)),
      defaultShareSize_high]
    rfl
  have long : (encode (defaultCodec GaloisField.complete plainOpenSSL .high)
      (EncodeMemory.zero _) (List.replicate 740 97 ++ [0])).1 = 288 := by
    have length : (List.replicate 740 (97 : Byte) ++ [0]).length = 741 := by
      rw [List.length_append, List.length_replicate]
      rfl
    rw [(encode_shareSize _ _).1 (CDCodec.encoderAcceptsSize_of_le (by rw [length]; decide)),
      defaultShareSize_high, length]
  refine ⟨⟨by rw [short], rfl, ?_⟩, long, ?_⟩
  · rw [sharesFit_of_shareSize short]
    rintro ⟨array, _⟩
    exact absurd array (by decide)
  · rw [sharesFit_of_shareSize long]
    rintro ⟨_, filename⟩
    omega

end MetaDedup.NameShares
