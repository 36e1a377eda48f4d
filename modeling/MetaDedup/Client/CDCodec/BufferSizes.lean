import MetaDedup.Client.CDCodec.Convergence

/-! # The sizes of the codec's buffers

The constructor sizes `alignedSecretBuffer_` and `erasureCodingData_` once, the encoders
and decoders compute the sizes of what they store there from the secret and the share.
Only one of the four encoders compares both results with the buffers; the bounds hold for
all of them. -/

namespace MetaDedup.CDCodec

open Foundation

variable {gf : GaloisField} {crypto : CryptoPrimitive} (codec : CDCodec gf crypto)

/-! ## What the encoders and decoders compute -/

def encoderAlignedSize (secretSize : Nat) : Nat :=
  match codec.type with
  | .crsss => codec.crsssAlignedSecretSize secretSize
  | .aontRS | .oldCaontRS | .caontRS => codec.rsAlignedSecretSize secretSize

def encoderShareSize (secretSize : Nat) : Nat :=
  let alignedSecretSize := codec.encoderAlignedSize secretSize
  match codec.type with
  | .crsss => codec.bytesPerSecretWord * (alignedSecretSize / codec.bytesPerGroup)
  | .aontRS | .oldCaontRS | .caontRS =>
      codec.bytesPerSecretWord *
        ((alignedSecretSize / codec.bytesPerSecretWord + 1) / codec.k)

/-- The size checks of the encoders. Only `crsssEncoding` makes the second one. -/
def EncoderAcceptsSize (secretSize : Nat) : Prop :=
  codec.encoderAlignedSize secretSize ≤ codec.alignedSecretBufferSize ∧
    (codec.type = .crsss →
      codec.encoderShareSize secretSize * codec.k ≤ codec.erasureCodingDataSize)

def encoderPackageSize (secretSize : Nat) : Nat :=
  match codec.type with
  | .crsss => codec.encoderShareSize secretSize * codec.k
  | .aontRS | .oldCaontRS | .caontRS =>
      codec.encoderAlignedSize secretSize + codec.bytesPerSecretWord

def decoderAlignedSize (shareSize : Int) : Int :=
  match codec.type with
  | .crsss => codec.bytesPerGroup * shareSize.tdiv codec.bytesPerSecretWord
  | .aontRS | .oldCaontRS | .caontRS => shareSize * codec.k - codec.bytesPerSecretWord

def DecoderAcceptsSizes (shareSize secretSize : Int) : Prop :=
  shareSize.tmod codec.bytesPerSecretWord = 0 ∧
    shareSize * codec.k ≤ codec.erasureCodingDataSize ∧
    codec.decoderAlignedSize shareSize ≤ codec.alignedSecretBufferSize ∧
    secretSize ≤ codec.decoderAlignedSize shareSize

def decoderPackageSize (shareSize : Int) : Int :=
  match codec.type with
  | .crsss => shareSize * codec.k
  | .aontRS | .oldCaontRS | .caontRS =>
      codec.decoderAlignedSize shareSize + codec.bytesPerSecretWord

variable {codec}

theorem encoderAlignedSize_crsss (crsss : codec.type = .crsss) (secretSize : Nat) :
    codec.encoderAlignedSize secretSize = codec.crsssAlignedSecretSize secretSize := by
  rw [encoderAlignedSize, crsss]

theorem encoderAlignedSize_systematic (systematic : codec.type ≠ .crsss) (secretSize : Nat) :
    codec.encoderAlignedSize secretSize = codec.rsAlignedSecretSize secretSize := by
  unfold encoderAlignedSize
  split
  · exact absurd (by assumption) systematic
  all_goals rfl

theorem encoderShareSize_crsss (crsss : codec.type = .crsss) (secretSize : Nat) :
    codec.encoderShareSize secretSize = codec.bytesPerSecretWord *
      (codec.crsssAlignedSecretSize secretSize / codec.bytesPerGroup) := by
  rw [encoderShareSize, crsss, encoderAlignedSize_crsss crsss]

theorem encoderShareSize_systematic (systematic : codec.type ≠ .crsss) (secretSize : Nat) :
    codec.encoderShareSize secretSize = codec.bytesPerSecretWord *
      ((codec.rsAlignedSecretSize secretSize / codec.bytesPerSecretWord + 1) / codec.k) := by
  rw [← encoderAlignedSize_systematic systematic]
  unfold encoderShareSize
  split
  · exact absurd (by assumption) systematic
  all_goals rfl

private theorem decoderAlignedSize_crsss (crsss : codec.type = .crsss) (shareSize : Int) :
    codec.decoderAlignedSize shareSize =
      codec.bytesPerGroup * shareSize.tdiv codec.bytesPerSecretWord := by
  rw [decoderAlignedSize, crsss]

theorem decoderAlignedSize_systematic (systematic : codec.type ≠ .crsss) (shareSize : Int) :
    codec.decoderAlignedSize shareSize = shareSize * codec.k - codec.bytesPerSecretWord := by
  unfold decoderAlignedSize
  split
  · exact absurd (by assumption) systematic
  all_goals rfl

/-! ## The checks in the code -/

variable {secretSize : Nat}

theorem encoderAcceptsSize_iff (secretSize : Nat) :
    codec.EncoderAcceptsSize secretSize ↔
      codec.encoderAlignedSize secretSize ≤ codec.alignedSecretBufferSize := by
  refine ⟨fun accepted => accepted.1, fun fits => ⟨fits, fun crsss => ?_⟩⟩
  rcases crsssAlignedSecretSize_groups crsss secretSize with ⟨groups, whole, _⟩
  rw [encoderAlignedSize_crsss crsss, whole] at fits
  rw [encoderShareSize_crsss crsss, whole,
    Nat.mul_div_cancel_left _ (bytesPerGroup_pos crsss)]
  exact crsss_fits_erasureCodingData crsss fits

theorem encodesSize_iff (secretSize : Nat) :
    codec.EncodesSize secretSize ↔ codec.EncoderAcceptsSize secretSize ∧
      (codec.type ≠ .crsss →
        codec.EncryptsWholeBlocks (codec.rsAlignedSecretSize secretSize)) := by
  rw [encoderAcceptsSize_iff, EncodesSize]
  by_cases crsss : codec.type = .crsss
  · rw [if_pos crsss, encoderAlignedSize_crsss crsss]
    exact ⟨fun fits => ⟨fits, fun systematic => absurd crsss systematic⟩, fun both => both.1⟩
  · rw [if_neg crsss, encoderAlignedSize_systematic crsss]
    exact ⟨fun both => ⟨both.1, fun _ => both.2⟩, fun both => ⟨both.1, both.2 crsss⟩⟩

theorem encoding_rejects
    (rejected : ¬codec.EncoderAcceptsSize secretSize) (buffers : codec.Buffers)
    (randomKey secretBuffer shareBuffer : Buffer Byte) :
    codec.encoding buffers randomKey secretBuffer secretSize shareBuffer =
      .error buffers := by
  rw [encoderAcceptsSize_iff, not_le] at rejected
  by_cases crsss : codec.type = .crsss
  · rw [encoderAlignedSize_crsss crsss] at rejected
    rw [encoding_crsss crsss]
    exact if_pos rejected
  · rw [encoderAlignedSize_systematic crsss] at rejected
    rw [encoding_systematic crsss]
    exact if_pos rejected

theorem encoding_shareSize {buffers : codec.Buffers}
    {randomKey secretBuffer shareBuffer : Buffer Byte} {encoded : codec.Encoded}
    (success : codec.encoding buffers randomKey secretBuffer secretSize shareBuffer =
      .ok encoded) : encoded.shareSize = codec.encoderShareSize secretSize := by
  by_cases crsss : codec.type = .crsss
  · rcases encoding_crsss_spec crsss success with ⟨_, size, _⟩
    rw [encoderShareSize_crsss crsss]
    exact size
  · rcases encoding_systematic_spec crsss success with ⟨_, _, size, _⟩
    rw [encoderShareSize_systematic crsss]
    exact size

private theorem decoderAcceptsSizes_iff (shareSize secretSize : Nat) :
    codec.DecoderAcceptsSizes shareSize secretSize ↔
      codec.AcceptsSizes shareSize secretSize := by
  unfold DecoderAcceptsSizes AcceptsSizes
  rw [Int.tmod_eq_emod_of_nonneg (Int.natCast_nonneg _)]
  by_cases crsss : codec.type = .crsss
  · rw [decoderAlignedSize_crsss crsss, Int.tdiv_eq_ediv_of_nonneg (Int.natCast_nonneg _),
      crsss]
    unfold CrsssAcceptsSizes
    norm_cast
  · rw [decoderAlignedSize_systematic crsss]
    split
    · exact absurd (by assumption) crsss
    all_goals
      unfold RSAcceptsSizes
      norm_cast

/-! ## The bounds -/

structure SizesFit (codec : CDCodec gf crypto)
    (secretSize alignedSecretSize packageSize shareSize : Int) : Prop where
  covers : secretSize ≤ alignedSecretSize
  fitsSecret : alignedSecretSize ≤ codec.alignedSecretBufferSize
  shares : packageSize = codec.k * shareSize
  fitsPackage : packageSize ≤ codec.erasureCodingDataSize

theorem encoderAcceptsSize_of_le (bounded : secretSize ≤ maxSecretSize) :
    codec.EncoderAcceptsSize secretSize := by
  rw [encoderAcceptsSize_iff]
  by_cases crsss : codec.type = .crsss
  · rw [encoderAlignedSize_crsss crsss]
    have divided := Nat.div_add_mod secretSize codec.bytesPerGroup
    have buffer : codec.alignedSecretBufferSize = maxSecretSize + codec.bytesPerGroup := by
      rw [alignedSecretBufferSize, crsss]
      rfl
    rw [buffer, crsssAlignedSecretSize]
    split
    · omega
    · rw [Nat.mul_add, Nat.mul_one]
      omega
  · rw [encoderAlignedSize_systematic crsss]
    exact rsAlignedSecretSize_fits crsss bounded

theorem encoderShareSize_rows (systematic : codec.type ≠ .crsss) (secretSize : Nat) :
    codec.encoderShareSize secretSize = codec.bytesPerSecretWord *
      ((secretSize + codec.bytesPerSecretWord + (codec.bytesPerSecretWord * codec.k - 1)) /
        (codec.bytesPerSecretWord * codec.k)) := by
  have positive := codec.word_mul_k_pos
  have padded := codec.rsAlignedSecretSize_lt secretSize
  rcases codec.rsAlignedSecretSize_rows secretSize with ⟨rows, filled, covers⟩
  have rounded : (secretSize + codec.bytesPerSecretWord +
      (codec.bytesPerSecretWord * codec.k - 1)) / (codec.bytesPerSecretWord * codec.k) =
      rows := by
    rw [Nat.div_eq_iff positive, Nat.mul_comm rows, ← filled]
    omega
  rw [encoderShareSize_systematic systematic, rsShareSize_of_rows filled, rounded]

private theorem encoderPackageSize_eq (secretSize : Nat) :
    codec.encoderPackageSize secretSize = codec.encoderShareSize secretSize * codec.k := by
  by_cases crsss : codec.type = .crsss
  · rw [encoderPackageSize, crsss]
  · rcases codec.rsAlignedSecretSize_rows secretSize with ⟨rows, filled, _⟩
    rw [encoderShareSize_systematic crsss, ← rsShareSize_mul_k filled,
      ← encoderAlignedSize_systematic crsss]
    unfold encoderPackageSize
    split
    · exact absurd (by assumption) crsss
    all_goals rfl

private theorem encoderAlignedSize_covers (codec : CDCodec gf crypto) (secretSize : Nat) :
    secretSize ≤ codec.encoderAlignedSize secretSize := by
  by_cases crsss : codec.type = .crsss
  · rcases crsssAlignedSecretSize_groups crsss secretSize with ⟨_, _, covers⟩
    rwa [encoderAlignedSize_crsss crsss]
  · rcases codec.rsAlignedSecretSize_rows secretSize with ⟨_, _, covers⟩
    rwa [encoderAlignedSize_systematic crsss]

theorem decoderAcceptsSizes_encoded (accepted : codec.EncoderAcceptsSize secretSize) :
    codec.DecoderAcceptsSizes (codec.encoderShareSize secretSize) secretSize := by
  rw [decoderAcceptsSizes_iff]
  by_cases crsss : codec.type = .crsss
  · rcases crsssAlignedSecretSize_groups crsss secretSize with ⟨groups, whole, covers⟩
    have fits := accepted.1
    have room := accepted.2 crsss
    rw [encoderAlignedSize_crsss crsss, whole] at fits
    have size : codec.encoderShareSize secretSize = codec.bytesPerSecretWord * groups := by
      rw [encoderShareSize_crsss crsss, whole,
        Nat.mul_div_cancel_left _ (bytesPerGroup_pos crsss)]
    rw [AcceptsSizes, crsss]
    rw [size] at room ⊢
    unfold CrsssAcceptsSizes
    rw [Nat.mul_mod_right, Nat.mul_div_cancel_left _ codec.bytesPerSecretWord_pos]
    exact ⟨rfl, room, fits, whole ▸ covers⟩
  · have fits := accepted.1
    rw [encoderAlignedSize_systematic crsss] at fits
    have sizes := rsAcceptsSizes_encoded crsss fits
    rw [encoderShareSize_systematic crsss]
    unfold AcceptsSizes
    split
    · exact absurd (by assumption) crsss
    all_goals exact sizes

private theorem encoder_sizesFit (accepted : codec.EncoderAcceptsSize secretSize) :
    codec.SizesFit secretSize (codec.encoderAlignedSize secretSize)
      (codec.encoderPackageSize secretSize) (codec.encoderShareSize secretSize) := by
  have room := (decoderAcceptsSizes_encoded accepted).2.1
  have package : (codec.encoderPackageSize secretSize : Int) =
      codec.k * codec.encoderShareSize secretSize := by
    rw [encoderPackageSize_eq, Nat.mul_comm, Int.natCast_mul]
  refine ⟨Int.ofNat_le.mpr (codec.encoderAlignedSize_covers secretSize),
    Int.ofNat_le.mpr accepted.1, package, ?_⟩
  rw [package, Int.mul_comm]
  exact room

private theorem decoder_sizesFit {shareSize : Int}
    (accepted : codec.DecoderAcceptsSizes shareSize secretSize) :
    codec.SizesFit secretSize (codec.decoderAlignedSize shareSize)
      (codec.decoderPackageSize shareSize) shareSize := by
  rcases accepted with ⟨_, room, fits, covered⟩
  have package : codec.decoderPackageSize shareSize = codec.k * shareSize := by
    rw [Int.mul_comm]
    by_cases crsss : codec.type = .crsss
    · rw [decoderPackageSize, crsss]
    · unfold decoderPackageSize
      rw [decoderAlignedSize_systematic crsss]
      split
      · rfl
      all_goals omega
  exact ⟨covered, fits, package, by rw [package, Int.mul_comm]; exact room⟩

/-- The buffers of a codec are large enough. A secret of admissible size is not rejected
for its size; in a call that passes the size checks, the aligned secret and the package fit
their buffers; the encoder's share size passes the decoder's checks. -/
theorem buffers_large_enough (codec : CDCodec gf crypto) (secretSize : Nat) :
    (secretSize ≤ maxSecretSize → codec.EncoderAcceptsSize secretSize) ∧
    (codec.EncoderAcceptsSize secretSize →
      codec.SizesFit secretSize (codec.encoderAlignedSize secretSize)
        (codec.encoderPackageSize secretSize) (codec.encoderShareSize secretSize) ∧
      codec.DecoderAcceptsSizes (codec.encoderShareSize secretSize) secretSize) ∧
    (∀ shareSize : Int, codec.DecoderAcceptsSizes shareSize secretSize →
      codec.SizesFit secretSize (codec.decoderAlignedSize shareSize)
        (codec.decoderPackageSize shareSize) shareSize) ∧
    ∀ (buffers : codec.Buffers) (randomKey secretBuffer shareBuffer : Buffer Byte),
      ((∃ encoded, codec.encoding buffers randomKey secretBuffer secretSize shareBuffer =
          .ok encoded) ↔
        codec.EncoderAcceptsSize secretSize ∧ (codec.type ≠ .crsss →
          codec.EncryptsWholeBlocks (codec.rsAlignedSecretSize secretSize))) ∧
      ∀ encoded, codec.encoding buffers randomKey secretBuffer secretSize shareBuffer =
        .ok encoded → encoded.shareSize = codec.encoderShareSize secretSize := by
  refine ⟨encoderAcceptsSize_of_le, ?_, fun _ => decoder_sizesFit, ?_⟩
  · intro accepted
    exact ⟨encoder_sizesFit accepted, decoderAcceptsSizes_encoded accepted⟩
  · intro buffers randomKey secretBuffer shareBuffer
    refine ⟨?_, fun _ => encoding_shareSize⟩
    rw [encoding_ok_iff, encodesSize_iff]

end MetaDedup.CDCodec
