import MetaDedup.Client.CDCodec.Crsss
import MetaDedup.Client.CDCodec.PackageDecoding

/-! # Encoding and decoding together

Any `k` shares of a secret decode to that secret. Conversely, a codec whose
shares depend on the secret alone decodes nothing but the shares of a secret. -/

namespace MetaDedup.CDCodec

open Foundation RegionArithmetic Function

variable {gf : GaloisField} {crypto : CryptoPrimitive} {codec : CDCodec gf crypto}

def AcceptsSizes (codec : CDCodec gf crypto) (shareSize secretSize : Nat) : Prop :=
  match codec.type with
  | .crsss => codec.CrsssAcceptsSizes shareSize secretSize
  | .aontRS | .oldCaontRS | .caontRS => codec.RSAcceptsSizes shareSize secretSize

def decodedSecretSize (codec : CDCodec gf crypto) (shareSize : Nat) : Nat :=
  match codec.type with
  | .crsss => codec.bytesPerGroup * (shareSize / codec.bytesPerSecretWord)
  | .aontRS | .oldCaontRS | .caontRS => shareSize * codec.k - codec.bytesPerSecretWord

/-- `received` holds the shares `kShareIDList` of `shareBuffer` in that order. -/
def LaidOut (codec : CDCodec gf crypto) (received shareBuffer : Buffer Byte)
    (shareSize : Nat) (kShareIDList : Fin codec.k → Nat) : Prop :=
  ∀ (j : Fin codec.k) (position : Nat), position < shareSize →
    received (shareSize * j.val + position) =
      shareBuffer (shareSize * kShareIDList j + position)

variable {received package : Buffer Byte} {kShareIDList : Fin codec.k → Nat}

theorem holdsShares_iff_laidOut {shareBuffer : Buffer Byte} {shareSize : Nat}
    (bounded : ∀ position, kShareIDList position < codec.n)
    (shares : ∀ id < codec.n, ∀ position < shareSize,
      shareBuffer (shareSize * id + position) = codec.share package shareSize id position) :
    codec.HoldsShares received package shareSize kShareIDList ↔
      codec.LaidOut received shareBuffer shareSize kShareIDList := by
  refine forall_congr' fun j => forall_congr' fun position => imp_congr_right fun inside => ?_
  rw [shares _ (bounded j) position inside]

/-! ## Round trip -/

section RoundTrip

variable {encoderBuffers decoderBuffers : codec.Buffers}
  {randomKey secretBuffer shareBuffer received output : Buffer Byte}
  {secretSize : Nat} {encoded : codec.Encoded} {kShareIDList : Fin codec.k → Nat}

section

variable (fits : codec.FitsField)
  (success : codec.encoding encoderBuffers randomKey secretBuffer secretSize shareBuffer =
    .ok encoded)
  (distinct : Injective kShareIDList) (bounded : ∀ position, kShareIDList position < codec.n)
  (laidOut : codec.LaidOut received encoded.shareBuffer encoded.shareSize kShareIDList)
include fits success distinct bounded laidOut

private theorem decoding_encoding_crsss (crsss : codec.type = .crsss) :
    ∃ decoded, codec.decoding decoderBuffers received kShareIDList encoded.shareSize
        secretSize output = .ok decoded ∧
      decoded.secretBuffer = output.copy 0 secretBuffer secretSize := by
  rcases encoding_crsss_spec crsss success with ⟨room, shareSize, package, packaged, shares⟩
  rcases crsssAlignedSecretSize_groups crsss secretSize with ⟨groups, whole, covers⟩
  have groupCount : codec.crsssAlignedSecretSize secretSize / codec.bytesPerGroup =
      groups := by
    rw [whole, Nat.mul_div_cancel_left _ (bytesPerGroup_pos crsss)]
  rw [groupCount] at shareSize
  have wordCount : encoded.shareSize / codec.bytesPerSecretWord = groups := by
    rw [shareSize, Nat.mul_div_cancel_left _ codec.bytesPerSecretWord_pos]
  have sizes : codec.CrsssAcceptsSizes encoded.shareSize secretSize := by
    unfold CrsssAcceptsSizes
    rw [wordCount, ← whole]
    refine ⟨?_, ?_, room, covers⟩
    · rw [shareSize, Nat.mul_mod_right]
    · rw [shareSize]
      exact crsss_fits_erasureCodingData crsss (whole ▸ room)
  rcases decoding_crsss_spec crsss fits distinct bounded sizes decoderBuffers received
    output with ⟨data, unique, accepts, result⟩
  have same := (unique package).mp ((holdsShares_iff_laidOut bounded shares).mpr laidOut)
  have matched := fun position inside =>
    (same position inside).trans (packaged position inside)
  rw [wordCount] at accepts
  rcases accepts.mpr fun i early => groupPasses_package crsss shareSize matched early with
    ⟨decoded, reached⟩
  refine ⟨decoded, reached, ?_⟩
  rw [result decoded reached]
  apply Buffer.copy_congr
  intro position inside
  have within : position < codec.crsssAlignedSecretSize secretSize :=
    lt_of_lt_of_le inside covers
  rw [crsssSecret_package crsss shareSize matched (whole ▸ within),
    loadSecret_apply _ _ covers within, if_pos inside]

theorem decoding_encoding_systematic (systematic : codec.type ≠ .crsss) :
    ∃ decoded, codec.decoding decoderBuffers received kShareIDList encoded.shareSize
        secretSize output = .ok decoded ∧
      decoded.secretBuffer = output.copy 0 secretBuffer secretSize := by
  rcases encoding_systematic_spec systematic success with
    ⟨room, blocks, shareSize, package, packaged, shares⟩
  rcases codec.rsAlignedSecretSize_rows secretSize with ⟨rows, filled, covers⟩
  have sizes := rsAcceptsSizes_encoded systematic room
  have whole := rsShareSize_mul_k filled
  rw [← shareSize] at sizes whole
  rcases decoding_systematic_spec systematic fits distinct bounded sizes decoderBuffers
    received output with ⟨data, unique, accepts, result⟩
  have aligned : encoded.shareSize * codec.k - codec.bytesPerSecretWord =
      codec.rsAlignedSecretSize secretSize := by omega
  rw [aligned] at accepts result
  have same := (unique package).mp ((holdsShares_iff_laidOut bounded shares).mpr laidOut)
  have matched := fun position inside =>
    (same position (by rw [← whole]; exact inside)).trans (packaged position inside)
  have passes : codec.type ≠ .aontRS →
      codec.PassesCheck (codec.rsAlignedSecretSize secretSize) data :=
    fun convergent => passesCheck_package matched fun _ => keyed_key convergent
  rcases accepts.mpr ⟨blocks, passes⟩ with ⟨decoded, reached⟩
  refine ⟨decoded, reached, ?_⟩
  rw [result decoded reached]
  apply Buffer.copy_congr
  intro position inside
  have within : position < codec.rsAlignedSecretSize secretSize :=
    lt_of_lt_of_le inside covers
  rw [secretOf_format matched within, keyed_secret within, if_pos inside]

end

/-- Any `k` distinct shares of a secret, in any order, decode to exactly that
secret. -/
theorem decoding_encoding (fits : codec.FitsField)
    (success : codec.encoding encoderBuffers randomKey secretBuffer secretSize
      shareBuffer = .ok encoded)
    (distinct : Injective kShareIDList)
    (bounded : ∀ position, kShareIDList position < codec.n)
    (laidOut : codec.LaidOut received encoded.shareBuffer encoded.shareSize
      kShareIDList) :
    ∃ decoded, codec.decoding decoderBuffers received kShareIDList encoded.shareSize
        secretSize output = .ok decoded ∧
      decoded.secretBuffer = output.copy 0 secretBuffer secretSize := by
  by_cases crsss : codec.type = .crsss
  · exact decoding_encoding_crsss fits success distinct bounded laidOut crsss
  · exact decoding_encoding_systematic fits success distinct bounded laidOut crsss

def defaultCodec : CDCodec GaloisField.complete CryptoPrimitive.checksumPair :=
  standard _ _ CryptoPrimitive.checksumPair_sizes

theorem defaultCodec.fitsField : defaultCodec.FitsField := show 4 ≤ 256 by decide

theorem decoding_encoding_default :
    ∃ encoded decoded,
      defaultCodec.encoding (.zero _) (fun _ => 0#8) (BitVec.ofNat 8) 5
        (fun _ => 0#8) = .ok encoded ∧
      defaultCodec.decoding (.zero _)
        (fun position => encoded.shareBuffer (encoded.shareSize *
          [3, 1, 0].getD (position / encoded.shareSize) 0 + position % encoded.shareSize))
        (fun j => [3, 1, 0].getD j.val 0) encoded.shareSize 5 (fun _ => 0#8) =
        .ok decoded ∧
      decoded.secretBuffer = Buffer.copy (fun _ => 0#8) 0 (BitVec.ofNat 8) 5 := by
  have encodes : ∃ encoded, defaultCodec.encoding (.zero _) (fun _ => 0#8)
      (BitVec.ofNat 8) 5 (fun _ => 0#8) = .ok encoded :=
    encoding_systematic_ok (by decide) (by decide)
      (show CryptoPrimitive.checksumPair.WholeBlocks 64 by decide)
  rcases encodes with ⟨encoded, success⟩
  have laidOut : defaultCodec.LaidOut
      (fun position => encoded.shareBuffer (encoded.shareSize *
        [3, 1, 0].getD (position / encoded.shareSize) 0 + position % encoded.shareSize))
      encoded.shareBuffer encoded.shareSize (fun j => [3, 1, 0].getD j.val 0) := by
    intro j position inside
    have positive : 0 < encoded.shareSize := Nat.zero_lt_of_lt inside
    simp only [Nat.mul_add_div positive, Nat.div_eq_of_lt inside, Nat.add_zero,
      Nat.mul_add_mod, Nat.mod_eq_of_lt inside]
  rcases decoding_encoding defaultCodec.fitsField success (by decide) (by decide)
    laidOut with ⟨decoded, reached, secret⟩
  exact ⟨encoded, decoded, success, reached, secret⟩

end RoundTrip

/-! ## Acceptance -/

/-- `received` holds the shares that encoding the aligned secret produces. -/
def ProducedFrom (codec : CDCodec gf crypto) (encoderBuffers : codec.Buffers)
    (randomKey shareBuffer secret received : Buffer Byte) (shareSize : Nat)
    (kShareIDList : Fin codec.k → Nat) : Prop :=
  ∃ encoded, codec.encoding encoderBuffers randomKey secret
      (codec.decodedSecretSize shareSize) shareBuffer = .ok encoded ∧
    encoded.shareSize = shareSize ∧
    codec.LaidOut received encoded.shareBuffer shareSize kShareIDList

section Acceptance

variable {encoderBuffers decoderBuffers : codec.Buffers}
  {randomKey shareBuffer received output : Buffer Byte}
  {shareSize secretSize : Nat} {kShareIDList : Fin codec.k → Nat}

variable {alignedSecretSize : Nat}

private theorem rsAlignedSecretSize_self {rows : Nat}
    (filled : alignedSecretSize + codec.bytesPerSecretWord =
      codec.bytesPerSecretWord * codec.k * rows) :
    codec.rsAlignedSecretSize alignedSecretSize = alignedSecretSize := by
  rw [rsAlignedSecretSize, filled, if_pos (Nat.mul_mod_right _ _)]

private theorem decodedSecretSize_systematic (systematic : codec.type ≠ .crsss) :
    codec.decodedSecretSize shareSize =
      shareSize * codec.k - codec.bytesPerSecretWord := by
  unfold decodedSecretSize
  split
  · exact absurd (by assumption) systematic
  all_goals rfl

private theorem acceptsSizes_systematic (systematic : codec.type ≠ .crsss)
    (sizes : codec.AcceptsSizes shareSize secretSize) :
    codec.RSAcceptsSizes shareSize secretSize := by
  unfold AcceptsSizes at sizes
  split at sizes
  · exact absurd (by assumption) systematic
  all_goals exact sizes

/-- `data` is the package a convergent systematic encoder builds from an aligned
secret. -/
def IsPackageOf (codec : CDCodec gf crypto) (alignedSecretSize : Nat)
    (data secret : Buffer Byte) : Prop :=
  ∃ key aligned,
    (∀ position < alignedSecretSize, aligned position = secret position) ∧
    (∀ position < codec.bytesPerSecretWord,
      key position = crypto.digest (aligned.slice 0 alignedSecretSize) position) ∧
    ∀ position < alignedSecretSize + codec.bytesPerSecretWord,
      data position = (codec.format alignedSecretSize).package key aligned position

variable {data : Buffer Byte}

theorem IsPackageOf.secretOf {secret : Buffer Byte}
    (isPackage : codec.IsPackageOf alignedSecretSize data secret)
    {position : Nat} (inside : position < alignedSecretSize) :
    (codec.format alignedSecretSize).secretOf data position = secret position := by
  rcases isPackage with ⟨key, aligned, sameSecret, _, packaged⟩
  rw [secretOf_format packaged inside, sameSecret position inside]

theorem passesCheck_iff_isPackageOf (alignedSecretSize : Nat) (data : Buffer Byte) :
    codec.PassesCheck alignedSecretSize data ↔
      ∃ secret, codec.IsPackageOf alignedSecretSize data secret := by
  constructor
  · intro passes
    refine ⟨(codec.format alignedSecretSize).secretOf data, _, _, fun _ _ => rfl,
      fun _ _ => rfl, ?_⟩
    intro position inside
    exact (package_of_passesCheck passes (fun _ _ => rfl) (fun _ _ => rfl) inside).symm
  · rintro ⟨secret, key, aligned, _, hashed, packaged⟩
    exact passesCheck_package packaged hashed

/-- Shares are produced from an aligned secret exactly when the package behind
them is built from it. -/
theorem producedFrom_iff_systematic (systematic : codec.type ≠ .crsss)
    (convergent : codec.type ≠ .aontRS)
    (bounded : ∀ position, kShareIDList position < codec.n)
    (sizes : codec.RSAcceptsSizes shareSize secretSize)
    (unique : ∀ package, codec.HoldsShares received package shareSize kShareIDList ↔
      ∀ position < shareSize * codec.k, data position = package position)
    (secret : Buffer Byte) :
    codec.ProducedFrom encoderBuffers randomKey shareBuffer secret received shareSize
        kShareIDList ↔
      codec.EncryptsWholeBlocks (shareSize * codec.k - codec.bytesPerSecretWord) ∧
        codec.IsPackageOf (shareSize * codec.k - codec.bytesPerSecretWord) data secret := by
  rcases rsAcceptsSizes_rows sizes with ⟨whole, rows, _⟩
  have filled := whole.trans rows
  have aligned := rsAlignedSecretSize_self filled
  unfold ProducedFrom
  rw [decodedSecretSize_systematic systematic]
  constructor
  · rintro ⟨encoded, success, sameSize, laidOut⟩
    rcases encoding_systematic_spec systematic success with
      ⟨_, blocks, _, package, packaged, shares⟩
    rw [sameSize] at shares
    rw [aligned] at blocks packaged
    have same := (unique package).mp ((holdsShares_iff_laidOut bounded shares).mpr laidOut)
    refine ⟨blocks, _, _, ?_, ?_, fun position inside =>
      (same position (by rwa [← whole])).trans (packaged position inside)⟩
    · intro position inside
      rw [keyed_secret (by rwa [aligned]), if_pos inside]
    · intro position inside
      rw [keyed_key convergent inside, aligned]
  · rintro ⟨blocks, isPackage⟩
    have room : codec.rsAlignedSecretSize
        (shareSize * codec.k - codec.bytesPerSecretWord) ≤
        codec.alignedSecretBufferSize := by
      have checked := sizes.2.2.1
      rw [← Int.natCast_mul] at checked
      omega
    have encodes : ∃ encoded, codec.encoding encoderBuffers randomKey secret
        (shareSize * codec.k - codec.bytesPerSecretWord) shareBuffer = .ok encoded :=
      encoding_systematic_ok systematic room (by rwa [aligned])
    rcases encodes with ⟨encoded, success⟩
    rcases encoding_systematic_spec systematic success with
      ⟨_, _, size, package, packaged, shares⟩
    rw [aligned] at size packaged
    have sameSize : encoded.shareSize = shareSize := by
      rw [size, rsShareSize_of_rows filled]
      exact Nat.mul_div_cancel' (Nat.dvd_of_mod_eq_zero sizes.1)
    rw [sameSize] at shares
    refine ⟨encoded, success, sameSize, (holdsShares_iff_laidOut bounded shares).mp ?_⟩
    apply (unique package).mpr
    intro position inside
    rw [packaged position (by rwa [whole])]
    symm
    apply package_of_passesCheck
    · exact (passesCheck_iff_isPackageOf _ _).mpr ⟨secret, isPackage⟩
    · intro position inside
      rw [keyed_secret (by rwa [aligned]), if_pos inside, isPackage.secretOf inside]
    · intro position inside
      rw [keyed_key convergent inside, aligned]
    · rwa [whole]

private theorem acceptsSizes_crsss (crsss : codec.type = .crsss)
    (sizes : codec.AcceptsSizes shareSize secretSize) :
    codec.CrsssAcceptsSizes shareSize secretSize := by
  unfold AcceptsSizes at sizes
  rwa [crsss] at sizes

private theorem decodedSecretSize_crsss (crsss : codec.type = .crsss) :
    codec.decodedSecretSize shareSize =
      codec.bytesPerGroup * (shareSize / codec.bytesPerSecretWord) := by
  unfold decodedSecretSize
  rw [crsss]

private theorem crsssAlignedSecretSize_self (codec : CDCodec gf crypto) (groups : Nat) :
    codec.crsssAlignedSecretSize (codec.bytesPerGroup * groups) =
      codec.bytesPerGroup * groups := by
  rw [crsssAlignedSecretSize, if_pos (Nat.mul_mod_right _ _)]

private theorem producedFrom_iff_crsss (crsss : codec.type = .crsss)
    (bounded : ∀ position, kShareIDList position < codec.n)
    (sizes : codec.CrsssAcceptsSizes shareSize secretSize)
    (unique : ∀ package, codec.HoldsShares received package shareSize kShareIDList ↔
      ∀ position < shareSize * codec.k, data position = package position)
    (secret : Buffer Byte) :
    codec.ProducedFrom encoderBuffers randomKey shareBuffer secret received shareSize
        kShareIDList ↔
      ∀ position < shareSize * codec.k,
        data position = codec.crsssPackage secret shareSize position := by
  have size : shareSize = codec.bytesPerSecretWord *
      (shareSize / codec.bytesPerSecretWord) :=
    (Nat.mul_div_cancel' (Nat.dvd_of_mod_eq_zero sizes.1)).symm
  have aligned := codec.crsssAlignedSecretSize_self (shareSize / codec.bytesPerSecretWord)
  have loaded : ∀ position < codec.bytesPerGroup * (shareSize / codec.bytesPerSecretWord),
      (encoderBuffers.loadSecret secret
        (codec.bytesPerGroup * (shareSize / codec.bytesPerSecretWord))
        (codec.bytesPerGroup *
          (shareSize / codec.bytesPerSecretWord))).alignedSecretBuffer position =
        secret position := by
    intro position inside
    rw [loadSecret_apply _ _ le_rfl inside, if_pos inside]
  have encodedSize : codec.bytesPerSecretWord * (codec.bytesPerGroup *
      (shareSize / codec.bytesPerSecretWord) / codec.bytesPerGroup) = shareSize := by
    rw [Nat.mul_div_cancel_left _ (bytesPerGroup_pos crsss), ← size]
  unfold ProducedFrom
  rw [decodedSecretSize_crsss crsss]
  constructor
  · rintro ⟨encoded, success, sameSize, laidOut⟩ position inside
    rcases encoding_crsss_spec crsss success with ⟨_, _, package, packaged, shares⟩
    rw [sameSize] at shares packaged
    rw [aligned] at packaged
    have same := (unique package).mp ((holdsShares_iff_laidOut bounded shares).mpr laidOut)
    rw [same position inside, packaged position inside]
    exact crsssPackage_congr size loaded inside
  · intro isPackage
    have encodes : ∃ encoded, codec.encoding encoderBuffers randomKey secret
        (codec.bytesPerGroup * (shareSize / codec.bytesPerSecretWord)) shareBuffer =
        .ok encoded := by
      rw [encoding_crsss crsss, aligned]
      exact ⟨_, if_neg (not_lt.mpr sizes.2.2.1)⟩
    rcases encodes with ⟨encoded, success⟩
    rcases encoding_crsss_spec crsss success with
      ⟨_, sameSize, package, packaged, shares⟩
    rw [aligned] at sameSize packaged
    rw [encodedSize] at sameSize
    rw [sameSize] at shares packaged
    refine ⟨encoded, success, sameSize, (holdsShares_iff_laidOut bounded shares).mp ?_⟩
    apply (unique package).mpr
    intro position inside
    rw [isPackage position inside, packaged position inside]
    exact (crsssPackage_congr size loaded inside).symm

theorem decoding_systematic_accepts (systematic : codec.type ≠ .crsss)
    (convergent : codec.type ≠ .aontRS) (fits : codec.FitsField)
    (distinct : Injective kShareIDList)
    (bounded : ∀ position, kShareIDList position < codec.n)
    (sizes : codec.RSAcceptsSizes shareSize secretSize) :
    (∃ decoded, codec.decoding decoderBuffers received kShareIDList shareSize secretSize
        output = .ok decoded) ↔
      ∃ secret, codec.ProducedFrom encoderBuffers randomKey shareBuffer secret received
        shareSize kShareIDList := by
  rcases decoding_systematic_spec systematic fits distinct bounded sizes decoderBuffers
    received output with ⟨data, unique, accepts, _⟩
  have produced : ∀ secret, codec.ProducedFrom encoderBuffers randomKey shareBuffer secret
      received shareSize kShareIDList ↔ _ :=
    producedFrom_iff_systematic systematic convergent bounded sizes unique
  refine accepts.trans ⟨?_, ?_⟩
  · rintro ⟨blocks, passes⟩
    rcases (passesCheck_iff_isPackageOf _ data).mp (passes convergent) with
      ⟨secret, isPackage⟩
    exact ⟨secret, (produced secret).mpr ⟨blocks, isPackage⟩⟩
  · rintro ⟨secret, produces⟩
    rcases (produced secret).mp produces with ⟨blocks, isPackage⟩
    exact ⟨blocks, fun _ => (passesCheck_iff_isPackageOf _ data).mpr ⟨secret, isPackage⟩⟩

/-- Outside AONT-RS, decoding accepts exactly the shares of the secrets and
returns the beginning of the secret they come from. -/
theorem decoding_accepts_iff (convergent : codec.type ≠ .aontRS)
    (fits : codec.FitsField) (distinct : Injective kShareIDList)
    (bounded : ∀ position, kShareIDList position < codec.n)
    (sizes : codec.AcceptsSizes shareSize secretSize) :
    ((∃ decoded, codec.decoding decoderBuffers received kShareIDList shareSize secretSize
        output = .ok decoded) ↔
      ∃ secret, codec.ProducedFrom encoderBuffers randomKey shareBuffer secret received
        shareSize kShareIDList) ∧
    ∀ decoded secret, codec.decoding decoderBuffers received kShareIDList shareSize
        secretSize output = .ok decoded →
      codec.ProducedFrom encoderBuffers randomKey shareBuffer secret received shareSize
        kShareIDList →
      decoded.secretBuffer = output.copy 0 secret secretSize := by
  by_cases crsss : codec.type = .crsss
  · have checked := acceptsSizes_crsss crsss sizes
    have size : shareSize = codec.bytesPerSecretWord *
        (shareSize / codec.bytesPerSecretWord) :=
      (Nat.mul_div_cancel' (Nat.dvd_of_mod_eq_zero checked.1)).symm
    rcases decoding_crsss_spec crsss fits distinct bounded checked decoderBuffers received
      output with ⟨data, unique, accepts, result⟩
    refine ⟨accepts.trans ⟨?_, ?_⟩, ?_⟩
    · intro passes
      refine ⟨codec.crsssSecret data shareSize,
        (producedFrom_iff_crsss crsss bounded checked unique _).mpr ?_⟩
      intro position inside
      exact (crsssPackage_of_passes crsss size passes (fun _ _ => rfl) inside).symm
    · rintro ⟨secret, produces⟩ i early
      have packaged := (producedFrom_iff_crsss crsss bounded checked unique _).mp produces
      exact groupPasses_package crsss size packaged early
    · intro decoded secret success produces
      have packaged := (producedFrom_iff_crsss crsss bounded checked unique _).mp produces
      rw [result decoded success]
      apply Buffer.copy_congr
      intro position inside
      exact crsssSecret_package crsss size packaged
        (lt_of_lt_of_le inside checked.2.2.2)
  · have checked := acceptsSizes_systematic crsss sizes
    rcases decoding_systematic_spec crsss fits distinct bounded checked decoderBuffers
      received output with ⟨data, unique, _, result⟩
    refine ⟨decoding_systematic_accepts crsss convergent fits distinct bounded checked, ?_⟩
    intro decoded secret success produces
    rcases (producedFrom_iff_systematic crsss convergent bounded checked unique
      secret).mp produces with ⟨_, isPackage⟩
    rw [result decoded success]
    apply Buffer.copy_congr
    intro position inside
    exact isPackage.secretOf (lt_of_lt_of_le inside (rsAcceptsSizes_rows checked).2.2)

theorem decoding_accepts_iff_default :
    defaultCodec.AcceptsSizes 32 5 ∧
      ((∃ decoded, defaultCodec.decoding (.zero _) (fun _ => 0#8)
          (fun j => [3, 1, 0].getD j.val 0) 32 5 (fun _ => 0#8) = .ok decoded) ↔
        ∃ secret, defaultCodec.ProducedFrom (.zero _) (fun _ => 0#8)
          (fun _ => 0#8) secret (fun _ => 0#8) 32 (fun j => [3, 1, 0].getD j.val 0)) :=
  have sizes : defaultCodec.AcceptsSizes 32 5 :=
    show defaultCodec.RSAcceptsSizes 32 5 by decide
  ⟨sizes, (decoding_accepts_iff (by decide) defaultCodec.fitsField (by decide)
    (by decide) sizes).1⟩

end Acceptance

end MetaDedup.CDCodec
