import MetaDedup.Client.CDCodec.Packages

/-! # Decoding of the systematic codecs

A decoder recovers the blocks of the package, derives the key and the aligned
secret from them, and, unless it is AONT-RS, compares the key with the hash of
that secret. -/

namespace MetaDedup.CDCodec

open Foundation RegionArithmetic

variable {gf : GaloisField} {crypto : CryptoPrimitive} {codec : CDCodec gf crypto}

/-- The integrity check of the decoder of this type; AONT-RS has none. -/
def verifySecret (codec : CDCodec gf crypto) (buffers : codec.Buffers)
    (alignedSecretSize : Nat) : Except codec.Buffers codec.Buffers :=
  match codec.type with
  | .aontRS => .ok buffers
  | .crsss | .oldCaontRS | .caontRS => codec.checkSecret buffers alignedSecretSize

theorem decoding_systematic (systematic : codec.type ≠ .crsss) (buffers : codec.Buffers)
    (shareBuffer : Buffer Byte) (kShareIDList : Fin codec.k → Nat)
    (shareSize secretSize : Nat) (secretBuffer : Buffer Byte) :
    codec.decoding buffers shareBuffer kShareIDList shareSize secretSize secretBuffer =
      let alignedSecretSize := shareSize * codec.k - codec.bytesPerSecretWord
      if codec.RSAcceptsSizes shareSize secretSize then
        (codec.recoverBlocks buffers shareBuffer kShareIDList shareSize).bind
          fun recovered =>
        let keyed := codec.recoverKey recovered alignedSecretSize
        (keyed.unmaskInto (codec.xorMask keyed.key keyed.erasureCodingData
          alignedSecretSize keyed.wordForIndex keyed.alignedSecretBuffer)).bind
          fun unmasked =>
        (codec.verifySecret unmasked alignedSecretSize).bind fun verified =>
        .ok {
          buffers := verified
          secretBuffer := secretBuffer.copy 0 verified.alignedSecretBuffer secretSize }
      else .error buffers := by
  cases type : codec.type with
  | crsss => exact absurd type systematic
  | aontRS =>
      simp only [decoding, type, aontRSDecoding, unmaskWords, verifySecret, xorMask]
      by_cases sizes : codec.RSAcceptsSizes shareSize secretSize <;> simp only [sizes] <;> rfl
  | oldCaontRS =>
      simp only [decoding, type, caontRSOldDecoding, unmaskWords, verifySecret, xorMask]
      by_cases sizes : codec.RSAcceptsSizes shareSize secretSize <;> simp only [sizes] <;> rfl
  | caontRS =>
      simp only [decoding, type, caontRSDecoding, unmaskConstant, verifySecret, xorMask]
      by_cases sizes : codec.RSAcceptsSizes shareSize secretSize <;> simp only [sizes] <;> rfl

theorem recoverKey_apply (buffers : codec.Buffers) (alignedSecretSize : Nat)
    {position : Nat} (inside : position < codec.bytesPerSecretWord) :
    (codec.recoverKey buffers alignedSecretSize).key position =
      (codec.format alignedSecretSize).keyOf buffers.erasureCodingData position := by
  have stored : 0 ≤ position ∧ position < 0 + codec.bytesPerSecretWord := by omega
  simp only [recoverKey, CryptoPrimitive.generateHash]
  rw [multiplyRegion_one, if_pos stored, Buffer.copy_apply]
  exact congrArg₂ (· ^^^ ·) (if_pos stored) rfl

/-- The key stored by a package is the hash of the secret it masks. -/
def PassesCheck (codec : CDCodec gf crypto) (alignedSecretSize : Nat)
    (data : Buffer Byte) : Prop :=
  ∀ position < codec.bytesPerSecretWord,
    crypto.digest (((codec.format alignedSecretSize).secretOf data).slice 0
      alignedSecretSize) position = (codec.format alignedSecretSize).keyOf data position

section Packages

variable {alignedSecretSize : Nat} {data key secret : Buffer Byte}

variable {position : Nat}

section

variable (packaged : ∀ position < alignedSecretSize + codec.bytesPerSecretWord,
  data position = (codec.format alignedSecretSize).package key secret position)
include packaged

private theorem keyOf_format (inside : position < codec.bytesPerSecretWord) :
    (codec.format alignedSecretSize).keyOf data position = key position :=
  AllOrNothing.keyOf_package packaged inside

theorem secretOf_format (inside : position < alignedSecretSize) :
    (codec.format alignedSecretSize).secretOf data position = secret position :=
  AllOrNothing.secretOf_package packaged inside

theorem passesCheck_package
    (hashed : ∀ position < codec.bytesPerSecretWord,
      key position = crypto.digest (secret.slice 0 alignedSecretSize) position) :
    codec.PassesCheck alignedSecretSize data := by
  have sameSecret : ((codec.format alignedSecretSize).secretOf data).slice 0
      alignedSecretSize = secret.slice 0 alignedSecretSize :=
    Buffer.slice_zero_congr fun _ => secretOf_format packaged
  intro position inside
  rw [sameSecret, keyOf_format packaged inside, hashed position inside]

end

/-- Data that passes the check is the package of its secret under the hash of
that secret. -/
theorem package_of_passesCheck (passes : codec.PassesCheck alignedSecretSize data)
    (sameSecret : ∀ position < alignedSecretSize,
      secret position = (codec.format alignedSecretSize).secretOf data position)
    (hashed : ∀ position < codec.bytesPerSecretWord,
      key position = crypto.digest (secret.slice 0 alignedSecretSize) position)
    (inside : position < alignedSecretSize + codec.bytesPerSecretWord) :
    (codec.format alignedSecretSize).package key secret position = data position := by
  refine AllOrNothing.package_of_parts ?_ sameSecret inside
  intro position inside
  rw [hashed position inside, Buffer.slice_zero_congr sameSecret]
  exact passes position inside

end Packages

private theorem checkSecret_iff (buffers : codec.Buffers) (alignedSecretSize : Nat) :
    (∃ checked, codec.checkSecret buffers alignedSecretSize = .ok checked) ↔
      ∀ position < codec.bytesPerSecretWord,
        crypto.digest (buffers.alignedSecretBuffer.slice 0 alignedSecretSize) position =
          buffers.key position := by
  unfold checkSecret
  simp only [CryptoPrimitive.generateHash, ne_eq, ite_not, Buffer.slice_eq_slice_iff,
    Nat.zero_add]
  have hashed : ∀ position < codec.bytesPerSecretWord,
      buffers.erasureCodingData.copy 0
        (crypto.digest (buffers.alignedSecretBuffer.slice 0 alignedSecretSize))
        crypto.hashSize position =
      crypto.digest (buffers.alignedSecretBuffer.slice 0 alignedSecretSize) position := by
    intro position inside
    rw [Buffer.copy_apply, if_pos ⟨Nat.zero_le _, by rwa [Nat.zero_add]⟩, Nat.sub_zero]
  constructor
  · rintro ⟨checked, accepted⟩
    split at accepted
    · rename_i equal
      intro position inside
      rw [← hashed position inside, equal position inside]
    · exact absurd accepted (by simp)
  · intro equal
    refine ⟨_, if_pos fun position inside => ?_⟩
    rw [hashed position inside, equal position inside]

variable {buffers : codec.Buffers} {alignedSecretSize : Nat}

private theorem checkSecret_secret {checked : codec.Buffers}
    (accepted : codec.checkSecret buffers alignedSecretSize = .ok checked) :
    checked.alignedSecretBuffer = buffers.alignedSecretBuffer := by
  simp only [checkSecret] at accepted
  split at accepted
  · exact absurd accepted (by simp)
  · rw [← Except.ok.inj accepted]

private theorem verifySecret_iff (buffers : codec.Buffers) (alignedSecretSize : Nat) :
    (∃ verified, codec.verifySecret buffers alignedSecretSize = .ok verified) ↔
      (codec.type ≠ .aontRS → ∀ position < codec.bytesPerSecretWord,
        crypto.digest (buffers.alignedSecretBuffer.slice 0 alignedSecretSize) position =
          buffers.key position) := by
  unfold verifySecret
  split
  · rename_i unchecked
    exact ⟨fun _ convergent => absurd unchecked convergent, fun _ => ⟨buffers, rfl⟩⟩
  all_goals
    rename_i type
    rw [checkSecret_iff]
    simp only [type, ne_eq, reduceCtorEq, not_false_eq_true, forall_const]

private theorem verifySecret_secret {verified : codec.Buffers}
    (accepted : codec.verifySecret buffers alignedSecretSize = .ok verified) :
    verified.alignedSecretBuffer = buffers.alignedSecretBuffer := by
  unfold verifySecret at accepted
  split at accepted
  · rw [Except.ok.inj accepted]
  all_goals exact checkSecret_secret accepted

variable {shareSize secretSize : Nat}

theorem rsAcceptsSizes_rows (sizes : codec.RSAcceptsSizes shareSize secretSize) :
    shareSize * codec.k - codec.bytesPerSecretWord + codec.bytesPerSecretWord =
        shareSize * codec.k ∧
      shareSize * codec.k = codec.bytesPerSecretWord * codec.k *
        (shareSize / codec.bytesPerSecretWord) ∧
      secretSize ≤ shareSize * codec.k - codec.bytesPerSecretWord := by
  rcases sizes with ⟨whole, _, _, covered⟩
  rw [← Int.natCast_mul] at covered
  have words := Nat.mul_div_cancel' (Nat.dvd_of_mod_eq_zero whole)
  refine ⟨by omega, ?_, by omega⟩
  conv_lhs => rw [← words]
  ring

section Decoding

variable {alignedSecretSize : Nat} (buffers : codec.Buffers)

private theorem recoverKey_slice :
    (codec.recoverKey buffers alignedSecretSize).key.slice 0 codec.bytesPerSecretWord =
      ((codec.format alignedSecretSize).keyOf buffers.erasureCodingData).slice 0
        codec.bytesPerSecretWord :=
  Buffer.slice_zero_congr fun _ => recoverKey_apply buffers alignedSecretSize

private theorem unmask_ok (systematic : codec.type ≠ .crsss)
    (words : codec.bytesPerSecretWord * (alignedSecretSize / codec.bytesPerSecretWord) =
      alignedSecretSize)
    (blocks : codec.EncryptsWholeBlocks alignedSecretSize) :
    let keyed := codec.recoverKey buffers alignedSecretSize
    ∃ word secret,
      keyed.unmaskInto (codec.xorMask keyed.key keyed.erasureCodingData alignedSecretSize
        keyed.wordForIndex keyed.alignedSecretBuffer) =
        .ok { keyed with wordForIndex := word, alignedSecretBuffer := secret } ∧
      ∀ position < alignedSecretSize, secret position =
        (codec.format alignedSecretSize).secretOf buffers.erasureCodingData position := by
  intro keyed
  rcases xorMask_ok systematic words blocks keyed.key keyed.erasureCodingData
    keyed.wordForIndex keyed.alignedSecretBuffer with ⟨word, secret, unmasked, values⟩
  refine ⟨word, secret, by rw [unmasked]; rfl, ?_⟩
  intro position inside
  rw [values position inside, recoverKey_slice]
  rfl

private theorem verifySecret_unmasked (word : codec.IndexWord) (secret : Buffer Byte)
    (values : ∀ position < alignedSecretSize, secret position =
      (codec.format alignedSecretSize).secretOf buffers.erasureCodingData position) :
    (∃ verified, codec.verifySecret { codec.recoverKey buffers alignedSecretSize with
        wordForIndex := word, alignedSecretBuffer := secret } alignedSecretSize =
        .ok verified) ↔
      (codec.type ≠ .aontRS →
        codec.PassesCheck alignedSecretSize buffers.erasureCodingData) := by
  rw [verifySecret_iff, Buffer.slice_zero_congr values]
  unfold PassesCheck
  constructor
  · intro check convergent position inside
    rw [check convergent position inside, recoverKey_apply buffers _ inside]
  · intro check convergent position inside
    rw [check convergent position inside, recoverKey_apply buffers _ inside]

end Decoding

variable {kShareIDList : Fin codec.k → Nat}

private theorem decoding_systematic_ok_iff (systematic : codec.type ≠ .crsss)
    (sizes : codec.RSAcceptsSizes shareSize secretSize)
    {recovered : codec.Buffers} {shareBuffer secretBuffer : Buffer Byte}
    (recovery : codec.recoverBlocks buffers shareBuffer kShareIDList shareSize =
      .ok recovered) (decoded : codec.Decoded) :
    codec.decoding buffers shareBuffer kShareIDList shareSize secretSize secretBuffer =
        .ok decoded ↔
      let alignedSecretSize := shareSize * codec.k - codec.bytesPerSecretWord
      let keyed := codec.recoverKey recovered alignedSecretSize
      ∃ unmasked, keyed.unmaskInto (codec.xorMask keyed.key keyed.erasureCodingData
          alignedSecretSize keyed.wordForIndex keyed.alignedSecretBuffer) = .ok unmasked ∧
        ∃ verified, codec.verifySecret unmasked alignedSecretSize = .ok verified ∧
          Decoded.mk verified
            (secretBuffer.copy 0 verified.alignedSecretBuffer secretSize) = decoded := by
  rw [decoding_systematic systematic]
  simp only [if_pos sizes, recovery, Loop.bind_eq_ok_iff, Except.ok.injEq, exists_eq_left']

/-- What a systematic decoder does with shares of an accepted size, in terms of
the only package `data` that has those shares. -/
theorem decoding_systematic_spec (systematic : codec.type ≠ .crsss) (fits : codec.FitsField)
    (distinct : Function.Injective kShareIDList)
    (bounded : ∀ position, kShareIDList position < codec.n)
    (sizes : codec.RSAcceptsSizes shareSize secretSize)
    (buffers : codec.Buffers) (shareBuffer secretBuffer : Buffer Byte) :
    let alignedSecretSize := shareSize * codec.k - codec.bytesPerSecretWord
    let decoding := codec.decoding buffers shareBuffer kShareIDList shareSize secretSize
      secretBuffer
    ∃ data,
      (∀ package, codec.HoldsShares shareBuffer package shareSize kShareIDList ↔
        ∀ position < shareSize * codec.k, data position = package position) ∧
      ((∃ decoded, decoding = .ok decoded) ↔
        codec.EncryptsWholeBlocks alignedSecretSize ∧
          (codec.type ≠ .aontRS → codec.PassesCheck alignedSecretSize data)) ∧
      ∀ decoded, decoding = .ok decoded → decoded.secretBuffer =
        secretBuffer.copy 0 ((codec.format alignedSecretSize).secretOf data)
          secretSize := by
  intro alignedSecretSize decoding
  rcases rsAcceptsSizes_rows sizes with ⟨whole, rows, covers⟩
  have filled := whole.trans rows
  rcases recoverBlocks_spec fits distinct bounded buffers shareBuffer shareSize with
    ⟨data, recovery, unique⟩
  have succeeds : ∀ decoded, decoding = .ok decoded ↔ _ :=
    decoding_systematic_ok_iff systematic sizes recovery
  refine ⟨data, unique, ?_⟩
  by_cases blocks : codec.EncryptsWholeBlocks alignedSecretSize
  · rcases unmask_ok { buffers with erasureCodingData := data } systematic
      (rsAlignedSecretSize_dvd filled) blocks with ⟨word, secret, unmasking, values⟩
    have verification := verifySecret_unmasked { buffers with erasureCodingData := data }
      word secret values
    constructor
    · rw [← verification]
      constructor
      · rintro ⟨decoded, success⟩
        rcases (succeeds decoded).mp success with ⟨unmasked, reached, verified, accepted, _⟩
        rw [Except.ok.inj (unmasking.symm.trans reached)]
        exact ⟨blocks, verified, accepted⟩
      · rintro ⟨_, verified, accepted⟩
        exact ⟨_, (succeeds _).mpr ⟨_, unmasking, verified, accepted, rfl⟩⟩
    · intro decoded success
      rcases (succeeds decoded).mp success with ⟨unmasked, reached, verified, accepted, equal⟩
      rw [← Except.ok.inj (unmasking.symm.trans reached)] at accepted
      rw [← equal]
      apply Buffer.copy_congr
      intro position inside
      rw [verifySecret_secret accepted]
      exact values position (by omega)
  · rcases xorMask_error (secretWords_pos filled) blocks
      (codec.recoverKey { buffers with erasureCodingData := data } alignedSecretSize).key
      data buffers.wordForIndex buffers.alignedSecretBuffer with ⟨left, failed⟩
    have never : ∀ decoded, decoding ≠ .ok decoded := by
      intro decoded success
      rcases (succeeds decoded).mp success with ⟨unmasked, reached, _⟩
      have masked := congrArg
        (codec.recoverKey { buffers with erasureCodingData := data }
          alignedSecretSize).unmaskInto failed
      exact absurd (masked.symm.trans reached) (by simp [Buffers.unmaskInto])
    constructor
    · constructor
      · rintro ⟨decoded, success⟩
        exact absurd success (never decoded)
      · rintro ⟨contradicted, _⟩
        exact absurd contradicted blocks
    · intro decoded success
      exact absurd success (never decoded)

end MetaDedup.CDCodec
