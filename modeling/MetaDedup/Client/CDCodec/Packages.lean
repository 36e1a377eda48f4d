import MetaDedup.Client.CDCodec.Dispersal
import MetaDedup.Foundation.AllOrNothing
import Mathlib.Tactic.Ring

/-! # Packages of the systematic codecs

AONT-RS, the old CAONT-RS and CAONT-RS differ in how they choose the key and in
the mask they derive from it. The rest is one all-or-nothing format. -/

namespace MetaDedup.CDCodec

open Foundation RegionArithmetic

variable {gf : GaloisField} {crypto : CryptoPrimitive} {codec : CDCodec gf crypto}

/-! ## Sizes -/

variable {alignedSecretSize rows : Nat}

theorem word_mul_k_pos (codec : CDCodec gf crypto) :
    0 < codec.bytesPerSecretWord * codec.k :=
  Nat.mul_pos codec.bytesPerSecretWord_pos codec.k_pos

theorem rsAlignedSecretSize_rows (codec : CDCodec gf crypto) (secretSize : Nat) :
    ∃ rows, codec.rsAlignedSecretSize secretSize + codec.bytesPerSecretWord =
        codec.bytesPerSecretWord * codec.k * rows ∧
      secretSize ≤ codec.rsAlignedSecretSize secretSize := by
  have positive := codec.word_mul_k_pos
  have divided := Nat.div_add_mod (secretSize + codec.bytesPerSecretWord)
    (codec.bytesPerSecretWord * codec.k)
  have remainder := Nat.mod_lt (secretSize + codec.bytesPerSecretWord) positive
  unfold rsAlignedSecretSize
  split
  · rename_i exact
    exact ⟨_, by rw [exact] at divided; exact divided.symm, le_rfl⟩
  · have next := Nat.mul_add_one (codec.bytesPerSecretWord * codec.k)
      ((secretSize + codec.bytesPerSecretWord) / (codec.bytesPerSecretWord * codec.k))
    exact ⟨_, Nat.sub_add_cancel (by omega), by omega⟩

section

variable (filled : alignedSecretSize + codec.bytesPerSecretWord =
  codec.bytesPerSecretWord * codec.k * rows)
include filled

theorem rsShareSize_of_rows :
    codec.bytesPerSecretWord *
        ((alignedSecretSize / codec.bytesPerSecretWord + 1) / codec.k) =
      codec.bytesPerSecretWord * rows := by
  have words : alignedSecretSize / codec.bytesPerSecretWord + 1 = codec.k * rows := by
    rw [← Nat.add_div_right _ codec.bytesPerSecretWord_pos, filled, Nat.mul_assoc,
      Nat.mul_div_cancel_left _ codec.bytesPerSecretWord_pos]
  rw [words, Nat.mul_div_cancel_left _ codec.k_pos]

theorem rsShareSize_mul_k :
    alignedSecretSize + codec.bytesPerSecretWord = codec.bytesPerSecretWord *
      ((alignedSecretSize / codec.bytesPerSecretWord + 1) / codec.k) * codec.k := by
  rw [rsShareSize_of_rows filled, filled]
  ring

theorem rsAlignedSecretSize_dvd :
    codec.bytesPerSecretWord * (alignedSecretSize / codec.bytesPerSecretWord) =
      alignedSecretSize := by
  apply Nat.mul_div_cancel'
  have whole : codec.bytesPerSecretWord ∣ alignedSecretSize + codec.bytesPerSecretWord := by
    rw [filled, Nat.mul_assoc]
    exact Nat.dvd_mul_right _ _
  exact (Nat.dvd_add_left (Nat.dvd_refl _)).mp whole

end

private theorem erasureCodingDataSize_systematic (systematic : codec.type ≠ .crsss) :
    codec.erasureCodingDataSize = codec.bytesPerSecretWord *
      ((codec.alignedSecretBufferSize / codec.bytesPerSecretWord + 1) / codec.k) *
      codec.k := by
  unfold erasureCodingDataSize
  split
  · exact absurd (by assumption) systematic
  · rfl
  · rfl
  · rfl

private theorem package_fits_erasureCodingData (systematic : codec.type ≠ .crsss)
    (filled : alignedSecretSize + codec.bytesPerSecretWord =
      codec.bytesPerSecretWord * codec.k * rows)
    (fits : alignedSecretSize ≤ codec.alignedSecretBufferSize) :
    codec.bytesPerSecretWord * rows * codec.k ≤ codec.erasureCodingDataSize := by
  rw [erasureCodingDataSize_systematic systematic, ← rsShareSize_of_rows filled]
  gcongr

theorem rsAcceptsSizes_encoded (systematic : codec.type ≠ .crsss) {secretSize : Nat}
    (fits : codec.rsAlignedSecretSize secretSize ≤ codec.alignedSecretBufferSize) :
    codec.RSAcceptsSizes
      (codec.bytesPerSecretWord * ((codec.rsAlignedSecretSize secretSize /
        codec.bytesPerSecretWord + 1) / codec.k)) secretSize := by
  rcases codec.rsAlignedSecretSize_rows secretSize with ⟨rows, filled, covers⟩
  have room := package_fits_erasureCodingData systematic filled fits
  rw [← rsShareSize_of_rows filled] at room
  unfold RSAcceptsSizes
  refine ⟨Nat.mul_mod_right _ _, room, ?_, ?_⟩
  · rw [← Int.natCast_mul, ← rsShareSize_mul_k filled]
    omega
  · rw [← Int.natCast_mul, ← rsShareSize_mul_k filled]
    omega

/-! ## Masks -/

def indexBytes (codec : CDCodec gf crypto) (i : Nat) : List Byte :=
  Buffer.slice
    (fun position => if position < 4 then BitVec.ofNat 8 (i >>> (8 * position)) else 0#8)
    0 codec.bytesPerSecretWord

def indexMask (codec : CDCodec gf crypto) (key : List Byte) : Buffer Byte :=
  fun position => crypto.cipher key
    (codec.indexBytes (position / codec.bytesPerSecretWord))
    (position % codec.bytesPerSecretWord)

def format (codec : CDCodec gf crypto) (alignedSecretSize : Nat) : AllOrNothing 8 where
  size := alignedSecretSize
  keySize := codec.bytesPerSecretWord
  digest := crypto.digest
  mask key :=
    match codec.type with
    | .caontRS => crypto.cipher key (codec.alignedSizeConstant.slice 0 alignedSecretSize)
    | .crsss | .aontRS | .oldCaontRS => codec.indexMask key

def EncryptsWholeBlocks (codec : CDCodec gf crypto) (alignedSecretSize : Nat) : Prop :=
  match codec.type with
  | .caontRS => crypto.WholeBlocks alignedSecretSize
  | .crsss | .aontRS | .oldCaontRS => crypto.WholeBlocks codec.bytesPerSecretWord

private theorem keySize_systematic (systematic : codec.type ≠ .crsss) :
    crypto.keySize.toNat = codec.bytesPerSecretWord := by
  have sizes := codec.accepted.2.2.2
  unfold bytesPerSecretWord
  cases type : codec.type with
  | crsss => exact absurd type systematic
  | aontRS => rw [type] at sizes; have := sizes.2; omega
  | oldCaontRS => rw [type] at sizes; have := sizes.2; omega
  | caontRS => rw [type] at sizes; have := sizes.2; omega

private theorem store_slice (word : codec.IndexWord) (i : Nat) :
    (word.store i).bytes.slice 0 codec.bytesPerSecretWord = codec.indexBytes i := by
  apply Buffer.slice_congr
  intro position inside
  rw [Nat.zero_add]
  by_cases early : position < 4
  · simp only [if_pos early, IndexWord.store]
    rw [Buffer.copy_apply, if_pos (by omega), Nat.sub_zero]
  · rw [if_neg early]
    exact (word.store i).rest_zero position (by omega) inside

private theorem xorEncryptedIndices_pass (blocks : crypto.WholeBlocks codec.bytesPerSecretWord)
    (key source : Buffer Byte) (word : codec.IndexWord) (destination : Buffer Byte)
    (i : Nat) :
    ∃ ciphertext,
      crypto.encryptWithKey (word.store i).bytes codec.bytesPerSecretWord key destination
        (codec.bytesPerSecretWord * i) = some ciphertext ∧
      ∀ position, multiplyRegion (source.advance (codec.bytesPerSecretWord * i)) ciphertext
          (codec.bytesPerSecretWord * i) (1 : gf.Element) codec.bytesPerSecretWord true
          position =
        if codec.bytesPerSecretWord * i ≤ position ∧
            position < codec.bytesPerSecretWord * i + codec.bytesPerSecretWord then
          source position ^^^
            codec.indexMask (key.slice 0 crypto.keySize.toNat) position
        else destination position := by
  refine ⟨_, by rw [CryptoPrimitive.encryptWithKey, if_pos blocks], ?_⟩
  intro position
  rw [multiplyRegion_one, Buffer.copy_apply]
  split
  · rename_i inside
    have within : position - codec.bytesPerSecretWord * i < codec.bytesPerSecretWord := by
      omega
    have whole : position =
        codec.bytesPerSecretWord * i + (position - codec.bytesPerSecretWord * i) := by
      omega
    have quotient : position / codec.bytesPerSecretWord = i := by
      rw [whole, Nat.mul_add_div codec.bytesPerSecretWord_pos, Nat.div_eq_of_lt within,
        Nat.add_zero]
    have remainder : position % codec.bytesPerSecretWord =
        position - codec.bytesPerSecretWord * i := by
      conv_lhs => rw [whole]
      rw [Nat.mul_add_mod, Nat.mod_eq_of_lt within]
    rw [store_slice, indexMask, quotient, remainder, Buffer.advance_apply, ← whole,
      BitVec.xor_comm]
  · rfl

private theorem xorEncryptedIndices_ok (blocks : crypto.WholeBlocks codec.bytesPerSecretWord)
    (key source : Buffer Byte) (count : Nat) (word : codec.IndexWord)
    (destination : Buffer Byte) :
    ∃ finalWord final,
      codec.xorEncryptedIndices key source count word destination =
        .ok (finalWord, final) ∧
      ∀ position, final position =
        if position < codec.bytesPerSecretWord * count then
          source position ^^^
            codec.indexMask (key.slice 0 crypto.keySize.toNat) position
        else destination position := by
  induction count with
  | zero => exact ⟨word, destination, rfl, fun position => by simp⟩
  | succ count induction =>
      rcases induction with ⟨middleWord, middle, reached, earlier⟩
      rcases xorEncryptedIndices_pass blocks key source middleWord middle count with
        ⟨ciphertext, encrypted, pass⟩
      refine ⟨middleWord.store count, _, ?_, fun position => (pass position).trans ?_⟩
      · unfold xorEncryptedIndices at reached ⊢
        rw [List.range_succ, List.foldlM_append, reached]
        simp [encrypted, Except.bind, bind, pure, Except.pure]
      · rw [earlier, Nat.mul_succ]
        split_ifs <;> first | rfl | omega

private theorem xorEncryptedIndices_error (blocks : ¬ crypto.WholeBlocks codec.bytesPerSecretWord)
    (key source : Buffer Byte) {count : Nat} (positive : 0 < count)
    (word : codec.IndexWord) (destination : Buffer Byte) :
    ∃ left, codec.xorEncryptedIndices key source count word destination = .error left := by
  cases count with
  | zero => exact absurd positive (lt_irrefl 0)
  | succ count =>
      refine ⟨(word.store 0, destination), ?_⟩
      unfold xorEncryptedIndices
      rw [List.range_succ_eq_map, List.foldlM_cons]
      simp [CryptoPrimitive.encryptWithKey, blocks, bind, Except.bind]

def xorMask (codec : CDCodec gf crypto) (key source : Buffer Byte)
    (alignedSecretSize : Nat) (word : codec.IndexWord) (destination : Buffer Byte) :
    Except (codec.IndexWord × Buffer Byte) (codec.IndexWord × Buffer Byte) :=
  match codec.type with
  | .caontRS => codec.xorEncryptedConstant key source alignedSecretSize word destination
  | .crsss | .aontRS | .oldCaontRS =>
      codec.xorEncryptedIndices key source (alignedSecretSize / codec.bytesPerSecretWord)
        word destination

section Masking

variable {alignedSecretSize : Nat}

theorem xorMask_ok (systematic : codec.type ≠ .crsss)
    (words : codec.bytesPerSecretWord * (alignedSecretSize / codec.bytesPerSecretWord) =
      alignedSecretSize)
    (blocks : codec.EncryptsWholeBlocks alignedSecretSize) (key source : Buffer Byte)
    (word : codec.IndexWord) (destination : Buffer Byte) :
    ∃ finalWord final,
      codec.xorMask key source alignedSecretSize word destination =
        .ok (finalWord, final) ∧
      ∀ position < alignedSecretSize, final position =
        source position ^^^ (codec.format alignedSecretSize).mask
          (key.slice 0 codec.bytesPerSecretWord) position := by
  have keySize := keySize_systematic systematic
  unfold xorMask format
  unfold EncryptsWholeBlocks at blocks
  split
  · rename_i constant
    rw [constant] at blocks
    refine ⟨word, _, by rw [xorEncryptedConstant, CryptoPrimitive.encryptWithKey,
      if_pos blocks], ?_⟩
    intro position inside
    rw [multiplyRegion_one, if_pos (by omega), Buffer.copy_apply, if_pos (by omega),
      Nat.sub_zero, BitVec.xor_comm, keySize]
  all_goals
    rename_i type
    rw [type] at blocks
    rcases xorEncryptedIndices_ok blocks key source
      (alignedSecretSize / codec.bytesPerSecretWord) word destination with
      ⟨finalWord, final, reached, masked⟩
    refine ⟨finalWord, final, reached, ?_⟩
    intro position inside
    rw [masked, words, if_pos inside, keySize]

theorem xorMask_error (words : 0 < alignedSecretSize / codec.bytesPerSecretWord)
    (blocks : ¬ codec.EncryptsWholeBlocks alignedSecretSize) (key source : Buffer Byte)
    (word : codec.IndexWord) (destination : Buffer Byte) :
    ∃ left, codec.xorMask key source alignedSecretSize word destination =
      .error left := by
  unfold xorMask
  unfold EncryptsWholeBlocks at blocks
  split
  · rename_i constant
    rw [constant] at blocks
    exact ⟨_, by rw [xorEncryptedConstant, CryptoPrimitive.encryptWithKey, if_neg blocks]⟩
  all_goals
    rename_i type
    rw [type] at blocks
    exact xorEncryptedIndices_error blocks key source words word destination

end Masking

/-! ## Encoding -/

theorem loadSecret_apply (buffers : codec.Buffers) (secretBuffer : Buffer Byte)
    {secretSize : Nat} (covers : secretSize ≤ alignedSecretSize)
    {position : Nat} (inside : position < alignedSecretSize) :
    (buffers.loadSecret secretBuffer secretSize alignedSecretSize).alignedSecretBuffer
        position =
      if position < secretSize then secretBuffer position else 0#8 := by
  simp only [Buffers.loadSecret]
  split_ifs with padded
  all_goals
    simp only [Buffer.copy_apply, Nat.sub_zero, Nat.zero_add, Nat.zero_le, true_and]
    split_ifs <;> first | rfl | omega

def keyed (codec : CDCodec gf crypto) (buffers : codec.Buffers)
    (randomKey secretBuffer : Buffer Byte) (secretSize : Nat) : codec.Buffers :=
  let alignedSecretSize := codec.rsAlignedSecretSize secretSize
  let loaded := buffers.loadSecret secretBuffer secretSize alignedSecretSize
  match codec.type with
  | .aontRS => { loaded with
      key := loaded.key.copy 0 randomKey codec.bytesPerSecretWord }
  | .crsss | .oldCaontRS | .caontRS => codec.hashKey loaded alignedSecretSize

theorem encoding_systematic (systematic : codec.type ≠ .crsss) (buffers : codec.Buffers)
    (randomKey secretBuffer : Buffer Byte) (secretSize : Nat) (shareBuffer : Buffer Byte) :
    codec.encoding buffers randomKey secretBuffer secretSize shareBuffer =
      let alignedSecretSize := codec.rsAlignedSecretSize secretSize
      let keyed := codec.keyed buffers randomKey secretBuffer secretSize
      if codec.alignedSecretBufferSize < alignedSecretSize then .error buffers
      else
        (keyed.maskInto (codec.xorMask keyed.key keyed.alignedSecretBuffer
          alignedSecretSize keyed.wordForIndex keyed.erasureCodingData)).bind fun masked =>
          .ok (codec.systematicShares (codec.appendTail masked alignedSecretSize)
            alignedSecretSize
            (codec.bytesPerSecretWord *
              ((alignedSecretSize / codec.bytesPerSecretWord + 1) / codec.k))
            shareBuffer) := by
  cases type : codec.type with
  | crsss => exact absurd type systematic
  | aontRS =>
      simp only [encoding, type, aontRSEncoding, maskWords, keyed, xorMask]
      split <;> rfl
  | oldCaontRS =>
      simp only [encoding, type, caontRSOldEncoding, maskWords, keyed, xorMask]
      split <;> rfl
  | caontRS =>
      simp only [encoding, type, caontRSEncoding, maskConstant, keyed, xorMask]
      split <;> rfl

private theorem appendTail_apply (buffers : codec.Buffers) {secret : Buffer Byte}
    (masked : ∀ position < alignedSecretSize, buffers.erasureCodingData position =
      (codec.format alignedSecretSize).masked buffers.key secret position)
    {position : Nat} (inside : position < alignedSecretSize + codec.bytesPerSecretWord) :
    (codec.appendTail buffers alignedSecretSize).erasureCodingData position =
      (codec.format alignedSecretSize).package buffers.key secret position := by
  have main : buffers.erasureCodingData.slice 0 alignedSecretSize =
      ((codec.format alignedSecretSize).masked buffers.key secret).slice 0
        alignedSecretSize := Buffer.slice_zero_congr masked
  simp only [appendTail, CryptoPrimitive.generateHash]
  rw [multiplyRegion_one, AllOrNothing.package]
  by_cases early : position < alignedSecretSize
  · rw [if_neg (by omega), Buffer.copy_outside _ _ (.inl early), masked position early]
    exact (if_pos early).symm
  · rw [if_pos (by omega), Buffer.copy_apply, if_pos ⟨by omega, inside⟩, main]
    exact (if_neg early).symm

theorem secretWords_pos (filled : alignedSecretSize + codec.bytesPerSecretWord =
      codec.bytesPerSecretWord * codec.k * rows) :
    0 < alignedSecretSize / codec.bytesPerSecretWord := by
  have wordPositive := codec.bytesPerSecretWord_pos
  have rowsPositive : 0 < rows := by
    rcases Nat.eq_zero_or_pos rows with zero | positive
    · rw [zero, Nat.mul_zero] at filled
      omega
    · exact positive
  have twoWords : codec.bytesPerSecretWord * 2 ≤ codec.bytesPerSecretWord * codec.k * rows :=
    calc codec.bytesPerSecretWord * 2 ≤ codec.bytesPerSecretWord * codec.k :=
          Nat.mul_le_mul_left _ codec.one_lt_k
      _ ≤ codec.bytesPerSecretWord * codec.k * rows := Nat.le_mul_of_pos_right _ rowsPositive
  exact Nat.div_pos (by omega) wordPositive

section Encoding

variable {buffers : codec.Buffers} {randomKey secretBuffer shareBuffer : Buffer Byte}
  {secretSize : Nat}

theorem encoding_systematic_ok (systematic : codec.type ≠ .crsss)
    (fits : codec.rsAlignedSecretSize secretSize ≤ codec.alignedSecretBufferSize)
    (blocks : codec.EncryptsWholeBlocks (codec.rsAlignedSecretSize secretSize)) :
    ∃ encoded, codec.encoding buffers randomKey secretBuffer secretSize shareBuffer =
      .ok encoded := by
  rcases codec.rsAlignedSecretSize_rows secretSize with ⟨rows, filled, _⟩
  rcases xorMask_ok systematic (rsAlignedSecretSize_dvd filled) blocks
    (codec.keyed buffers randomKey secretBuffer secretSize).key
    (codec.keyed buffers randomKey secretBuffer secretSize).alignedSecretBuffer
    (codec.keyed buffers randomKey secretBuffer secretSize).wordForIndex
    (codec.keyed buffers randomKey secretBuffer secretSize).erasureCodingData with
    ⟨word, data, masked, _⟩
  rw [encoding_systematic systematic]
  simp only [if_neg (not_lt.mpr fits), masked]
  exact ⟨_, rfl⟩

/-- A successful encoder has dispersed the package of the padded secret. -/
theorem encoding_systematic_spec (systematic : codec.type ≠ .crsss) {encoded : codec.Encoded}
    (success : codec.encoding buffers randomKey secretBuffer secretSize shareBuffer =
      .ok encoded) :
    let alignedSecretSize := codec.rsAlignedSecretSize secretSize
    let keyed := codec.keyed buffers randomKey secretBuffer secretSize
    alignedSecretSize ≤ codec.alignedSecretBufferSize ∧
      codec.EncryptsWholeBlocks alignedSecretSize ∧
      encoded.shareSize = codec.bytesPerSecretWord *
        ((alignedSecretSize / codec.bytesPerSecretWord + 1) / codec.k) ∧
      ∃ package : Buffer Byte,
        (∀ position < alignedSecretSize + codec.bytesPerSecretWord, package position =
          (codec.format alignedSecretSize).package keyed.key keyed.alignedSecretBuffer
            position) ∧
        ∀ id < codec.n, ∀ position < encoded.shareSize,
          encoded.shareBuffer (encoded.shareSize * id + position) =
            codec.share package encoded.shareSize id position := by
  intro alignedSecretSize keyed
  rcases codec.rsAlignedSecretSize_rows secretSize with ⟨rows, filled, _⟩
  rw [encoding_systematic systematic] at success
  change (if codec.alignedSecretBufferSize < alignedSecretSize then .error buffers
    else (keyed.maskInto (codec.xorMask keyed.key keyed.alignedSecretBuffer
      alignedSecretSize keyed.wordForIndex keyed.erasureCodingData)).bind _) =
      Except.ok encoded at success
  split at success
  · exact absurd success (by simp)
  rename_i fits
  by_cases blocks : codec.EncryptsWholeBlocks alignedSecretSize
  · rcases xorMask_ok systematic (rsAlignedSecretSize_dvd filled) blocks keyed.key
      keyed.alignedSecretBuffer keyed.wordForIndex keyed.erasureCodingData with
      ⟨word, data, masked, values⟩
    rw [masked] at success
    have result := Except.ok.inj success
    refine ⟨not_lt.mp fits, blocks, by rw [← result]; rfl, ?_⟩
    refine ⟨_, fun position inside => appendTail_apply
      { keyed with wordForIndex := word, erasureCodingData := data } values inside, ?_⟩
    intro id bounded position inside
    rw [← result] at inside ⊢
    exact systematicShares_shareBuffer systematic _ (rsShareSize_mul_k filled) _ bounded
      inside
  · rcases xorMask_error (secretWords_pos filled) blocks keyed.key
      keyed.alignedSecretBuffer keyed.wordForIndex keyed.erasureCodingData with
      ⟨left, failed⟩
    rw [failed] at success
    exact absurd success (by simp [Buffers.maskInto, Except.bind])

theorem keyed_secret {position : Nat}
    (inside : position < codec.rsAlignedSecretSize secretSize) :
    (codec.keyed buffers randomKey secretBuffer secretSize).alignedSecretBuffer position =
      if position < secretSize then secretBuffer position else 0#8 := by
  have covers := (codec.rsAlignedSecretSize_rows secretSize).choose_spec.2
  have loaded := loadSecret_apply buffers secretBuffer covers inside
  unfold keyed
  split <;> exact loaded

theorem keyed_key (convergent : codec.type ≠ .aontRS) {position : Nat}
    (inside : position < codec.bytesPerSecretWord) :
    (codec.keyed buffers randomKey secretBuffer secretSize).key position =
      crypto.digest ((codec.keyed buffers randomKey secretBuffer
        secretSize).alignedSecretBuffer.slice 0 (codec.rsAlignedSecretSize secretSize))
        position := by
  unfold keyed
  split
  · exact absurd (by assumption) convergent
  all_goals
    simp only [hashKey, CryptoPrimitive.generateHash]
    rw [Buffer.copy_apply, if_pos ⟨Nat.zero_le _, by rwa [Nat.zero_add]⟩, Nat.sub_zero]

end Encoding

end MetaDedup.CDCodec
