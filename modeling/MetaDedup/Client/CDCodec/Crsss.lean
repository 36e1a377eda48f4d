import MetaDedup.Client.CDCodec.Dispersal
import Mathlib.Tactic.Ring

/-! # Packages of CRSSS

CRSSS spreads the words of each group of the secret over the first `k - r` data
blocks and the `r` hashes of the group over the others. -/

namespace MetaDedup.CDCodec

open Foundation RegionArithmetic

variable {gf : GaloisField} {crypto : CryptoPrimitive} {codec : CDCodec gf crypto}

/-! ## Sizes -/

theorem crsss_r (crsss : codec.type = .crsss) : 0 < codec.r ∧ codec.r < codec.k := by
  have bounds := codec.accepted.2.2.2
  rw [crsss] at bounds
  have below := bounds.2
  have above := bounds.1
  unfold k
  omega

theorem secretWordsPerGroup_add_r (crsss : codec.type = .crsss) :
    codec.secretWordsPerGroup + codec.r = codec.k := by
  have bounds := crsss_r crsss
  unfold secretWordsPerGroup
  omega

theorem bytesPerGroup_pos (crsss : codec.type = .crsss) : 0 < codec.bytesPerGroup := by
  have bounds := crsss_r crsss
  apply Nat.mul_pos codec.bytesPerSecretWord_pos
  unfold secretWordsPerGroup
  omega

def crsssAlignedSecretSize (codec : CDCodec gf crypto) (secretSize : Nat) : Nat :=
  if secretSize % codec.bytesPerGroup = 0 then secretSize
  else codec.bytesPerGroup * (secretSize / codec.bytesPerGroup + 1)

theorem crsssAlignedSecretSize_groups (crsss : codec.type = .crsss) (secretSize : Nat) :
    ∃ groups, codec.crsssAlignedSecretSize secretSize = codec.bytesPerGroup * groups ∧
      secretSize ≤ codec.crsssAlignedSecretSize secretSize := by
  have divided := Nat.div_add_mod secretSize codec.bytesPerGroup
  have remainder := Nat.mod_lt secretSize (bytesPerGroup_pos crsss)
  unfold crsssAlignedSecretSize
  split
  · rename_i whole
    exact ⟨secretSize / codec.bytesPerGroup, by omega, le_rfl⟩
  · have next := Nat.mul_add_one codec.bytesPerGroup (secretSize / codec.bytesPerGroup)
    exact ⟨_, rfl, by omega⟩

theorem crsss_fits_erasureCodingData (crsss : codec.type = .crsss) {groups : Nat}
    (fits : codec.bytesPerGroup * groups ≤ codec.alignedSecretBufferSize) :
    codec.bytesPerSecretWord * groups * codec.k ≤ codec.erasureCodingDataSize := by
  have size : codec.erasureCodingDataSize = codec.bytesPerSecretWord *
      (codec.alignedSecretBufferSize / codec.bytesPerGroup) * codec.k := by
    unfold erasureCodingDataSize
    rw [crsss]
    rfl
  have enough : groups ≤ codec.alignedSecretBufferSize / codec.bytesPerGroup :=
    (Nat.le_div_iff_mul_le (bytesPerGroup_pos crsss)).mpr (by rwa [Nat.mul_comm])
  rw [size]
  gcongr

/-! ## The package and its secret -/

def seededGroup (codec : CDCodec gf crypto) (secret : Buffer Byte) (i j : Nat) :
    List Byte :=
  secret.slice (codec.bytesPerGroup * i) codec.bytesPerGroup ++ [BitVec.ofNat 8 j]

theorem seededGroup_congr {left right : Buffer Byte} {i : Nat}
    (agree : ∀ position < codec.bytesPerGroup,
      left (codec.bytesPerGroup * i + position) =
        right (codec.bytesPerGroup * i + position)) (j : Nat) :
    codec.seededGroup left i j = codec.seededGroup right i j := by
  rw [seededGroup, seededGroup, Buffer.slice_congr agree]

def crsssWord (codec : CDCodec gf crypto) (secret : Buffer Byte) (block i p : Nat) :
    Byte :=
  if block < codec.secretWordsPerGroup then
    secret (codec.bytesPerGroup * i + codec.bytesPerSecretWord * block + p)
  else
    crypto.digest (codec.seededGroup secret i (block - codec.secretWordsPerGroup)) p

def crsssPackage (codec : CDCodec gf crypto) (secret : Buffer Byte) (shareSize : Nat) :
    Buffer Byte :=
  fun position => codec.crsssWord secret (position / shareSize)
    (position % shareSize / codec.bytesPerSecretWord)
    (position % shareSize % codec.bytesPerSecretWord)

def crsssSecret (codec : CDCodec gf crypto) (data : Buffer Byte) (shareSize : Nat) :
    Buffer Byte :=
  fun position => data (shareSize *
      (position % codec.bytesPerGroup / codec.bytesPerSecretWord) +
    codec.bytesPerSecretWord * (position / codec.bytesPerGroup) +
    position % codec.bytesPerGroup % codec.bytesPerSecretWord)

section Layout

variable {groups shareSize : Nat}

theorem crsssPackage_word (size : shareSize = codec.bytesPerSecretWord * groups)
    (secret : Buffer Byte) (block : Nat) {i p : Nat} (bounded : i < groups)
    (inside : p < codec.bytesPerSecretWord) :
    codec.crsssPackage secret shareSize
      (shareSize * block + codec.bytesPerSecretWord * i + p) =
      codec.crsssWord secret block i p := by
  rcases Layout.div_mod_words block size bounded inside with ⟨quotient, word, rest⟩
  rw [crsssPackage, quotient, word, rest]

theorem crsssSecret_word (data : Buffer Byte) (i : Nat) {j p : Nat}
    (bounded : j < codec.secretWordsPerGroup) (inside : p < codec.bytesPerSecretWord) :
    codec.crsssSecret data shareSize
      (codec.bytesPerGroup * i + codec.bytesPerSecretWord * j + p) =
      data (shareSize * j + codec.bytesPerSecretWord * i + p) := by
  have size : codec.bytesPerGroup = codec.bytesPerSecretWord * codec.secretWordsPerGroup :=
    rfl
  rcases Layout.div_mod_words i size bounded inside with ⟨quotient, word, rest⟩
  rw [crsssSecret, quotient, word, rest]

theorem crsssPackage_congr (size : shareSize = codec.bytesPerSecretWord * groups)
    {left right : Buffer Byte}
    (agree : ∀ position < codec.bytesPerGroup * groups, left position = right position)
    {position : Nat} (inside : position < shareSize * codec.k) :
    codec.crsssPackage left shareSize position =
      codec.crsssPackage right shareSize position := by
  rcases Layout.exists_words size inside with
    ⟨block, blockBound, i, wordBound, p, restBound, rfl⟩
  rw [crsssPackage_word size _ _ wordBound restBound,
    crsssPackage_word size _ _ wordBound restBound, crsssWord, crsssWord]
  split
  · rename_i word
    rw [Nat.add_assoc]
    exact agree _ (Layout.block_lt wordBound (Layout.block_lt word restBound))
  · rw [seededGroup_congr fun position inside =>
      agree _ (Layout.block_lt wordBound inside)]

end Layout

/-! ## Hashing a group -/

theorem hashWithSeed_rHashes (i : Nat) (buffers : codec.Buffers) (j position : Nat) :
    (codec.hashWithSeed i buffers j).rHashes position =
      if codec.bytesPerSecretWord * j ≤ position ∧
          position < codec.bytesPerSecretWord * j + codec.bytesPerSecretWord then
        crypto.digest (codec.seededGroup buffers.alignedSecretBuffer i j)
          (position - codec.bytesPerSecretWord * j)
      else buffers.rHashes position := by
  have input : ((buffers.hashInputBuffer.copy 0
      (buffers.alignedSecretBuffer.advance (codec.bytesPerGroup * i))
      codec.bytesPerGroup).copy codec.bytesPerGroup (fun _ => BitVec.ofNat 8 j) 1).slice 0
      (codec.bytesPerGroup + 1) = codec.seededGroup buffers.alignedSecretBuffer i j := by
    rw [Buffer.slice_succ, seededGroup]
    congr 1
    · apply Buffer.slice_congr
      intro position inside
      rw [Nat.zero_add, Buffer.copy_outside _ _ (.inl inside), Buffer.copy_apply,
        if_pos (by omega), Nat.sub_zero, Buffer.advance_apply]
    · rw [Nat.zero_add, Buffer.copy_apply, if_pos (by omega)]
  simp only [hashWithSeed, CryptoPrimitive.generateHash, input]
  rfl

private theorem hashLoop_spec (i count : Nat) (buffers : codec.Buffers) :
    let hashed := (List.range count).foldl (codec.hashWithSeed i) buffers
    hashed.alignedSecretBuffer = buffers.alignedSecretBuffer ∧
      hashed.erasureCodingData = buffers.erasureCodingData ∧
      ∀ j < count, ∀ p < codec.bytesPerSecretWord,
        hashed.rHashes (codec.bytesPerSecretWord * j + p) =
          crypto.digest (codec.seededGroup buffers.alignedSecretBuffer i j) p := by
  induction count with
  | zero => exact ⟨rfl, rfl, fun _ bound => nomatch bound⟩
  | succ count induction =>
      rcases induction with ⟨sameSecret, sameData, hashes⟩
      simp only [List.range_succ, List.foldl_append, List.foldl_cons, List.foldl_nil]
      refine ⟨sameSecret, sameData, ?_⟩
      intro j bound p inside
      rw [hashWithSeed_rHashes, sameSecret]
      rcases Nat.lt_succ_iff_lt_or_eq.mp bound with early | same
      · have before := Layout.block_lt early inside
        rw [if_neg (by omega), hashes j early p inside]
      · rw [same, if_pos (by omega), Nat.add_sub_cancel_left]

/-! ## Encoding -/

section Encoding

variable {groups shareSize : Nat}

def GroupOwns (codec : CDCodec gf crypto) (shareSize i position : Nat) : Prop :=
  ∃ block < codec.k,
    shareSize * block + codec.bytesPerSecretWord * i ≤ position ∧
      position < shareSize * block + codec.bytesPerSecretWord * i +
        codec.bytesPerSecretWord

variable (crsss : codec.type = .crsss)
include crsss

private theorem encodeGroup_spec
    (size : shareSize = codec.bytesPerSecretWord * groups) (buffers : codec.Buffers)
    {i : Nat} (bounded : i < groups) :
    (codec.encodeGroup shareSize buffers i).alignedSecretBuffer =
        buffers.alignedSecretBuffer ∧
      ∀ position,
        (codec.GroupOwns shareSize i position →
          (codec.encodeGroup shareSize buffers i).erasureCodingData position =
            codec.crsssPackage buffers.alignedSecretBuffer shareSize position) ∧
        (¬ codec.GroupOwns shareSize i position →
          (codec.encodeGroup shareSize buffers i).erasureCodingData position =
            buffers.erasureCodingData position) := by
  have blocks := secretWordsPerGroup_add_r crsss
  rcases hashLoop_spec i codec.r buffers with ⟨sameSecret, sameData, hashes⟩
  refine ⟨sameSecret, ?_⟩
  intro position
  have words := Buffer.foldl_copies
    (fun j => shareSize * j + codec.bytesPerSecretWord * i)
    (fun j => buffers.alignedSecretBuffer.advance
      (codec.bytesPerGroup * i + codec.bytesPerSecretWord * j))
    (codec.crsssPackage buffers.alignedSecretBuffer shareSize)
    codec.bytesPerSecretWord codec.secretWordsPerGroup ?wordValues
    buffers.erasureCodingData position
  case wordValues =>
    intro j early p inside
    rw [crsssPackage_word size _ _ bounded inside, crsssWord, if_pos early,
      Buffer.advance_apply]
  have tails := Buffer.foldl_copies
    (fun j => shareSize * (codec.secretWordsPerGroup + j) + codec.bytesPerSecretWord * i)
    (fun j => ((List.range codec.r).foldl (codec.hashWithSeed i)
      buffers).rHashes.advance (codec.bytesPerSecretWord * j))
    (codec.crsssPackage buffers.alignedSecretBuffer shareSize)
    codec.bytesPerSecretWord codec.r ?hashValues
    ((List.range codec.secretWordsPerGroup).foldl
      (fun data j => data.copy (shareSize * j + codec.bytesPerSecretWord * i)
        (buffers.alignedSecretBuffer.advance
          (codec.bytesPerGroup * i + codec.bytesPerSecretWord * j))
        codec.bytesPerSecretWord) buffers.erasureCodingData) position
  case hashValues =>
    intro j early p inside
    rw [crsssPackage_word size _ _ bounded inside, crsssWord, if_neg (by omega),
      Nat.add_sub_cancel_left, Buffer.advance_apply, hashes j early p inside]
  simp only [encodeGroup, sameSecret, sameData]
  constructor
  · rintro ⟨block, inRange, owned⟩
    by_cases hash : ∃ j < codec.r,
        shareSize * (codec.secretWordsPerGroup + j) + codec.bytesPerSecretWord * i ≤
          position ∧ position < shareSize * (codec.secretWordsPerGroup + j) +
            codec.bytesPerSecretWord * i + codec.bytesPerSecretWord
    · exact tails.1 hash
    · have missed : ∀ j < codec.r,
          position < shareSize * (codec.secretWordsPerGroup + j) +
            codec.bytesPerSecretWord * i ∨
          shareSize * (codec.secretWordsPerGroup + j) + codec.bytesPerSecretWord * i +
            codec.bytesPerSecretWord ≤ position := by
        intro j early
        by_contra within
        exact hash ⟨j, early, by omega⟩
      rw [tails.2 missed]
      apply words.1
      by_cases word : block < codec.secretWordsPerGroup
      · exact ⟨block, word, owned⟩
      · have seed : codec.secretWordsPerGroup + (block - codec.secretWordsPerGroup) =
            block := by omega
        exact absurd ⟨block - codec.secretWordsPerGroup, by omega, by rwa [seed]⟩ hash
  · intro free
    rw [tails.2, words.2]
    · intro j early
      by_contra within
      exact free ⟨j, by omega, by omega⟩
    · intro j early
      by_contra within
      exact free ⟨codec.secretWordsPerGroup + j, by omega, by omega⟩

private theorem encodeGroups_spec
    (size : shareSize = codec.bytesPerSecretWord * groups) (buffers : codec.Buffers) :
    ∀ position < shareSize * codec.k,
      ((List.range groups).foldl (codec.encodeGroup shareSize)
        buffers).erasureCodingData position =
        codec.crsssPackage buffers.alignedSecretBuffer shareSize position := by
  have loop : ∀ count ≤ groups,
      ((List.range count).foldl (codec.encodeGroup shareSize)
        buffers).alignedSecretBuffer = buffers.alignedSecretBuffer ∧
      ∀ position, (∃ i < count, codec.GroupOwns shareSize i position) →
        ((List.range count).foldl (codec.encodeGroup shareSize)
          buffers).erasureCodingData position =
          codec.crsssPackage buffers.alignedSecretBuffer shareSize position := by
    intro count
    induction count with
    | zero => exact fun _ => ⟨rfl, fun _ ⟨_, bound, _⟩ => absurd bound (Nat.not_lt_zero _)⟩
    | succ count induction =>
        intro enough
        rcases induction (by omega) with ⟨sameSecret, written⟩
        rw [List.range_succ, List.foldl_append, List.foldl_cons, List.foldl_nil]
        rcases encodeGroup_spec crsss size ((List.range count).foldl
          (codec.encodeGroup shareSize) buffers) enough with ⟨kept, group⟩
        rw [sameSecret] at kept group
        refine ⟨kept, ?_⟩
        rintro position ⟨i, bound, owned⟩
        by_cases last : codec.GroupOwns shareSize count position
        · exact (group position).1 last
        · rw [(group position).2 last]
          refine written position ⟨i, ?_, owned⟩
          refine lt_of_le_of_ne (Nat.lt_succ_iff.mp bound) ?_
          rintro rfl
          exact last owned
  intro position inside
  rcases Layout.exists_words size inside with
    ⟨block, blockBound, word, wordBound, rest, restBound, place⟩
  exact (loop groups le_rfl).2 position ⟨word, wordBound, block, blockBound, by omega⟩

variable {buffers : codec.Buffers} {randomKey secretBuffer shareBuffer : Buffer Byte}
  {secretSize : Nat}

theorem encoding_crsss :
    codec.encoding buffers randomKey secretBuffer secretSize shareBuffer =
      let alignedSecretSize := codec.crsssAlignedSecretSize secretSize
      let shareSize := codec.bytesPerSecretWord * (alignedSecretSize / codec.bytesPerGroup)
      let grouped := (List.range (alignedSecretSize / codec.bytesPerGroup)).foldl
        (codec.encodeGroup shareSize)
        (buffers.loadSecret secretBuffer secretSize alignedSecretSize)
      if codec.alignedSecretBufferSize < alignedSecretSize then .error buffers
      else .ok {
        buffers := grouped
        shareBuffer := multiplyBlocks codec.distributionMatrix codec.n
          grouped.erasureCodingData shareSize shareBuffer 0
        shareSize := shareSize } := by
  rcases crsssAlignedSecretSize_groups crsss secretSize with ⟨groups, whole, _⟩
  simp only [encoding, crsss, crsssEncoding]
  change (if codec.alignedSecretBufferSize < codec.crsssAlignedSecretSize secretSize then _
    else _) = _
  split
  · rfl
  · rename_i fits
    have room : ¬ codec.erasureCodingDataSize < codec.bytesPerSecretWord *
        (codec.crsssAlignedSecretSize secretSize / codec.bytesPerGroup) * codec.k := by
      rw [whole] at fits ⊢
      rw [Nat.mul_div_cancel_left _ (bytesPerGroup_pos crsss)]
      exact not_lt.mpr (crsss_fits_erasureCodingData crsss (not_lt.mp fits))
    exact if_neg room

theorem encoding_crsss_spec {encoded : codec.Encoded}
    (success : codec.encoding buffers randomKey secretBuffer secretSize shareBuffer =
      .ok encoded) :
    let alignedSecretSize := codec.crsssAlignedSecretSize secretSize
    alignedSecretSize ≤ codec.alignedSecretBufferSize ∧
      encoded.shareSize =
        codec.bytesPerSecretWord * (alignedSecretSize / codec.bytesPerGroup) ∧
      ∃ package : Buffer Byte,
        (∀ position < encoded.shareSize * codec.k, package position =
          codec.crsssPackage (buffers.loadSecret secretBuffer secretSize
            alignedSecretSize).alignedSecretBuffer encoded.shareSize position) ∧
        ∀ id < codec.n, ∀ position < encoded.shareSize,
          encoded.shareBuffer (encoded.shareSize * id + position) =
            codec.share package encoded.shareSize id position := by
  intro alignedSecretSize
  rw [encoding_crsss crsss] at success
  simp only at success
  split at success
  · exact absurd success (by simp)
  · rename_i fits
    have result := Except.ok.inj success
    subst result
    exact ⟨not_lt.mp fits, rfl, _, encodeGroups_spec crsss rfl _,
      fun id bounded position inside => crsss_shareBuffer _ _ _ bounded inside⟩

end Encoding

/-! ## Decoding -/

section Decoding

variable {groups shareSize : Nat}

def GroupPasses (codec : CDCodec gf crypto) (data : Buffer Byte) (shareSize i : Nat) :
    Prop :=
  ∀ j < codec.r, ∀ p < codec.bytesPerSecretWord,
    data (shareSize * (codec.secretWordsPerGroup + j) + codec.bytesPerSecretWord * i + p) =
      crypto.digest (codec.seededGroup (codec.crsssSecret data shareSize) i j) p

/-- The state of the decoder once the groups before `count` have been restored. -/
structure RestoredGroups (codec : CDCodec gf crypto) (data : Buffer Byte)
    (shareSize count : Nat) (buffers : codec.Buffers) : Prop where
  data_kept : buffers.erasureCodingData = data
  secret : ∀ position < codec.bytesPerGroup * count,
    buffers.alignedSecretBuffer position = codec.crsssSecret data shareSize position

private theorem restoreGroup_apply (buffers : codec.Buffers) (i position : Nat) :
    (codec.restoreGroup shareSize buffers i).alignedSecretBuffer position =
      if codec.bytesPerGroup * i ≤ position ∧
          position < codec.bytesPerGroup * i + codec.bytesPerGroup then
        codec.crsssSecret buffers.erasureCodingData shareSize position
      else buffers.alignedSecretBuffer position := by
  apply Buffer.foldl_blocks _ _ _ codec.bytesPerSecretWord
  intro buffer j bounded position
  rw [Buffer.copy_apply]
  split
  · rename_i inside
    have within : position - (codec.bytesPerGroup * i + codec.bytesPerSecretWord * j) <
        codec.bytesPerSecretWord := by omega
    have place : position = codec.bytesPerGroup * i + codec.bytesPerSecretWord * j +
        (position - (codec.bytesPerGroup * i + codec.bytesPerSecretWord * j)) := by omega
    conv_rhs => rw [place, crsssSecret_word _ i bounded within]
    rfl
  · rfl

private theorem checkHash_ok_iff (i : Nat) (buffers : codec.Buffers) (j : Nat) :
    (∃ next, codec.checkHash shareSize i buffers j = .ok next) ↔
      ∀ p < codec.bytesPerSecretWord,
        buffers.erasureCodingData (shareSize * (codec.secretWordsPerGroup + j) +
          codec.bytesPerSecretWord * i + p) =
        crypto.digest (codec.seededGroup buffers.alignedSecretBuffer i j) p := by
  have hashes : ∀ p < codec.bytesPerSecretWord,
      (codec.hashWithSeed i buffers j).rHashes (codec.bytesPerSecretWord * j + p) =
        crypto.digest (codec.seededGroup buffers.alignedSecretBuffer i j) p := by
    intro p inside
    rw [hashWithSeed_rHashes, if_pos (by omega), Nat.add_sub_cancel_left]
  simp only [checkHash, ne_eq, ite_not, Buffer.slice_eq_slice_iff]
  constructor
  · rintro ⟨next, accepted⟩ p inside
    split at accepted
    · rename_i equal
      rw [← hashes p inside, ← equal p inside]
      rfl
    · exact absurd accepted (by simp)
  · intro equal
    refine ⟨_, if_pos fun p inside => ?_⟩
    rw [hashes p inside, ← equal p inside]
    rfl

variable {buffers : codec.Buffers}

private theorem checkHash_keeps {i j : Nat} {next : codec.Buffers}
    (accepted : codec.checkHash shareSize i buffers j = .ok next) :
    next.erasureCodingData = buffers.erasureCodingData ∧
      next.alignedSecretBuffer = buffers.alignedSecretBuffer := by
  simp only [checkHash] at accepted
  split at accepted
  · exact absurd accepted (by simp)
  · rw [← Except.ok.inj accepted]
    exact ⟨rfl, rfl⟩

variable {data : Buffer Byte}

private theorem decodeGroup_spec {i : Nat}
    (restored : RestoredGroups codec data shareSize i buffers) :
    ((∃ next, codec.decodeGroup shareSize buffers i = .ok next) ↔
      codec.GroupPasses data shareSize i) ∧
    ∀ next, codec.decodeGroup shareSize buffers i = .ok next →
      RestoredGroups codec data shareSize (i + 1) next := by
  have secret : ∀ position < codec.bytesPerGroup * (i + 1),
      (codec.restoreGroup shareSize buffers i).alignedSecretBuffer position =
        codec.crsssSecret data shareSize position := by
    intro position inside
    rw [Nat.mul_add_one] at inside
    rw [restoreGroup_apply, restored.data_kept]
    split
    · rfl
    · exact restored.secret position (by omega)
  have group : ∀ j,
      codec.seededGroup (codec.restoreGroup shareSize buffers i).alignedSecretBuffer i j =
        codec.seededGroup (codec.crsssSecret data shareSize) i j :=
    seededGroup_congr fun position inside => secret _ (by rw [Nat.mul_add_one]; omega)
  have loop := Loop.foldlM_range_ok_iff codec.r (codec.checkHash shareSize i)
    (fun j => ∀ p < codec.bytesPerSecretWord,
      data (shareSize * (codec.secretWordsPerGroup + j) + codec.bytesPerSecretWord * i + p) =
        crypto.digest (codec.seededGroup (codec.crsssSecret data shareSize) i j) p)
    (fun _ state => state.erasureCodingData = data ∧ state.alignedSecretBuffer =
      (codec.restoreGroup shareSize buffers i).alignedSecretBuffer)
    (fun j state _ kept => ?pass) (codec.restoreGroup shareSize buffers i)
    ⟨restored.data_kept, rfl⟩
  case pass =>
    rw [checkHash_ok_iff, kept.1, kept.2, group]
    refine ⟨Iff.rfl, ?_⟩
    intro next accepted
    have same := checkHash_keeps accepted
    exact ⟨same.1.trans kept.1, same.2.trans kept.2⟩
  refine ⟨loop.1, ?_⟩
  intro next reached
  have kept := loop.2 next reached
  exact ⟨kept.1, by rw [kept.2]; exact secret⟩

private theorem decodeGroups_spec (groups shareSize : Nat) (buffers : codec.Buffers) :
    ((∃ next, (List.range groups).foldlM (codec.decodeGroup shareSize) buffers =
        .ok next) ↔
      ∀ i < groups, codec.GroupPasses buffers.erasureCodingData shareSize i) ∧
    ∀ next, (List.range groups).foldlM (codec.decodeGroup shareSize) buffers = .ok next →
      RestoredGroups codec buffers.erasureCodingData shareSize groups next :=
  Loop.foldlM_range_ok_iff groups (codec.decodeGroup shareSize)
    (codec.GroupPasses buffers.erasureCodingData shareSize)
    (RestoredGroups codec buffers.erasureCodingData shareSize)
    (fun _ _ _ restored => decodeGroup_spec restored) buffers
    ⟨rfl, fun _ inside => absurd inside (by simp)⟩

/-- What `crsssDecoding` does with shares of an accepted size, in terms of the
only package `data` that has those shares. -/
theorem decoding_crsss_spec (crsss : codec.type = .crsss) (fits : codec.FitsField)
    {kShareIDList : Fin codec.k → Nat} (distinct : Function.Injective kShareIDList)
    (bounded : ∀ position, kShareIDList position < codec.n) {secretSize : Nat}
    (sizes : codec.CrsssAcceptsSizes shareSize secretSize) (buffers : codec.Buffers)
    (shareBuffer secretBuffer : Buffer Byte) :
    let decoding := codec.decoding buffers shareBuffer kShareIDList shareSize secretSize
      secretBuffer
    ∃ data,
      (∀ package, codec.HoldsShares shareBuffer package shareSize kShareIDList ↔
        ∀ position < shareSize * codec.k, data position = package position) ∧
      ((∃ decoded, decoding = .ok decoded) ↔
        ∀ i < shareSize / codec.bytesPerSecretWord,
          codec.GroupPasses data shareSize i) ∧
      ∀ decoded, decoding = .ok decoded → decoded.secretBuffer =
        secretBuffer.copy 0 (codec.crsssSecret data shareSize) secretSize := by
  intro decoding
  rcases recoverBlocks_spec fits distinct bounded buffers shareBuffer shareSize with
    ⟨data, recovery, unique⟩
  have groups := decodeGroups_spec (shareSize / codec.bytesPerSecretWord) shareSize
    { buffers with erasureCodingData := data }
  have succeeds : ∀ decoded, decoding = .ok decoded ↔
      ∃ restored, (List.range (shareSize / codec.bytesPerSecretWord)).foldlM
          (codec.decodeGroup shareSize) { buffers with erasureCodingData := data } =
          .ok restored ∧
        Decoded.mk restored
          (secretBuffer.copy 0 restored.alignedSecretBuffer secretSize) = decoded := by
    intro decoded
    have shape : decoding = ((codec.recoverBlocks buffers shareBuffer kShareIDList
        shareSize).bind fun recovered =>
        ((List.range (shareSize / codec.bytesPerSecretWord)).foldlM
          (codec.decodeGroup shareSize) recovered).bind fun restored =>
        .ok (Decoded.mk restored
          (secretBuffer.copy 0 restored.alignedSecretBuffer secretSize))) := by
      simp only [decoding, CDCodec.decoding, crsss, crsssDecoding, sizes]
      rfl
    rw [shape, recovery]
    simp only [Loop.bind_eq_ok_iff, Except.ok.injEq, exists_eq_left']
  refine ⟨data, unique, ?_, ?_⟩
  · rw [← groups.1]
    constructor
    · rintro ⟨decoded, success⟩
      rcases (succeeds decoded).mp success with ⟨restored, reached, _⟩
      exact ⟨restored, reached⟩
    · rintro ⟨restored, reached⟩
      exact ⟨_, (succeeds _).mpr ⟨restored, reached, rfl⟩⟩
  · intro decoded success
    rcases (succeeds decoded).mp success with ⟨restored, reached, equal⟩
    rw [← equal]
    apply Buffer.copy_congr
    intro position inside
    exact (groups.2 restored reached).secret position (lt_of_lt_of_le inside sizes.2.2.2)

/-! ## Packages and their checks -/

variable {secret : Buffer Byte}

theorem crsssPackage_of_passes (crsss : codec.type = .crsss)
    (size : shareSize = codec.bytesPerSecretWord * groups)
    (passes : ∀ i < groups, codec.GroupPasses data shareSize i)
    (sameSecret : ∀ position < codec.bytesPerGroup * groups,
      secret position = codec.crsssSecret data shareSize position)
    {position : Nat} (inside : position < shareSize * codec.k) :
    codec.crsssPackage secret shareSize position = data position := by
  have blocks := secretWordsPerGroup_add_r crsss
  rcases Layout.exists_words size inside with ⟨block, blockBound, i, wordBound, p, restBound, rfl⟩
  rw [crsssPackage_word size _ _ wordBound restBound, crsssWord]
  split
  · rename_i word
    have within : codec.bytesPerGroup * i + codec.bytesPerSecretWord * block + p <
        codec.bytesPerGroup * groups := by
      rw [Nat.add_assoc]
      exact Layout.block_lt wordBound (Layout.block_lt word restBound)
    rw [sameSecret _ within, crsssSecret_word _ _ word restBound]
  · rename_i hash
    have seed : codec.secretWordsPerGroup + (block - codec.secretWordsPerGroup) = block := by
      omega
    have stored := passes i wordBound (block - codec.secretWordsPerGroup) (by omega) p
      restBound
    have group : codec.seededGroup secret i (block - codec.secretWordsPerGroup) =
        codec.seededGroup (codec.crsssSecret data shareSize) i
          (block - codec.secretWordsPerGroup) :=
      seededGroup_congr (fun position inside =>
        sameSecret _ (Layout.block_lt wordBound inside)) _
    rw [group, ← stored, seed]

theorem crsssSecret_package (crsss : codec.type = .crsss)
    (size : shareSize = codec.bytesPerSecretWord * groups)
    (packaged : ∀ position < shareSize * codec.k,
      data position = codec.crsssPackage secret shareSize position)
    {position : Nat} (inside : position < codec.bytesPerGroup * groups) :
    codec.crsssSecret data shareSize position = secret position := by
  have blocks := secretWordsPerGroup_add_r crsss
  have groupSize : codec.bytesPerGroup =
      codec.bytesPerSecretWord * codec.secretWordsPerGroup := rfl
  rcases Layout.exists_words groupSize inside with
    ⟨i, groupBound, block, word, p, restBound, rfl⟩
  have within : shareSize * block + codec.bytesPerSecretWord * i + p <
      shareSize * codec.k := by
    rw [Nat.add_assoc]
    refine Layout.block_lt (by omega) ?_
    rw [size]
    exact Layout.block_lt groupBound restBound
  rw [crsssSecret_word _ _ word restBound, packaged _ within,
    crsssPackage_word size _ _ groupBound restBound, crsssWord, if_pos word]

theorem groupPasses_package (crsss : codec.type = .crsss)
    (size : shareSize = codec.bytesPerSecretWord * groups)
    (packaged : ∀ position < shareSize * codec.k,
      data position = codec.crsssPackage secret shareSize position)
    {i : Nat} (bounded : i < groups) : codec.GroupPasses data shareSize i := by
  have blocks := secretWordsPerGroup_add_r crsss
  intro j early p inside
  have within : shareSize * (codec.secretWordsPerGroup + j) +
      codec.bytesPerSecretWord * i + p < shareSize * codec.k := by
    rw [Nat.add_assoc]
    refine Layout.block_lt (by omega) ?_
    rw [size]
    exact Layout.block_lt bounded inside
  have group : codec.seededGroup (codec.crsssSecret data shareSize) i j =
      codec.seededGroup secret i j :=
    seededGroup_congr (fun position inside =>
      crsssSecret_package crsss size packaged (Layout.block_lt bounded inside)) j
  rw [packaged _ within, crsssPackage_word size _ _ bounded inside, crsssWord,
    if_neg (by omega), Nat.add_sub_cancel_left, group]

end Decoding

end MetaDedup.CDCodec
