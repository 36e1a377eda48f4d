import MetaDedup.Client.CDCodec.RoundTrip

/-! # Convergent encoding

The key of a convergent codec is the hash of the secret. The shares are then a function
of the secret: they depend neither on what earlier calls have left in the memory of the
object nor on what the arrays for the secret and for the shares hold beside it. -/

namespace MetaDedup.CDCodec

open Foundation

variable {gf : GaloisField} {crypto : CryptoPrimitive} {codec : CDCodec gf crypto}

theorem rsAlignedSecretSize_lt (codec : CDCodec gf crypto) (secretSize : Nat) :
    codec.rsAlignedSecretSize secretSize <
      secretSize + codec.bytesPerSecretWord * codec.k := by
  have positive := codec.word_mul_k_pos
  have divided := Nat.div_add_mod (secretSize + codec.bytesPerSecretWord)
    (codec.bytesPerSecretWord * codec.k)
  rw [rsAlignedSecretSize]
  split
  · exact Nat.lt_add_of_pos_right positive
  · rw [Nat.mul_add, Nat.mul_one]
    omega

theorem rsAlignedSecretSize_le (codec : CDCodec gf crypto) (secretSize : Nat) :
    codec.rsAlignedSecretSize secretSize ≤
      secretSize + codec.bytesPerSecretWord * codec.k :=
  (codec.rsAlignedSecretSize_lt secretSize).le

theorem rsAlignedSecretSize_fits (systematic : codec.type ≠ .crsss) {secretSize : Nat}
    (bounded : secretSize ≤ maxSecretSize) :
    codec.rsAlignedSecretSize secretSize ≤ codec.alignedSecretBufferSize := by
  have padded := codec.rsAlignedSecretSize_le secretSize
  cases type : codec.type with
  | crsss => exact absurd type systematic
  | aontRS | oldCaontRS | caontRS =>
      rw [alignedSecretBufferSize, type]
      exact padded.trans (Nat.add_le_add_right bounded _)

section Shares

variable {leftBuffers rightBuffers : codec.Buffers}
variable {leftRandom rightRandom leftSecret rightSecret : Buffer Byte}
variable {leftShares rightShares : Buffer Byte} {secretSize : Nat}
variable {left right : codec.Encoded}

private theorem package_convergent (convergent : codec.type ≠ .aontRS)
    (same : ∀ position < secretSize, leftSecret position = rightSecret position)
    {position : Nat}
    (inside : position < codec.rsAlignedSecretSize secretSize + codec.bytesPerSecretWord) :
    (codec.format (codec.rsAlignedSecretSize secretSize)).package
        (codec.keyed leftBuffers leftRandom leftSecret secretSize).key
        (codec.keyed leftBuffers leftRandom leftSecret secretSize).alignedSecretBuffer
        position =
      (codec.format (codec.rsAlignedSecretSize secretSize)).package
        (codec.keyed rightBuffers rightRandom rightSecret secretSize).key
        (codec.keyed rightBuffers rightRandom rightSecret secretSize).alignedSecretBuffer
        position := by
  have sameSecret : ∀ position < codec.rsAlignedSecretSize secretSize,
      (codec.keyed leftBuffers leftRandom leftSecret secretSize).alignedSecretBuffer
          position =
        (codec.keyed rightBuffers rightRandom rightSecret secretSize).alignedSecretBuffer
          position := by
    intro position within
    rw [keyed_secret within, keyed_secret within]
    split
    · exact same position (by assumption)
    · rfl
  apply AllOrNothing.package_congr
  · intro position within
    rw [keyed_key convergent within, keyed_key convergent within]
    congr 1
    exact Buffer.slice_zero_congr sameSecret
  · exact sameSecret
  · exact inside

theorem slice_shares_congr {size : Nat} {leftPackage rightPackage : Buffer Byte}
    (leftShare : ∀ id < codec.n, ∀ position < size,
      leftShares (size * id + position) = codec.share leftPackage size id position)
    (rightShare : ∀ id < codec.n, ∀ position < size,
      rightShares (size * id + position) = codec.share rightPackage size id position)
    (agree : ∀ place < size * codec.k, leftPackage place = rightPackage place) :
    leftShares.slice 0 (codec.n * size) = rightShares.slice 0 (codec.n * size) := by
  apply Buffer.slice_congr
  intro position inside
  have positive : 0 < size := Nat.pos_of_lt_mul_left inside
  have bounded : position / size < codec.n := Nat.div_lt_of_lt_mul (by
    rwa [Nat.mul_comm])
  have within : position % size < size := Nat.mod_lt _ positive
  rw [Nat.zero_add, ← Nat.div_add_mod position size, leftShare _ bounded _ within,
    rightShare _ bounded _ within]
  exact share_congr agree _ within

section

variable
  (same : ∀ position < secretSize, leftSecret position = rightSecret position)
  (leftSuccess : codec.encoding leftBuffers leftRandom leftSecret secretSize leftShares =
    .ok left)
  (rightSuccess : codec.encoding rightBuffers rightRandom rightSecret secretSize rightShares =
    .ok right)
include same leftSuccess rightSuccess

theorem encoding_convergent (systematic : codec.type ≠ .crsss)
    (convergent : codec.type ≠ .aontRS) :
    left.shareSize = right.shareSize ∧
      left.shareBuffer.slice 0 (codec.n * left.shareSize) =
        right.shareBuffer.slice 0 (codec.n * right.shareSize) := by
  rcases encoding_systematic_spec systematic leftSuccess with
    ⟨_, _, leftSize, leftPackage, leftPackaged, leftShare⟩
  rcases encoding_systematic_spec systematic rightSuccess with
    ⟨_, _, rightSize, rightPackage, rightPackaged, rightShare⟩
  rcases codec.rsAlignedSecretSize_rows secretSize with ⟨rows, filled, _⟩
  have size : left.shareSize = right.shareSize := leftSize.trans rightSize.symm
  have whole := rsShareSize_mul_k filled
  rw [← leftSize] at whole
  refine ⟨size, ?_⟩
  rw [← size] at rightShare ⊢
  apply slice_shares_congr leftShare rightShare
  intro place early
  rw [← whole] at early
  rw [leftPackaged place early, rightPackaged place early]
  exact package_convergent convergent same early

private theorem encoding_crsss_convergent (crsss : codec.type = .crsss) :
    left.shareSize = right.shareSize ∧
      left.shareBuffer.slice 0 (codec.n * left.shareSize) =
        right.shareBuffer.slice 0 (codec.n * right.shareSize) := by
  rcases encoding_crsss_spec crsss leftSuccess with
    ⟨_, leftSize, leftPackage, leftPackaged, leftShare⟩
  rcases encoding_crsss_spec crsss rightSuccess with
    ⟨_, rightSize, rightPackage, rightPackaged, rightShare⟩
  rcases crsssAlignedSecretSize_groups crsss secretSize with ⟨groups, whole, covers⟩
  have groupCount : codec.crsssAlignedSecretSize secretSize / codec.bytesPerGroup = groups := by
    rw [whole, Nat.mul_div_cancel_left _ (bytesPerGroup_pos crsss)]
  have size : left.shareSize = right.shareSize := leftSize.trans rightSize.symm
  refine ⟨size, ?_⟩
  rw [← size] at rightShare rightPackaged ⊢
  apply slice_shares_congr leftShare rightShare
  intro place early
  rw [leftPackaged place early, rightPackaged place early]
  rw [groupCount] at leftSize
  apply crsssPackage_congr leftSize _ early
  intro position inside
  rw [← whole] at inside
  rw [loadSecret_apply _ _ covers inside, loadSecret_apply _ _ covers inside]
  split
  · exact same position (by assumption)
  · rfl

end

def EncodesSize (codec : CDCodec gf crypto) (secretSize : Nat) : Prop :=
  if codec.type = .crsss then
    codec.crsssAlignedSecretSize secretSize ≤ codec.alignedSecretBufferSize
  else
    codec.rsAlignedSecretSize secretSize ≤ codec.alignedSecretBufferSize ∧
      codec.EncryptsWholeBlocks (codec.rsAlignedSecretSize secretSize)

theorem encoding_ok_iff (buffers : codec.Buffers)
    (randomKey secretBuffer shareBuffer : Buffer Byte) (secretSize : Nat) :
    (∃ encoded, codec.encoding buffers randomKey secretBuffer secretSize shareBuffer =
      .ok encoded) ↔ codec.EncodesSize secretSize := by
  rw [EncodesSize]
  by_cases crsss : codec.type = .crsss
  · rw [if_pos crsss]
    constructor
    · rintro ⟨encoded, success⟩
      exact (encoding_crsss_spec crsss success).1
    · intro fits
      rw [encoding_crsss crsss]
      simp only [if_neg (not_lt.mpr fits)]
      exact ⟨_, rfl⟩
  · rw [if_neg crsss]
    constructor
    · rintro ⟨encoded, success⟩
      rcases encoding_systematic_spec crsss success with ⟨fits, blocks, _⟩
      exact ⟨fits, blocks⟩
    · rintro ⟨fits, blocks⟩
      exact encoding_systematic_ok crsss fits blocks

end Shares

/-! ## Earlier calls -/

/-- A call of one of the two operations, with its arguments. -/
inductive Call (codec : CDCodec gf crypto)
  | encoding (randomKey secretBuffer : Buffer Byte) (secretSize : Nat)
      (shareBuffer : Buffer Byte)
  | decoding (shareBuffer : Buffer Byte) (kShareIDList : Fin codec.k → Nat)
      (shareSize secretSize : Nat) (secretBuffer : Buffer Byte)

namespace Buffers

def afterCall (buffers : codec.Buffers) : codec.Call → codec.Buffers
  | .encoding randomKey secretBuffer secretSize shareBuffer =>
      match codec.encoding buffers randomKey secretBuffer secretSize shareBuffer with
      | .ok encoded => encoded.buffers
      | .error left => left
  | .decoding shareBuffer kShareIDList shareSize secretSize secretBuffer =>
      match codec.decoding buffers shareBuffer kShareIDList shareSize secretSize
          secretBuffer with
      | .ok decoded => decoded.buffers
      | .error left => left

/-- The memory of a new object. The constructor clears the index word, and `malloc` leaves
anything in the rest. -/
def construct (memory : codec.Buffers) : codec.Buffers :=
  { memory with wordForIndex := .zero codec }

def afterCalls (memory : codec.Buffers) (calls : List codec.Call) : codec.Buffers :=
  calls.foldl afterCall memory.construct

end Buffers

/-- What the caller of `encoding` gets: the size of the shares and the shares, if the call
returns 1. -/
def outcome (result : Except codec.Buffers codec.Encoded) : Option (Nat × List Byte) :=
  match result with
  | .ok encoded =>
      some (encoded.shareSize, encoded.shareBuffer.slice 0 (codec.n * encoded.shareSize))
  | .error _ => none

/-- Two objects encode a secret alike, whatever they have been used for. -/
theorem encoding_history_independent (convergent : codec.type ≠ .aontRS)
    (leftMemory rightMemory : codec.Buffers) (leftCalls rightCalls : List codec.Call)
    (leftRandom rightRandom leftShares rightShares : Buffer Byte)
    {leftSecret rightSecret : Buffer Byte} {secretSize : Nat}
    (same : ∀ position < secretSize, leftSecret position = rightSecret position) :
    outcome (codec.encoding (leftMemory.afterCalls leftCalls) leftRandom leftSecret
        secretSize leftShares) =
      outcome (codec.encoding (rightMemory.afterCalls rightCalls) rightRandom rightSecret
        secretSize rightShares) := by
  have leftSucceeds := encoding_ok_iff (leftMemory.afterCalls leftCalls) leftRandom
    leftSecret leftShares secretSize
  have rightSucceeds := encoding_ok_iff (rightMemory.afterCalls rightCalls) rightRandom
    rightSecret rightShares secretSize
  cases leftResult : codec.encoding (leftMemory.afterCalls leftCalls) leftRandom leftSecret
    secretSize leftShares with
  | error _ =>
      cases rightResult : codec.encoding (rightMemory.afterCalls rightCalls) rightRandom
        rightSecret secretSize rightShares with
      | error _ => rfl
      | ok right =>
          rcases leftSucceeds.mpr (rightSucceeds.mp ⟨right, rightResult⟩) with
            ⟨left, success⟩
          cases leftResult.symm.trans success
  | ok left =>
      rcases rightSucceeds.mpr (leftSucceeds.mp ⟨left, leftResult⟩) with ⟨right, rightResult⟩
      rw [rightResult, outcome, outcome]
      by_cases crsss : codec.type = .crsss
      · rcases encoding_crsss_convergent same leftResult rightResult crsss with ⟨size, shares⟩
        rw [shares, size]
      · rcases encoding_convergent same leftResult rightResult crsss convergent with
          ⟨size, shares⟩
        rw [shares, size]

def twoCalls : List defaultCodec.Call :=
  [.encoding (fun _ => 0#8) (fun _ => 1#8) 7 (fun _ => 0#8),
    .decoding (fun _ => 0#8) (fun j => j.val) 32 5 (fun _ => 0#8)]

/-- A new object and one that has been used give the same shares. -/
theorem encoding_history_independent_default :
    ∃ shares,
      outcome (defaultCodec.encoding ((Buffers.zero defaultCodec).afterCalls []) (fun _ => 0#8)
        (BitVec.ofNat 8) 5 (fun _ => 0#8)) = some shares ∧
      outcome (defaultCodec.encoding ((Buffers.zero defaultCodec).afterCalls twoCalls)
        (fun _ => 1#8) (BitVec.ofNat 8) 5 (fun _ => 1#8)) = some shares := by
  have encodes : ∃ encoded, defaultCodec.encoding ((Buffers.zero defaultCodec).afterCalls [])
      (fun _ => 0#8) (BitVec.ofNat 8) 5 (fun _ => 0#8) = .ok encoded :=
    encoding_systematic_ok (by decide) (by decide)
      (show CryptoPrimitive.checksumPair.WholeBlocks 64 by decide)
  rcases encodes with ⟨encoded, success⟩
  have bytes : ∀ position < 5, BitVec.ofNat 8 position = BitVec.ofNat 8 position :=
    fun _ _ => rfl
  have same := encoding_history_independent (show defaultCodec.type ≠ .aontRS by decide)
    (.zero _) (.zero _) [] twoCalls (fun _ => 0#8)
    (fun _ => 1#8) (fun _ => 0#8) (fun _ => 1#8) bytes
  rw [success] at same ⊢
  exact ⟨_, rfl, same.symm⟩

end MetaDedup.CDCodec
