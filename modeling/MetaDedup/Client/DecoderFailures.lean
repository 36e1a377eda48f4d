import MetaDedup.Client.DecoderPipeline

/-! # Shares that cannot be decoded

A decoder thread passes the array for the secret on whatever the codec has returned. If the
codec rejects the shares, the array still holds what was in the memory of the thread, and
the collect thread writes as many bytes of it to the file as the secret should have. -/

namespace MetaDedup.Decoder

open Foundation

variable {gf : GaloisField} {crypto : CryptoPrimitive}

/-! ## Calls of the codec -/

/-- The shares of a secret as the servers have sent them: there are `k` of the announced
size. -/
structure Retrieved (codec : CDCodec gf crypto) where
  chunk : ShareChunk
  complete : chunk.data.length = chunk.shareSize * codec.k

structure Attempt (codec : CDCodec gf crypto) where
  shares : Retrieved codec
  memory : DecodeMemory codec

variable {codec : CDCodec gf crypto}

def Attempt.secret (kShareIDList : Fin codec.k → Nat) (attempt : Attempt codec) : List Byte :=
  decode codec kShareIDList attempt.memory attempt.shares.chunk

def Attempt.Succeeds (kShareIDList : Fin codec.k → Nat) (attempt : Attempt codec) : Prop :=
  ∃ decoded, codec.decoding attempt.memory.buffers
    (attempt.memory.shareBuffer.write 0 attempt.shares.chunk.data) kShareIDList
    attempt.shares.chunk.shareSize attempt.shares.chunk.secretSize
    attempt.memory.secretBuffer = .ok decoded

/-- The shares have sizes that the codec accepts and are those it makes of some secret. -/
def Retrieved.Genuine (kShareIDList : Fin codec.k → Nat) (shares : Retrieved codec) : Prop :=
  codec.RSAcceptsSizes shares.chunk.shareSize shares.chunk.secretSize ∧
    ∃ buffers randomKey shareBuffer secret, codec.ProducedFrom buffers randomKey shareBuffer
      secret (Buffer.ofList shares.chunk.data 0) shares.chunk.shareSize kShareIDList

section Calls

variable {kShareIDList : Fin codec.k → Nat}

private theorem laidOut_write (shares : Retrieved codec) (memory encoded : Buffer Byte) :
    codec.LaidOut (memory.write 0 shares.chunk.data) encoded shares.chunk.shareSize
        kShareIDList ↔
      codec.LaidOut (Buffer.ofList shares.chunk.data 0) encoded shares.chunk.shareSize
        kShareIDList := by
  have same : ∀ (j : Fin codec.k) (position : Nat), position < shares.chunk.shareSize →
      memory.write 0 shares.chunk.data (shares.chunk.shareSize * j.val + position) =
        Buffer.ofList shares.chunk.data 0 (shares.chunk.shareSize * j.val + position) := by
    intro j position inside
    have row : shares.chunk.shareSize * (j.val + 1) ≤ shares.chunk.shareSize * codec.k :=
      Nat.mul_le_mul_left _ j.isLt
    have stored : shares.chunk.shareSize * j.val + position < shares.chunk.data.length := by
      rw [shares.complete]
      rw [Nat.mul_succ] at row
      omega
    rw [Buffer.write, if_pos (Nat.zero_le _), Nat.sub_zero, List.getElem?_eq_getElem stored,
      Buffer.ofList, List.getD_eq_getElem?_getD, List.getElem?_eq_getElem stored]
    rfl
  constructor
  · intro laidOut j position inside
    rw [← same j position inside]
    exact laidOut j position inside
  · intro laidOut j position inside
    rw [same j position inside]
    exact laidOut j position inside

/-- A call returns 1 exactly if the shares are genuine, whatever it finds in the memory. -/
theorem Attempt.succeeds_iff (caontRS : codec.type = .caontRS) (fits : codec.FitsField)
    (distinct : Function.Injective kShareIDList)
    (bounded : ∀ position, kShareIDList position < codec.n) (attempt : Attempt codec) :
    attempt.Succeeds kShareIDList ↔ attempt.shares.Genuine kShareIDList := by
  have systematic : codec.type ≠ .crsss := by rw [caontRS]; decide
  have convergent : codec.type ≠ .aontRS := by rw [caontRS]; decide
  have produced : ∀ buffers randomKey shareBuffer secret,
      codec.ProducedFrom buffers randomKey shareBuffer secret
        (attempt.memory.shareBuffer.write 0 attempt.shares.chunk.data)
        attempt.shares.chunk.shareSize kShareIDList ↔
      codec.ProducedFrom buffers randomKey shareBuffer secret
        (Buffer.ofList attempt.shares.chunk.data 0) attempt.shares.chunk.shareSize
        kShareIDList := by
    intro buffers randomKey shareBuffer secret
    simp only [CDCodec.ProducedFrom, laidOut_write]
  by_cases sizes : codec.RSAcceptsSizes attempt.shares.chunk.shareSize
      attempt.shares.chunk.secretSize
  · have accepts : ∀ buffers randomKey shareBuffer, attempt.Succeeds kShareIDList ↔
        ∃ secret, codec.ProducedFrom buffers randomKey shareBuffer secret
          (attempt.memory.shareBuffer.write 0 attempt.shares.chunk.data)
          attempt.shares.chunk.shareSize kShareIDList :=
      fun _ _ _ => CDCodec.decoding_systematic_accepts systematic convergent fits distinct
        bounded sizes
    constructor
    · intro succeeds
      rcases (accepts attempt.memory.buffers (fun _ => 0) fun _ => 0).mp succeeds with
        ⟨secret, from_secret⟩
      exact ⟨sizes, _, _, _, secret, (produced _ _ _ secret).mp from_secret⟩
    · rintro ⟨_, buffers, randomKey, shareBuffer, secret, from_secret⟩
      exact (accepts buffers randomKey shareBuffer).mpr
        ⟨secret, (produced _ _ _ secret).mpr from_secret⟩
  · constructor
    · rintro ⟨decoded, success⟩
      rw [CDCodec.decoding_systematic systematic] at success
      simp only [if_neg sizes] at success
      cases success
    · exact fun genuine => absurd genuine.1 sizes

theorem Attempt.secret_of_not_succeeds {attempt : Attempt codec}
    (fails : ¬attempt.Succeeds kShareIDList) :
    attempt.secret kShareIDList =
      attempt.memory.secretBuffer.slice 0 attempt.shares.chunk.secretSize := by
  rw [Attempt.secret, decode]
  split
  next decoded success => exact absurd ⟨decoded, success⟩ fails
  next => rfl

end Calls

/-! ## Downloads -/

open Threads (Step Sound)

/-- What a decoder thread makes of the shares of a secret. -/
def Works (kShareIDList : Fin codec.k → Nat) (attempt : Attempt codec) (secret : List Byte) :
    Prop :=
  secret = attempt.secret kShareIDList

/-- What the collect thread has written or has in its buffer comes from calls that have
returned 1: for each secret it has counted, the call for its shares has. -/
def OnlyDecoded (kShareIDList : Fin codec.k → Nat) (attempts : List (Attempt codec))
    (state : Threads (Attempt codec)) : Prop :=
  state.output.bytes =
      ((attempts.take state.output.count).map (Attempt.secret kShareIDList)).flatten ∧
    ∀ attempt ∈ attempts.take state.output.count, attempt.Succeeds kShareIDList

private theorem bytes_eq_of_sound {kShareIDList : Fin codec.k → Nat}
    {attempts : List (Attempt codec)}
    {state : Threads (Attempt codec)}
    (sound : Sound (Attempt.secret kShareIDList) attempts state) :
    state.output.bytes =
      ((attempts.take state.output.count).map (Attempt.secret kShareIDList)).flatten := by
  have first : attempts.take state.output.count =
      state.pipeline.added.take state.pipeline.extracted.length := by
    rw [sound.output.count, ← sound.inOrder.whole,
      List.take_append_of_le_length sound.inOrder.behind]
  rw [first, ← sound.inOrder.extracted, sound.output.bytes]

/-- In a download of some shares, in every run and with any memory, nothing but decoded
secrets gets to the file. -/
def NeverCorrupted (kShareIDList : Fin codec.k → Nat) (retrieved : List (Retrieved codec)) :
    Prop :=
  ∀ (attempts : List (Attempt codec)) (totalSecrets : Nat) (buf : Buffer Byte)
    (state : Threads (Attempt codec)),
    attempts.map Attempt.shares = retrieved →
    Relation.ReflTransGen (Step (Works kShareIDList)) (.start attempts totalSecrets buf) state →
    OnlyDecoded kShareIDList attempts state

open Encoder (plainCodec)
open Threads (plainCodec_fitsField)

def firstShares : Fin plainCodec.k → Nat := fun position => position.val

theorem firstShares_injective : Function.Injective firstShares := Fin.val_injective

theorem firstShares_lt (position : Fin plainCodec.k) : firstShares position < plainCodec.n :=
  Nat.lt_succ_of_lt position.isLt

private theorem equalShares_complete (byte : Byte) :
    (List.replicate 96 byte).length = 32 * plainCodec.k :=
  List.length_replicate

/-- Three shares of 32 bytes that are all the same, for a secret of five bytes. -/
def equalShares (byte : Byte) : Retrieved plainCodec :=
  ⟨⟨List.replicate 96 byte, 5, 32⟩, equalShares_complete byte⟩

/-- With hashes of zeros, shares of zeros are accepted and others of equal bytes are not. -/
theorem equalShares_succeeds_iff (byte : Byte) (memory : DecodeMemory plainCodec) :
    Attempt.Succeeds firstShares ⟨equalShares byte, memory⟩ ↔ byte = 0 := by
  have sizes : plainCodec.RSAcceptsSizes 32 5 := by decide
  have systematic : plainCodec.type ≠ .crsss := by decide
  rcases CDCodec.decoding_systematic_spec systematic plainCodec_fitsField firstShares_injective
    firstShares_lt sizes memory.buffers
      (memory.shareBuffer.write 0 (List.replicate 96 byte)) memory.secretBuffer with
    ⟨data, unique, accepts, _⟩
  have holds : plainCodec.HoldsShares (memory.shareBuffer.write 0 (List.replicate 96 byte))
      (memory.shareBuffer.write 0 (List.replicate 96 byte)) 32 firstShares := by
    intro j position _
    exact (CDCodec.share_systematic systematic _ 32 j.isLt position).symm
  have stored : ∀ position < 96, data position = byte := by
    intro position inside
    rw [(unique _).mp holds position inside, Buffer.write, if_pos (Nat.zero_le _), Nat.sub_zero,
      List.getElem?_replicate, if_pos inside]
    rfl
  have wholeBlocks : plainCodec.EncryptsWholeBlocks
      (32 * plainCodec.k - plainCodec.bytesPerSecretWord) := by
    rfl
  refine accepts.trans ⟨?_, ?_⟩
  · rintro ⟨_, passes⟩
    have first := passes (by decide) 0 (by decide)
    rw [AllOrNothing.keyOf, stored _ (by decide)] at first
    change 0#8 = 0#8 ^^^ byte at first
    rw [BitVec.zero_xor] at first
    exact first.symm
  · rintro rfl
    refine ⟨wholeBlocks, fun _ position inside => ?_⟩
    have behind : 64 + position < 96 := by
      change position < 32 at inside
      omega
    rw [AllOrNothing.keyOf]
    change 0#8 = 0#8 ^^^ data (64 + position)
    rw [stored _ behind, BitVec.zero_xor]
    rfl

/-- The array of a decoder thread for the secret holds nines. -/
def staleMemory : DecodeMemory plainCodec :=
  { DecodeMemory.zero plainCodec with secretBuffer := fun _ => 9 }

end MetaDedup.Decoder
