import MetaDedup.Client.EncoderPipeline
import MetaDedup.Server.DedupIntegrity
import MetaDedup.Wire.FileNames

/-! # Fingerprints of the client and of the server

The client computes the fingerprint of a share with the hash function of its security
setting. The server computes it again, always with SHA-256, and gives up when it gets
another one. -/

namespace MetaDedup.Upload

open Foundation Wire Encoder
open Server (Fingerprint ShareCursor ShareMDEntry fpSize)

/-! ## The two sides -/

variable {openssl : OpenSSL} {shareFP : Fingerprint}

/-- The setting `main` looks for. -/
def highSetting : List Byte := ascii ['H', 'I', 'G', 'H']

/-- How `main` reads the security setting: `strncmp` compares four characters. -/
def parseSecureType (securesetting : List Byte) : SecureType :=
  if securesetting.take 4 = highSetting then .high else .low

/-- The fingerprint the server computes from a share, in an array that holds `shareFP`
before. -/
def recomputedFP (openssl : OpenSSL) (shareFP : Buffer Byte) (share : List Byte) :
    Fingerprint :=
  fingerprintOf ((openssl.cryptoPrimitive .sha256).generateHash (.ofList share 0)
    share.length shareFP 0)

theorem recomputedFP_bytes (openssl : OpenSSL) (shareFP : Buffer Byte) (share : List Byte) :
    (recomputedFP openssl shareFP share).bytes = (openssl.sha256 share).slice 0 fpSize := by
  have data : (Buffer.ofList share 0).slice 0 share.length = share :=
    (Buffer.slice_getD share 0 (Nat.le_refl _)).trans (List.take_length ..)
  have hashed := fingerprintOf_take (openssl.cryptoPrimitive .sha256) (.ofList share 0)
    share.length shareFP (Nat.le_refl 32) (Nat.le_refl fpSize)
  rw [data] at hashed
  have size := (recomputedFP openssl shareFP share).size_eq
  exact (List.take_of_length_le (Nat.le_of_eq size)).symm.trans hashed

/-- The server accepts a fingerprint for a share: it computes the same, and where the share
comes with the fingerprint it goes on as if it did not check. -/
structure Accepts (openssl : OpenSSL) (shareFP : Fingerprint) (share : List Byte) : Prop where
  recomputed : ∀ stale, recomputedFP openssl stale share = shareFP
  placed : ∀ (stale : Buffer Byte) (userID : Int) (intraUserDupStatList : Nat → Bool)
    (shareDataBuffer : Buffer Byte) (cursor : ShareCursor) (entry : ShareMDEntry),
    entry.shareFP = shareFP →
    (shareDataBuffer.advance cursor.shareDataBufferOffset).slice 0 entry.shareSize = share →
    cursor.placeShare (recomputedFP openssl stale) userID intraUserDupStatList
        shareDataBuffer entry =
      cursor.placeShare (fun _ => entry.shareFP) userID intraUserDupStatList
        shareDataBuffer entry

private theorem accepts_of_recomputed
    {share : List Byte} (recomputed : ∀ stale, recomputedFP openssl stale share = shareFP) :
    Accepts openssl shareFP share := by
  refine ⟨recomputed, ?_⟩
  intro stale userID intraUserDupStatList shareDataBuffer cursor entry equal received
  simp only [ShareCursor.placeShare, received, recomputed stale, equal]

theorem accepts_of_sha256 {share : List Byte}
    (hashed : shareFP.bytes.take fpSize = (openssl.sha256 share).slice 0 fpSize) :
    Accepts openssl shareFP share := by
  apply accepts_of_recomputed
  intro stale
  apply Fingerprint.eq_of_bytes
  rw [recomputedFP_bytes, ← hashed]
  exact List.take_of_length_le (Nat.le_of_eq shareFP.size_eq)

/-- The server accepts the fingerprints of all shares and metadata chunks that are handed
over for a cloud. -/
structure AcceptsAll (openssl : OpenSSL) (output : CloudOutput) : Prop where
  shares : ∀ share isEnd, .share share isEnd ∈ output.items →
    Accepts openssl share.shareFP share.data
  chunks : ∀ chunk ∈ output.collection.chunks,
    Accepts openssl chunk.shareFP (chunk.data.slice 0 chunk.shareSize)

/-- Client and server agree: whatever a client with this setting hands over, for every
codec, every cloud, all secrets and any contents of its memory, the server accepts the
fingerprints. -/
def FingerprintsAgree (openssl : OpenSSL) (securetype : SecureType) : Prop :=
  ∀ (gf : GaloisField) (codec : CDCodec gf (openssl.cryptoPrimitive securetype.cryptoType))
    (secrets : List (SecretItem × EncodeMemory codec)) (metaChunkBuffer : Buffer Byte)
    (memory : Nat → CollectMemory codec), ∀ cloud < codec.n,
    AcceptsAll openssl (CloudOutput.collect codec cloud metaChunkBuffer memory
      (secrets.map fun secret => encodeItem codec secret.2 secret.1))

/-! ## The high setting -/

section High

variable {openssl : OpenSSL} {gf : GaloisField}
variable {codec : CDCodec gf (openssl.cryptoPrimitive .highSecPair)}

private theorem cutChunk_accepts (collector : Collector) (memory : StackMemory) (isEnd : Bool) :
    let chunk := (collector.cutChunk (openssl.cryptoPrimitive .highSecPair) memory isEnd).1
    Accepts openssl chunk.shareFP (chunk.data.slice 0 chunk.shareSize) := by
  intro chunk
  exact accepts_of_sha256 (fingerprintOf_take _ _ _ _ (Nat.le_refl 32) (Nat.le_refl fpSize))

theorem AcceptsAll.add {cloud : Nat} (listed : cloud < codec.n) {output : CloudOutput}
    (accepted : AcceptsAll openssl output) {item : ShareChunkItem}
    (holds : item.HoldsShares codec.n) (memory : CollectMemory codec) :
    AcceptsAll openssl (output.add codec cloud (item, memory)) := by
  cases item with
  | file head =>
      refine ⟨?_, accepted.chunks⟩
      intro share isEnd member
      rcases List.mem_append.mp member with earlier | new
      · exact accepted.shares share isEnd earlier
      · cases List.mem_singleton.mp new
  | share chunk =>
      constructor
      · intro share isEnd member
        rcases List.mem_append.mp member with earlier | new
        · exact accepted.shares share isEnd earlier
        · cases List.mem_singleton.mp new
          exact accepts_of_sha256 (shareObject_shareFP _ memory.node holds listed
            (Nat.le_refl 32) (Nat.le_refl fpSize))
      · intro cut member
        rw [CloudOutput.add] at member
        simp only [Collection.add_eq] at member
        split at member
        · rcases List.mem_append.mp member with earlier | new
          · exact accepted.chunks cut earlier
          · rw [List.mem_singleton.mp new]
            exact cutChunk_accepts _ _ _
        · exact accepted.chunks cut member

theorem AcceptsAll.addAll {cloud : Nat} (listed : cloud < codec.n)
    (items : List (ShareChunkItem × CollectMemory codec))
    (holds : ∀ item ∈ items, item.1.HoldsShares codec.n) {output : CloudOutput}
    (accepted : AcceptsAll openssl output) :
    AcceptsAll openssl (output.addAll codec cloud items) := by
  induction items generalizing output with
  | nil => exact accepted
  | cons item items induction =>
      rcases List.forall_mem_cons.mp holds with ⟨first, rest⟩
      exact induction rest (accepted.add listed first item.2)

private theorem fingerprintsAgree_high (openssl : OpenSSL) : FingerprintsAgree openssl .high := by
  intro gf codec secrets metaChunkBuffer memory cloud listed
  apply AcceptsAll.addAll listed
  · intro item member
    rcases List.mem_map.mp member with ⟨numbered, inside, rfl⟩
    rcases List.mem_map.mp (List.fst_mem_of_mem_zipIdx inside) with ⟨secret, _, image⟩
    rw [← image]
    exact encodeItem_holdsShares codec _ secret.1
  · constructor
    · intro share isEnd member
      cases member
    · intro chunk member
      cases member

end High

/-! ## The low setting -/

def lowCodec (openssl : OpenSSL) := defaultCodec GaloisField.complete openssl .low

/-- The share of a secret for the first cloud. -/
def firstShare (openssl : OpenSSL) (secret : Secret) : List Byte :=
  let encoded := encode (lowCodec openssl) (.zero _) secret.data
  encoded.2.slice 0 encoded.1

/-- The two hash functions differ at a share: the first 16 bytes of the SHA-256 value are
not the MD5 value. -/
def DigestsDiffer (openssl : OpenSSL) (share : List Byte) : Prop :=
  (openssl.md5 share).slice 0 16 ≠ (openssl.sha256 share).slice 0 16

/-- What a client with the low setting hands over for the first cloud when it has one
secret. -/
def lowOutput (openssl : OpenSSL) (secret : Secret) : CloudOutput :=
  CloudOutput.collect (lowCodec openssl) 0 (fun _ => 0) (fun _ => .zero _)
    [encodeItem (lowCodec openssl) (.zero _) (.secret secret)]

private theorem encodeItem_firstShare (openssl : OpenSSL) (secret : Secret) :
    ∃ chunk, encodeItem (lowCodec openssl) (.zero _) (.secret secret) = .share chunk ∧
      chunk.isEnd = secret.isEnd ∧ ∀ memory,
        (shareObject (openssl.cryptoPrimitive .lowSecPair) memory chunk 0).data =
          firstShare openssl secret := by
  refine ⟨_, rfl, rfl, ?_⟩
  intro memory
  rw [shareObject, Nat.zero_mul, List.drop_zero]
  exact Buffer.slice_take _ _ (Nat.le_mul_of_pos_left _ (Nat.succ_pos 3))

private theorem lowOutput_items (openssl : OpenSSL) (secret : Secret) :
    ∃ share, (lowOutput openssl secret).items = [.share share secret.isEnd] ∧
      share.data = firstShare openssl secret ∧
      share.shareFP.bytes.take 16 =
        (openssl.md5 (firstShare openssl secret)).slice 0 16 := by
  have holds := encodeItem_holdsShares (lowCodec openssl) (.zero _) (.secret secret)
  rw [lowOutput]
  rcases encodeItem_firstShare openssl secret with ⟨chunk, made, ends, data⟩
  rw [made] at holds ⊢
  refine ⟨shareObject (openssl.cryptoPrimitive .lowSecPair)
    (CollectMemory.zero (lowCodec openssl)).node chunk 0, ?_, data _, ?_⟩
  · rw [← ends]
    rfl
  · rw [← data (CollectMemory.zero (lowCodec openssl)).node]
    exact shareObject_shareFP _ _ holds (Nat.succ_pos 3) (Nat.le_refl 16)
      (show 16 ≤ fpSize by decide)

theorem lowOutput_rejected {secret : Secret}
    (differ : DigestsDiffer openssl (firstShare openssl secret)) :
    ∃ share, (lowOutput openssl secret).items = [.share share secret.isEnd] ∧
      share.data = firstShare openssl secret ∧
      ∀ stale, recomputedFP openssl stale share.data ≠ share.shareFP := by
  rcases lowOutput_items openssl secret with ⟨share, items, data, hashed⟩
  refine ⟨share, items, data, ?_⟩
  intro stale equal
  apply differ
  rw [← hashed, ← equal, recomputedFP_bytes, data]
  exact Buffer.slice_take _ _ (by decide)

theorem not_fingerprintsAgree_low {secret : Secret}
    (differ : DigestsDiffer openssl (firstShare openssl secret)) :
    ¬FingerprintsAgree openssl .low := by
  intro agree
  have accepted : AcceptsAll openssl (lowOutput openssl secret) :=
    agree _ (lowCodec openssl) [(.secret secret, .zero _)] _ (fun _ => .zero _) 0
      (Nat.succ_pos 3)
  rcases lowOutput_rejected differ with ⟨share, items, _, other⟩
  have handedOver : .share share secret.isEnd ∈ (lowOutput openssl secret).items := by
    rw [items]
    exact .head _
  exact other (fun _ => 0) ((accepted.shares share _ handedOver).recomputed _)

/-! ## Both settings -/

/-- Client and server agree exactly if the security setting begins with `HIGH`, given that
there is a share at which the two hash functions differ. -/
theorem fingerprints_agree_iff_high (openssl : OpenSSL)
    (differ : ∃ secret, DigestsDiffer openssl (firstShare openssl secret))
    (securesetting : List Byte) :
    FingerprintsAgree openssl (parseSecureType securesetting) ↔
      securesetting.take 4 = highSetting := by
  rw [parseSecureType]
  constructor
  · intro agree
    by_contra other
    rcases differ with ⟨secret, differ⟩
    rw [if_neg other] at agree
    exact not_fingerprintsAgree_low differ agree
  · intro high
    rw [if_pos high]
    exact fingerprintsAgree_high openssl

def letterSecret : Secret := ⟨[97], 0, true, by decide⟩

def letterShare : List Byte :=
  [21, 152, 163, 190, 196, 169, 45, 173, 159, 182, 1, 60, 168, 229, 184, 211]

/-- What OpenSSL gives for the share: its MD5 value and its SHA-256 value. The cipher gives
what AES-128 makes of the constant under the MD5 value of the padded file. -/
def letterOpenSSL : OpenSSL where
  sha256 := fun data position => if data = letterShare then
    [127, 76, 244, 199, 10, 35, 235, 220, 230, 79, 208, 141, 67, 108, 167, 156, 156, 88,
      47, 214, 129, 171, 201, 131, 179, 197, 5, 189, 143, 172, 219, 116].getD position 0
    else 0
  md5 := fun data position => if data = letterShare then
    [108, 246, 146, 118, 32, 125, 69, 72, 59, 172, 237, 211, 254, 116, 213,
      223].getD position 0
    else 0
  sha1 := fun _ _ => 0
  aes256Encrypt := fun _ _ _ => 0
  aes256Decrypt := fun _ _ _ => 0
  aes128Encrypt := fun _ _ position =>
    [116, 152, 163, 190, 196, 169, 45, 173, 159, 182, 1, 60, 168, 229, 184, 211, 124, 135,
      143, 14, 58, 17, 252, 162, 151, 31, 242, 32, 204, 4, 4, 209].getD position 0
  aes128Decrypt := fun _ _ _ => 0

theorem firstShare_letter : firstShare letterOpenSSL letterSecret = letterShare := by
  decide +kernel

theorem digestsDiffer_letter :
    DigestsDiffer letterOpenSSL (firstShare letterOpenSSL letterSecret) := by
  rw [firstShare_letter, DigestsDiffer]
  decide

/-- The setting `HIGH`. -/
theorem fingerprints_agree_iff_high_letter :
    highSetting.take 4 = highSetting ∧
      FingerprintsAgree letterOpenSSL (parseSecureType highSetting) :=
  ⟨rfl, (fingerprints_agree_iff_high letterOpenSSL ⟨letterSecret, digestsDiffer_letter⟩
    highSetting).mpr rfl⟩

def letterRound (shareFP : Fingerprint) : Server.FileShareMD :=
  { Server.oneShareRound [102] 0 0 1 0 with
    entries := [⟨shareFP, 0, 1, 16⟩]
    entries_length := rfl }

private theorem secondStageDedup_letterRound {generateHash : List Byte → Fingerprint}
    (other : generateHash letterShare ≠ shareFP) :
    (Server.MinDedupCore.empty.secondStageDedup generateHash 1 [letterRound shareFP]
      (fun _ => false) (.ofList letterShare 0)
      fun _ => false).isOk = false := by
  have received : ((Buffer.ofList letterShare 0).advance 0).slice 0 16 = letterShare := by
    decide
  have refused (cursor : ShareCursor) (start : cursor.shareDataBufferOffset = 0) :
      cursor.placeShare generateHash 1 (fun _ => false)
        (.ofList letterShare 0) ⟨shareFP, 0, 1, 16⟩ = .error cursor := by
    rw [ShareCursor.placeShare, start]
    simp only [received, Bool.false_eq_true, if_false, ne_eq, other, not_false_eq_true,
      if_true]
  simp only [Server.MinDedupCore.secondStageDedup, letterRound, List.foldlM_cons,
    List.foldlM_nil, Server.MinDedupCore.placeFile]
  rw [refused _ rfl]
  rfl

/-- With the setting `LOW` the server refuses the share. -/
theorem low_setting_share_rejected :
    ∃ share, (lowOutput letterOpenSSL letterSecret).items = [.share share true] ∧
      share.data = letterShare ∧
      (∀ stale, recomputedFP letterOpenSSL stale share.data ≠ share.shareFP) ∧
      (∀ stale, (Server.MinDedupCore.empty.secondStageDedup (recomputedFP letterOpenSSL stale)
        1 [letterRound share.shareFP] (fun _ => false)
        (.ofList letterShare 0) fun _ => false).isOk = false) ∧
      ¬FingerprintsAgree letterOpenSSL (parseSecureType (ascii ['L', 'O', 'W'])) := by
  rcases lowOutput_rejected digestsDiffer_letter with ⟨share, items, data, other⟩
  rw [firstShare_letter] at data
  refine ⟨share, items, data, other, ?_, not_fingerprintsAgree_low digestsDiffer_letter⟩
  intro stale
  rw [data] at other
  exact secondStageDedup_letterRound (other stale)

end MetaDedup.Upload
