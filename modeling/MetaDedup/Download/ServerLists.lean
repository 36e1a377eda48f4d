import MetaDedup.Client.DecoderPipeline
import MetaDedup.Wire.FileNames

/-! # The servers of an upload and of a download

At an upload the server in line `i` of `config-u` gets the shares and names with the index
`i`. At a download the client uses the place of a server in `config-d` as its index. The
model follows these indices: a server sends back what it has stored for a file when it is
asked under the names of the file. -/

namespace MetaDedup.Download

open Foundation Wire Encoder
open Decoder (DecodeMemory)

/-! ## Ring buffers

The data thread of a server is created after the `total` metadata threads, and takes the
ring buffer at its own index minus a constant. -/

/-- The ring buffers of all data threads, `ringBuffer_[cloudIndex - offset]`. The
constructor makes `total` of them; there is no result if a thread uses another one. -/
def dataRings (offset total : Nat) : Option (Fin total → Fin total) :=
  if inside : ∀ position : Fin total,
      offset ≤ total + position ∧ total + position < offset + total then
    some fun position =>
      ⟨total + position - offset, by have := inside position; omega⟩
  else none

/-- `Uploader::thread_handler` uses `ringBuffer_[cloudIndex - 4]`. -/
def uploadRings : (n : Nat) → Option (Fin n → Fin n) := dataRings 4

/-- `Downloader::thread_handler` uses `ringBuffer_[cloudIndex - 3]`. -/
def downloadRings : (k : Nat) → Option (Fin k → Fin k) := dataRings 3

theorem dataRings_self {offset total : Nat} (equal : total = offset) :
    dataRings offset total = some id := by
  rw [dataRings, dif_pos fun position => by omega, Option.some.injEq]
  funext position
  apply Fin.ext
  change total + position - offset = position
  omega

private theorem eq_of_dataRings {offset total : Nat} (positive : 0 < total)
    {rings : Fin total → Fin total} (exist : dataRings offset total = some rings) :
    total = offset := by
  rw [dataRings] at exist
  split at exist
  · rename_i inside
    have first := inside ⟨0, positive⟩
    have last := inside ⟨total - 1, Nat.sub_lt positive Nat.one_pos⟩
    simp only at first last
    omega
  · cases exist

/-! ## Upload -/

variable {gf : GaloisField} {crypto : CryptoPrimitive}

/-- A file: the path given to the client, and the secrets it is cut into. The path is
encoded with its final zero. -/
structure ClientFile where
  name : List Byte
  secrets : List Secret
  bounded : (name ++ [0]).length ≤ secretSize

def shareOf (codec : CDCodec gf crypto) (memory : EncodeMemory codec) (data : List Byte)
    (id : Nat) : List Byte :=
  let encoded := encode codec memory data
  encoded.2.slice (id * encoded.1) encoded.1

/-- What a server has stored of a file: the name of its metadata, the name of the key
recipe, and the shares of the secrets. -/
structure StoredFile where
  name : List Byte
  keyRecipe : List Byte
  shares : List (List Byte)

/-- The memory the codec works in when the name and the secrets are encoded. -/
structure UploadMemory (codec : CDCodec gf crypto) where
  name : EncodeMemory codec
  secret : Nat → EncodeMemory codec

/-- What the threads of a server send. The collect thread puts the shares with a number
into the ring buffer with that number. -/
def sentFile (codec : CDCodec gf crypto) (memory : UploadMemory codec) (file : ClientFile)
    (server ring : Nat) : StoredFile where
  name := shareOf codec memory.name (file.name ++ [0]) server
  keyRecipe := encFileName file.name server
  shares := file.secrets.mapIdx fun index secret =>
    shareOf codec (memory.secret index) secret.data ring

/-- What the servers of `config-u` have stored after an upload. -/
def uploadFile (codec : CDCodec gf crypto) (memory : UploadMemory codec)
    (file : ClientFile) : Option (Fin codec.n → StoredFile) :=
  (uploadRings codec.n).map fun rings server => sentFile codec memory file server (rings server)

/-! ## Download -/

/-- The name `preDownloadFile` sends to a server of `config-d`. -/
def requestedName (codec : CDCodec gf crypto) (memory : EncodeMemory codec)
    (file : ClientFile) (position : Fin codec.k) : List Byte :=
  shareOf codec memory (file.name ++ [0]) position

/-- The name `downloadKeyFile` sends. -/
def requestedKeyRecipe (file : ClientFile) (position : Nat) : List Byte :=
  encFileName file.name position

/-- The name `uploadRetrivedRecipeFile` stores the recipe under. -/
def storedRecipe (file : ClientFile) (index : Nat) : List Byte :=
  uploadRecipeFileName file.name index

/-- The name `downloadFile` sends. -/
def requestedRecipe (file : ClientFile) (recipeIndex : Nat) : List Byte :=
  uploadRecipeFileName file.name recipeIndex

def fillRings {k : Nat} (received : Fin k → List (List Byte)) :
    Option (Fin k → List (List Byte)) :=
  (downloadRings k).map fun rings ring =>
    ((List.finRange k).filter fun position => rings position = ring).flatMap received

def kShareIDList {k : Nat} (position : Fin k) : Nat := position

def assemble {k : Nat} (shareBuffer : Buffer Byte) (shares : Fin k → List Byte) :
    Buffer Byte :=
  (List.finRange k).foldl
    (fun buffer ring => buffer.write (ring * (shares ring).length) (shares ring)) shareBuffer

/-- The secret that is decoded from the shares, if the decoder returns one. The sizes come
with the shares. -/
def decodeSecret (codec : CDCodec gf crypto) (memory : DecodeMemory codec)
    (shares : Fin codec.k → List Byte) (shareSize secretSize : Nat) : Option (List Byte) :=
  match codec.decoding memory.buffers (assemble memory.shareBuffer shares) kShareIDList
      shareSize secretSize memory.secretBuffer with
  | .ok decoded => some (decoded.secretBuffer.slice 0 secretSize)
  | .error _ => none

/-- A file is retrieved from the servers that are listed in `config-d`: they have what the
client asks for, and each secret is decoded from the shares they send. -/
structure Retrieved (codec : CDCodec gf crypto) (listed : Fin codec.k → Fin codec.n)
    (file : ClientFile) (requestMemory : EncodeMemory codec)
    (decodeMemory : Nat → DecodeMemory codec) (stored : Fin codec.n → StoredFile)
    (fetched : Fin codec.k → List (List Byte)) : Prop where
  name : ∀ position, requestedName codec requestMemory file position =
    (stored (listed position)).name
  keyRecipe : ∀ position : Fin codec.k, requestedKeyRecipe file position =
    (stored (listed position)).keyRecipe
  recipe : ∀ position : Fin codec.k, requestedRecipe file position =
    storedRecipe file position
  rings : fillRings (fun position => (stored (listed position)).shares) = some fetched
  secrets : ∀ index secret, file.secrets[index]? = some secret →
    ∃ shares : Fin codec.k → List Byte,
      (∀ ring, (fetched ring)[index]? = some (shares ring)) ∧
      ∀ ring, decodeSecret codec (decodeMemory index) shares (shares ring).length
        secret.data.length = some secret.data

/-- Every file is retrieved from the listed servers, whatever the memory holds. -/
def RetrievesEveryFile (codec : CDCodec gf crypto) (listed : Fin codec.k → Fin codec.n) :
    Prop :=
  ∀ (file : ClientFile) (memory : UploadMemory codec) (requestMemory : EncodeMemory codec)
    (decodeMemory : Nat → DecodeMemory codec),
    ∃ stored fetched, uploadFile codec memory file = some stored ∧
      Retrieved codec listed file requestMemory decodeMemory stored fetched

/-! ## The first servers in their order -/

private theorem fillRings_self {k : Nat} (three : k = 3) (received : Fin k → List (List Byte)) :
    fillRings received = some received := by
  rw [fillRings, downloadRings, dataRings_self three, Option.map_some, Option.some.injEq]
  funext ring
  have one : (List.finRange k).filter (fun position => decide (id position = ring)) =
      [ring] := by
    simp only [id_eq]
    rw [List.filter_eq, List.count_finRange, List.replicate_one]
  rw [one, List.flatMap_singleton]

private theorem assemble_slice {k shareSize : Nat} (shareBuffer : Buffer Byte)
    {shares : Fin k → List Byte} (sizes : ∀ ring, (shares ring).length = shareSize)
    (ring : Fin k) :
    (assemble shareBuffer shares).slice (ring * shareSize) shareSize = shares ring := by
  -- The induction is on the last pass of the loop: it writes the block or leaves it alone.
  have passes (rings : List (Fin k)) (member : ring ∈ rings) :
      (rings.foldl (fun buffer ring => buffer.write (ring * (shares ring).length)
        (shares ring)) shareBuffer).slice (ring * shareSize) shareSize = shares ring := by
    induction rings using List.reverseRecOn with
    | nil => cases member
    | append_singleton rings last induction =>
        rw [List.foldl_append, List.foldl_cons, List.foldl_nil, sizes last]
        by_cases equal : ring = last
        · rw [equal, Buffer.slice_write_of_length _ _ (sizes last)]
        · have earlier : ring ∈ rings :=
            (List.mem_append.mp member).resolve_right fun new =>
              equal (List.mem_singleton.mp new)
          rw [Buffer.slice_write_of_disjoint, induction earlier]
          rw [sizes last, ← Nat.succ_mul, ← Nat.succ_mul]
          rcases Nat.lt_or_gt_of_ne (Fin.val_ne_of_ne equal) with below | above
          · exact .inl (Nat.mul_le_mul_right _ below)
          · exact .inr (Nat.mul_le_mul_right _ above)
  exact passes _ (List.mem_finRange ring)

section Caont

variable {openssl : OpenSSL} {securetype : SecureType}
variable {codec : CDCodec gf (openssl.cryptoPrimitive securetype.cryptoType)}

/-- Shares that lie in the order of their numbers are decoded. -/
theorem decodeSecret_shares (caontRS : codec.type = .caontRS) (fits : codec.n ≤ 256)
    (encodeMemory : EncodeMemory codec) (memory : DecodeMemory codec) (secret : Secret)
    {shares : Fin codec.k → List Byte}
    (numbered : ∀ ring, shares ring = shareOf codec encodeMemory secret.data ring)
    (ring : Fin codec.k) :
    decodeSecret codec memory shares (shares ring).length secret.data.length =
      some secret.data := by
  rcases encoding_ok caontRS encodeMemory secret.bounded with ⟨encoded, success⟩
  have made : encode codec encodeMemory secret.data =
      (encoded.shareSize, encoded.shareBuffer) := by
    rw [encode, success]
  have sizes : ∀ ring, (shares ring).length = encoded.shareSize := by
    intro ring
    rw [numbered, shareOf, made, Buffer.slice_length]
  have laidOut : codec.LaidOut (assemble memory.shareBuffer shares) encoded.shareBuffer
      encoded.shareSize kShareIDList := by
    intro j
    have block := assemble_slice memory.shareBuffer sizes j
    rw [numbered, shareOf, made, Nat.mul_comm] at block
    exact (Buffer.slice_eq_slice_iff _ _ _ _ _).mp block
  have below (position : Fin codec.k) : kShareIDList position < codec.n :=
    Nat.lt_of_lt_of_le position.isLt (Nat.sub_le _ _)
  have distinct : Function.Injective (kShareIDList (k := codec.k)) := Fin.val_injective
  have field : codec.FitsField := by
    rw [CDCodec.FitsField, caontRS]
    exact fits
  rcases CDCodec.decoding_encoding field success distinct below laidOut with
    ⟨decoded, reached, output⟩
  rw [decodeSecret, sizes ring, reached]
  change some (decoded.secretBuffer.slice 0 secret.data.length) = some secret.data
  rw [output, Buffer.slice_copy, Buffer.slice_write]

private theorem retrievesEveryFile_first (caontRS : codec.type = .caontRS) (four : codec.n = 4)
    (one : codec.m = 1) {listed : Fin codec.k → Fin codec.n}
    (first : ∀ position, (listed position).val = position.val) :
    RetrievesEveryFile codec listed := by
  intro file memory requestMemory decodeMemory
  have three : codec.k = 3 := by rw [CDCodec.k, four, one]
  refine ⟨fun server => sentFile codec memory file server server, fun position =>
    (sentFile codec memory file (listed position) (listed position)).shares, ?_, ?_⟩
  · rw [uploadFile, uploadRings, dataRings_self four]
    rfl
  constructor
  · intro position
    rw [requestedName, sentFile, first]
    exact encode_slice_convergent caontRS _ _ file.bounded
      (Nat.lt_of_lt_of_le position.isLt (Nat.sub_le _ _))
  · intro position
    rw [requestedKeyRecipe, sentFile, first]
  · intro position
    rfl
  · exact fillRings_self three _
  · intro index secret found
    refine ⟨fun ring => shareOf codec (memory.secret index) secret.data ring, ?_, ?_⟩
    · intro ring
      rw [sentFile, List.getElem?_mapIdx, found, Option.map_some, first]
    · exact decodeSecret_shares caontRS (by omega) (memory.secret index) (decodeMemory index)
        secret fun ring => rfl

end Caont

/-! ## Other servers -/

def byteFile : ClientFile := ⟨[102], [⟨[5], 0, true, by decide⟩], by decide⟩

theorem first_of_retrievesEveryFile {codec : CDCodec gf crypto}
    {listed : Fin codec.k → Fin codec.n} (retrieves : RetrievesEveryFile codec listed) :
    codec.n = 4 ∧ codec.m = 1 ∧ ∀ position, (listed position).val = position.val := by
  rcases retrieves byteFile ⟨.zero codec, fun _ => .zero codec⟩ (.zero codec) (fun _ =>
    ⟨(EncodeMemory.zero codec).buffers, fun _ => 0, fun _ => 0⟩) with
    ⟨stored, fetched, uploaded, retrieved⟩
  have positive : 0 < codec.n := by
    have := codec.accepted.1
    omega
  have large : 1 < codec.k := by
    have := codec.accepted.2.2.1
    rw [CDCodec.k]
    omega
  rcases Option.map_eq_some_iff.mp uploaded with ⟨uploadRings, exist, rfl⟩
  have four := eq_of_dataRings positive exist
  rcases Option.map_eq_some_iff.mp retrieved.rings with ⟨downloadRings, others, _⟩
  have three := eq_of_dataRings (Nat.zero_lt_of_lt large) others
  refine ⟨four, ?_, ?_⟩
  · rw [CDCodec.k] at three
    omega
  · intro position
    exact (encFileName_injective _ (retrieved.keyRecipe position)).symm

def firstServers : Fin plainCodec.k → Fin plainCodec.n := fun position => position.castSucc

/-- The last three servers of the default configuration, as when the first one is down. -/
def lastServers : Fin plainCodec.k → Fin plainCodec.n := fun position => position.succ

end MetaDedup.Download
