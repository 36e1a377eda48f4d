import MetaDedup.Client.DecoderPipeline
import MetaDedup.Client.RepetitiveFiles

/-! # From the file to the file

What the upload loop cuts off a file, the codec encodes and the decoder threads decode
again is the file. -/

namespace MetaDedup.Decoder

open Foundation UploadLoop
open Threads (Step Decodes decodes_iff)

variable {gf : GaloisField} {crypto : CryptoPrimitive}
variable {codec : CDCodec gf crypto} {kShareIDList : Fin codec.k → Nat}

/-- The shares that the chosen clouds have of a secret have come back in their order. -/
structure MadeFrom (secret : List Byte) (package : Package codec kShareIDList)
    (secretBuffer : Buffer Byte) (encoded : codec.Encoded) : Prop where
  encodes : ∃ buffers randomKey shareBuffer,
    codec.encoding buffers randomKey secretBuffer secret.length shareBuffer = .ok encoded
  loaded : secretBuffer.slice 0 secret.length = secret
  secretSize : package.chunk.secretSize = secret.length
  shareSize : package.chunk.shareSize = encoded.shareSize
  shares : ∀ j : Fin codec.k, ∀ position < encoded.shareSize,
    package.chunk.data[encoded.shareSize * j.val + position]? =
      some (encoded.shareBuffer (encoded.shareSize * kShareIDList j + position))

section RoundTrip

variable (systematic : codec.type ≠ .crsss) (fits : codec.FitsField)
variable (distinct : Function.Injective kShareIDList)
variable (bounded : ∀ position, kShareIDList position < codec.n)

include systematic fits distinct bounded

theorem MadeFrom.secret_eq {secret : List Byte} {package : Package codec kShareIDList}
    {secretBuffer : Buffer Byte} {encoded : codec.Encoded}
    (made : MadeFrom secret package secretBuffer encoded) : package.secret = secret := by
  rcases made with ⟨⟨buffers, randomKey, shareBuffer, success⟩, loaded, secretSize, shareSize,
    shares⟩
  have decoded := decode_encoding systematic fits success distinct bounded shares (.zero codec)
  rw [← package.decodes (.zero codec), ← loaded, ← decoded, ← secretSize, ← shareSize]

/-- A file that is cut into secrets, encoded and decoded comes out as it was, however the
threads of the decoder take their turns. They do not get stuck before. -/
theorem file_round_trip {content : List Byte} (nonempty : content ≠ []) {buffer : Buffer Byte}
    {packages : List (Package codec kShareIDList)}
    (made : List.Forall₂ (fun secret package => ∃ secretBuffer encoded,
      MadeFrom secret.data package secretBuffer encoded)
      (emission Chunker.defaultChunker buffer content) packages)
    {totalSecrets : Nat} {buf : Buffer Byte} {state : Threads (Package codec kShareIDList)}
    (run : Relation.ReflTransGen (Step Decodes) (.start packages totalSecrets buf) state) :
    (state.output.returned = true → state.output.written.flatten = content) ∧
      (state.output.returned = false → ∃ next, Step Decodes state next) := by
  have secrets : packages.map Package.secret = fileChunks Chunker.defaultChunker content := by
    have data : (emission Chunker.defaultChunker buffer content).map EmittedSecret.data =
        fileChunks Chunker.defaultChunker content := by
      rw [emission_eq default_min_pos, numberChunks_data]
    rw [← data]
    clear run data
    generalize emission Chunker.defaultChunker buffer content = secrets at made
    induction made with
    | nil => rfl
    | cons first _ induction =>
        rcases first with ⟨secretBuffer, encoded, own⟩
        rw [List.map_cons, List.map_cons, induction,
          own.secret_eq systematic fits distinct bounded]
  have some : packages ≠ [] := by
    rintro rfl
    exact fileChunks_ne_nil nonempty secrets.symm
  have sound := Threads.Sound.run decodes_iff run
  refine ⟨fun returned => ?_, sound.progress decodes_iff some⟩
  rw [sound.written returned, secrets, fileChunks_flatten default_min_pos]

end RoundTrip

open Encoder (plainCodec)
open Threads (someClouds)

private theorem exists_madeFrom {secrets : List EmittedSecret}
    (bounded : ∀ secret ∈ secrets, secret.data.length ≤ Encoder.secretSize) :
    ∃ packages : List (Package plainCodec someClouds),
      List.Forall₂ (fun secret package => ∃ secretBuffer encoded,
        MadeFrom secret.data package secretBuffer encoded) secrets packages := by
  induction secrets with
  | nil => exact ⟨[], .nil⟩
  | cons secret secrets induction =>
      rcases List.forall_mem_cons.mp bounded with ⟨first, others⟩
      rcases induction others with ⟨packages, made⟩
      rcases Threads.exists_received secret.data first with ⟨encoded, data, success, shares⟩
      have decodes := decode_encoding (by decide) Threads.plainCodec_fitsField success
        (by decide) (by decide) shares
      exact ⟨⟨_, _, decodes⟩ :: packages, .cons ⟨_, encoded, ⟨_, _, _, success⟩,
        Buffer.slice_write _ _ _, rfl, rfl, shares⟩ made⟩

/-- A file of zeros is cut into two secrets, encoded, decoded and written. -/
theorem file_round_trip_zeros :
    ∃ (packages : List (Package plainCodec someClouds)) (state : _),
      packages.length = 2 ∧
      Relation.ReflTransGen (Step Decodes) (.start packages 0 fun _ => 0) state ∧
      state.output.returned = true ∧ state.output.written.flatten = zeroFile 2 := by
  have nonempty := zeroFile_ne_nil (show 0 < 2 by decide)
  rcases exists_madeFrom (emission_bounded (fun _ => 0) (zeroFile 2)) with ⟨packages, made⟩
  have length : packages.length = 2 := by
    rw [← made.length_eq, emission_eq default_min_pos, ← List.length_map EmittedSecret.data,
      numberChunks_data, zeroFile, fileChunks_zero default_min_pos (by decide) (by decide),
      List.length_replicate]
  have some : packages ≠ [] := List.ne_nil_of_length_pos (by omega)
  rcases (Threads.Sound.start packages 0 fun _ => 0).exists_returned decodes_iff some with
    ⟨state, run, returned⟩
  exact ⟨packages, state, length, run, returned, (file_round_trip (by decide)
    Threads.plainCodec_fitsField (by decide) (by decide) nonempty made run).1 returned⟩

end MetaDedup.Decoder
