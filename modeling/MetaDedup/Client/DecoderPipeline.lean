import MetaDedup.Client.EncoderPipeline

/-! # `Decoder`

`downloadFile` announces the number of secrets and adds the shares of each secret to the
queue of a decoder thread, in turn. The decoder threads turn the shares into secrets. The
collect thread takes the secrets in turn, copies them to a buffer, and writes the buffer to
the file before it would overflow and when it has got the last secret. -/

namespace MetaDedup.Decoder

open Foundation Function Relation

/-- `DECODE_NUM_THREADS`. -/
def numThreads : Nat := 2

/-- `DECODE_RB_SIZE`. -/
def rbSize : Nat := 2

/-- `FWRITE_BUFFER_SIZE`. -/
def fwriteBufferSize : Nat := 4 * 1024 * 1024

/-- A `ShareChunk_t`. The list is the part of its array that holds shares. -/
structure ShareChunk where
  data : List Byte
  secretSize : Nat
  shareSize : Nat

variable {gf : GaloisField} {crypto : CryptoPrimitive}

/-! ## The decoder threads -/

/-- What a call of the codec finds: the memory of the codec, and the arrays for the shares
and for the secret. -/
structure DecodeMemory (codec : CDCodec gf crypto) where
  buffers : codec.Buffers
  shareBuffer : Buffer Byte
  secretBuffer : Buffer Byte

def DecodeMemory.zero (codec : CDCodec gf crypto) : DecodeMemory codec where
  buffers := .zero codec
  shareBuffer := fun _ => 0
  secretBuffer := fun _ => 0

/-- The first `secretSize` bytes of the array for the secret after a call of the codec.
Nobody looks at the returned value. -/
def decode (codec : CDCodec gf crypto) (kShareIDList : Fin codec.k → Nat)
    (memory : DecodeMemory codec) (chunk : ShareChunk) : List Byte :=
  match codec.decoding memory.buffers (memory.shareBuffer.write 0 chunk.data) kShareIDList
      chunk.shareSize chunk.secretSize memory.secretBuffer with
  | .ok decoded => decoded.secretBuffer.slice 0 chunk.secretSize
  | .error _ => memory.secretBuffer.slice 0 chunk.secretSize

structure Package (codec : CDCodec gf crypto) (kShareIDList : Fin codec.k → Nat) where
  chunk : ShareChunk
  secret : List Byte
  decodes : ∀ memory, decode codec kShareIDList memory chunk = secret

/-- The shares that the codec has made of a secret, in the order of `kShareIDList`, are
decoded to the secret. -/
theorem decode_encoding {codec : CDCodec gf crypto} {kShareIDList : Fin codec.k → Nat}
    (systematic : codec.type ≠ .crsss) (fits : codec.FitsField) {buffers : codec.Buffers}
    {randomKey secretBuffer shareBuffer : Buffer Byte} {secretSize : Nat}
    {encoded : codec.Encoded}
    (success : codec.encoding buffers randomKey secretBuffer secretSize shareBuffer =
      .ok encoded)
    (distinct : Injective kShareIDList)
    (bounded : ∀ position, kShareIDList position < codec.n) {data : List Byte}
    (shares : ∀ j : Fin codec.k, ∀ position < encoded.shareSize,
      data[encoded.shareSize * j.val + position]? =
        some (encoded.shareBuffer (encoded.shareSize * kShareIDList j + position)))
    (memory : DecodeMemory codec) :
    decode codec kShareIDList memory ⟨data, secretSize, encoded.shareSize⟩ =
      secretBuffer.slice 0 secretSize := by
  have laidOut : codec.LaidOut (memory.shareBuffer.write 0 data) encoded.shareBuffer
      encoded.shareSize kShareIDList := by
    intro j position inside
    rw [Buffer.write, if_pos (Nat.zero_le _), Nat.sub_zero, shares j position inside]
    rfl
  rcases CDCodec.decoding_encoding_systematic fits success distinct bounded laidOut
    systematic with ⟨decoded, decodes, secret⟩
  rw [decode, decodes]
  simp only [secret, Buffer.slice_copy]

/-! ## The collect thread -/

/-- The local variables of the thread and the arguments of its calls of `fwrite`. -/
structure Output where
  buf : Buffer Byte
  outIndex : Nat
  count : Nat
  written : List (List Byte)
  returned : Bool

namespace Output

def start (buf : Buffer Byte) : Output := ⟨buf, 0, 0, [], false⟩

/-- `fwrite(buf, out_index, 1, fw_)`. -/
def fwrite (output : Output) : Output :=
  { output with written := output.written ++ [output.buf.slice 0 output.outIndex] }

def makeRoom (output : Output) (secret : List Byte) : Output :=
  if output.outIndex + secret.length > fwriteBufferSize then
    { output.fwrite with outIndex := 0 }
  else output

def append (output : Output) (secret : List Byte) : Output :=
  { output with
    buf := output.buf.write output.outIndex secret
    outIndex := output.outIndex + secret.length
    count := output.count + 1 }

def finish (totalSecrets : Nat) (output : Output) : Output :=
  if output.count = totalSecrets then
    { (if output.outIndex > 0 then output.fwrite else output) with returned := true }
  else output

def collect (totalSecrets : Nat) (output : Output) (secret : List Byte) : Output :=
  ((output.makeRoom secret).append secret).finish totalSecrets

/-- The bytes that have got to the file or to the buffer. The buffer is not used any more
when the thread has returned. -/
def bytes (output : Output) : List Byte :=
  output.written.flatten ++
    if output.returned then [] else output.buf.slice 0 output.outIndex

variable {output : Output}

private theorem makeRoom_bytes (running : output.returned = false) (secret : List Byte) :
    (output.makeRoom secret).bytes = output.bytes ∧
      (output.makeRoom secret).returned = false ∧
      (output.makeRoom secret).count = output.count := by
  rw [makeRoom]
  split
  · refine ⟨?_, running, rfl⟩
    simp only [bytes, fwrite, running, Bool.false_eq_true, if_false, List.flatten_append,
      List.flatten_singleton]
    exact List.append_nil _
  · exact ⟨rfl, running, rfl⟩

private theorem makeRoom_outIndex {secret : List Byte} (fits : secret.length ≤ fwriteBufferSize) :
    (output.makeRoom secret).outIndex + secret.length ≤ fwriteBufferSize := by
  rw [makeRoom]
  split
  · rw [Nat.zero_add]
    exact fits
  · exact Nat.not_lt.mp (by assumption)

private theorem append_bytes (running : output.returned = false)
    (secret : List Byte) : (output.append secret).bytes = output.bytes ++ secret := by
  simp only [bytes, append, running, Bool.false_eq_true, if_false]
  rw [Buffer.slice_write_end, List.append_assoc]

private theorem finish_bytes (running : output.returned = false)
    (totalSecrets : Nat) : (output.finish totalSecrets).bytes = output.bytes := by
  rw [finish]
  split
  · by_cases filled : output.outIndex > 0
    · simp [bytes, fwrite, filled, running]
    · have empty : output.outIndex = 0 := Nat.eq_zero_of_not_pos filled
      simp [bytes, empty, running, Buffer.slice]
  · rfl

theorem finish_fields (totalSecrets : Nat) (output : Output) :
    (output.finish totalSecrets).count = output.count ∧
      (output.finish totalSecrets).outIndex = output.outIndex := by
  rw [finish]
  split
  · by_cases filled : output.outIndex > 0
    · rw [if_pos filled]
      exact ⟨rfl, rfl⟩
    · rw [if_neg filled]
      exact ⟨rfl, rfl⟩
  · exact ⟨rfl, rfl⟩

private theorem finish_returned (running : output.returned = false) (totalSecrets : Nat) :
    (output.finish totalSecrets).returned = true ↔ output.count = totalSecrets := by
  rw [finish]
  split
  · exact ⟨fun _ => by assumption, fun _ => rfl⟩
  · rw [running]
    constructor
    · intro returned
      cases returned
    · intro last
      contradiction

private theorem collect_spec (running : output.returned = false)
    (totalSecrets : Nat) (secret : List Byte) :
    (output.collect totalSecrets secret).bytes = output.bytes ++ secret ∧
      (output.collect totalSecrets secret).count = output.count + 1 ∧
      ((output.collect totalSecrets secret).returned = true ↔
        output.count + 1 = totalSecrets) := by
  rcases makeRoom_bytes running secret with ⟨roomBytes, roomRunning, roomCount⟩
  have appendedRunning : ((output.makeRoom secret).append secret).returned = false :=
    roomRunning
  have appended : ((output.makeRoom secret).append secret).count = output.count + 1 :=
    congrArg (· + 1) roomCount
  refine ⟨?_, ?_, ?_⟩
  · rw [Output.collect, finish_bytes appendedRunning, append_bytes roomRunning, roomBytes]
  · rw [Output.collect, (finish_fields totalSecrets _).1, appended]
  · rw [Output.collect, finish_returned appendedRunning, appended]

/-- What the thread has done when it has got some secrets. It stays inside its buffer as long
as none of them is larger than the buffer. -/
structure Collected (totalSecrets : Nat) (secrets : List (List Byte)) (output : Output) :
    Prop where
  bytes : output.bytes = secrets.flatten
  count : output.count = secrets.length
  inside : (∀ secret ∈ secrets, secret.length ≤ fwriteBufferSize) →
    output.outIndex ≤ fwriteBufferSize
  returned : output.returned = true ↔ 0 < secrets.length ∧ secrets.length = totalSecrets

theorem Collected.collect {totalSecrets : Nat} {secrets : List (List Byte)}
    (collected : Collected totalSecrets secrets output) (running : output.returned = false)
    (secret : List Byte) :
    Collected totalSecrets (secrets ++ [secret]) (output.collect totalSecrets secret) := by
  rcases collect_spec running totalSecrets secret with ⟨bytes, count, returned⟩
  rw [collected.count] at count returned
  have length : (secrets ++ [secret]).length = secrets.length + 1 := List.length_append
  refine ⟨?_, count.trans length.symm, fun fits => ?_, returned.trans ?_⟩
  · rw [bytes, collected.bytes, List.flatten_append, List.flatten_singleton]
  · rw [Output.collect, (finish_fields totalSecrets _).2]
    exact makeRoom_outIndex (fits secret (List.mem_append_right _ List.mem_cons_self))
  · rw [length]
    omega

end Output

/-! ## The threads -/

/-- The queues and the threads. The member `totalSecrets` is not initialized before
`downloadFile` has announced it. Each decoder thread counts the secrets it has handled. -/
structure Threads (α : Type) where
  pipeline : Pipeline α (List Byte)
  announced : Bool
  totalSecrets : Nat
  handled : Nat → Nat
  exited : Nat → Bool
  output : Output

namespace Threads

variable {α : Type}

def start (items : List α) (totalSecrets : Nat) (buf : Buffer Byte) : Threads α where
  pipeline := .start items
  announced := false
  totalSecrets
  handled := fun _ => 0
  exited := fun _ => false
  output := .start buf

/-- `works` says what a decoder thread can make of an item. -/
inductive Step (works : α → List Byte → Prop) (state : Threads α) : Threads α → Prop
  | setTotal (early : state.announced = false) :
      Step works state
        { state with
          announced := true
          totalSecrets := state.pipeline.remaining.length }
  | add {item remaining} (announced : state.announced = true)
      (next : state.pipeline.remaining = item :: remaining)
      (room : (state.pipeline.input state.pipeline.nextAdd).length < rbSize) :
      Step works state { state with pipeline := state.pipeline.add numThreads item remaining }
  | load {index item rest} (inside : index < numThreads)
      (running : state.exited index = false) (idle : state.pipeline.worker index = .idle)
      (next : state.pipeline.input index = item :: rest) :
      Step works state { state with pipeline := state.pipeline.load index item rest }
  | finish {index item secret} (inside : index < numThreads)
      (loaded : state.pipeline.worker index = .loaded item) (worked : works item secret) :
      Step works state { state with pipeline := state.pipeline.finish index secret }
  | deliver {index secret} (inside : index < numThreads)
      (finished : state.pipeline.worker index = .finished secret)
      (room : (state.pipeline.output index).length < rbSize) :
      Step works state
        { state with
          pipeline := state.pipeline.deliver index secret
          handled := update state.handled index (state.handled index + 1)
          exited := update state.exited index
            (decide (state.handled index + 1 = state.totalSecrets)) }
  | extract {secret rest} (running : state.output.returned = false)
      (next : state.pipeline.output state.pipeline.nextExtract = secret :: rest) :
      Step works state
        { state with
          pipeline := state.pipeline.extract numThreads secret rest
          output := state.output.collect state.totalSecrets secret }

variable {works : α → List Byte → Prop} {image : α → List Byte} {items : List α}
variable {state next : Threads α}

theorem Step.pipeline (step : Step works state next) :
    (state.announced = false ∧ next.announced = true ∧ next.pipeline = state.pipeline) ∨
      next.announced = state.announced ∧
        Pipeline.Step numThreads rbSize works state.pipeline next.pipeline := by
  cases step with
  | setTotal early => exact .inl ⟨early, rfl, rfl⟩
  | add _ next room => exact .inr ⟨rfl, .add next room⟩
  | load inside _ idle next => exact .inr ⟨rfl, .load inside idle next⟩
  | finish inside loaded worked => exact .inr ⟨rfl, .finish inside loaded worked⟩
  | deliver inside finished room => exact .inr ⟨rfl, .deliver inside finished room⟩
  | extract _ next => exact .inr ⟨rfl, .extract next⟩

def share (image : α → List Byte) (state : Threads α) (index : Nat) : Nat :=
  state.handled index + (Pipeline.atHand image (state.pipeline.worker index)).length +
    (state.pipeline.input index).length

/-- The queues are in order, a thread leaves its loop only when nothing is left to do, and
the collect thread has done its part for the secrets it has got. -/
structure Sound (image : α → List Byte) (items : List α) (state : Threads α) : Prop where
  inOrder : Pipeline.InOrder numThreads image items state.pipeline
  announced : state.announced = true → state.totalSecrets = items.length
  early : state.announced = false → state.pipeline.added = []
  share : ∀ index, state.share image index ≤ state.pipeline.added.length
  exited : ∀ index, state.exited index = true → state.handled index = items.length
  output : state.output.Collected items.length state.pipeline.extracted

namespace Sound

theorem start (items : List α) (totalSecrets : Nat) (buf : Buffer Byte) :
    Sound image items (start items totalSecrets buf) where
  inOrder := .start items
  announced := nofun
  early := fun _ => rfl
  share := fun _ => Nat.le_refl 0
  exited := nofun
  output := ⟨rfl, rfl, fun _ => Nat.zero_le _, nofun, fun some => absurd some.1 (Nat.lt_irrefl 0)⟩

variable (sound : Sound image items state)
include sound

theorem total
    (busy : 0 < state.pipeline.added.length) : state.totalSecrets = items.length := by
  apply sound.announced
  cases announced : state.announced with
  | true => rfl
  | false =>
      rw [sound.early announced] at busy
      cases busy

private theorem setTotal (early : state.announced = false) :
    Sound image items
      { state with announced := true, totalSecrets := state.pipeline.remaining.length } where
  inOrder := sound.inOrder
  announced := by
    intro _
    have whole := sound.inOrder.whole
    rw [sound.early early, List.nil_append] at whole
    exact congrArg List.length whole
  early := nofun
  share := sound.share
  exited := sound.exited
  output := sound.output

variable {item : α}

private theorem add (announced : state.announced = true)
    {remaining : List α} (next : state.pipeline.remaining = item :: remaining) :
    Sound image items
      { state with pipeline := state.pipeline.add numThreads item remaining } where
  inOrder := sound.inOrder.add next
  announced := sound.announced
  early := by
    intro early
    cases announced.symm.trans early
  share := by
    intro index
    have before := sound.share index
    simp only [Threads.share, Pipeline.add, List.length_append,
      List.length_singleton] at before ⊢
    by_cases own : index = state.pipeline.nextAdd
    · rw [own, update_self, List.length_append, List.length_singleton]
      rw [own] at before
      omega
    · rw [update_of_ne own]
      omega
  exited := sound.exited
  output := sound.output

theorem of_share {pipeline : Pipeline α (List Byte)}
    (inOrder : pipeline.InOrder numThreads image items)
    (added : pipeline.added = state.pipeline.added)
    (extracted : pipeline.extracted = state.pipeline.extracted)
    (share : ∀ index, ({ state with pipeline } : Threads α).share image index =
      state.share image index) :
    Sound image items { state with pipeline } where
  inOrder := inOrder
  announced := sound.announced
  early := by
    rw [added]
    exact sound.early
  share := by
    intro index
    rw [share, added]
    exact sound.share index
  exited := sound.exited
  output := by
    rw [extracted]
    exact sound.output

variable {index : Nat} {rest : List α}

private theorem load (idle : state.pipeline.worker index = .idle)
    (next : state.pipeline.input index = item :: rest) :
    Sound image items { state with pipeline := state.pipeline.load index item rest } := by
  apply sound.of_share (sound.inOrder.load idle next)
  · rfl
  · rfl
  · intro other
    simp only [Threads.share, Pipeline.load]
    by_cases own : other = index
    · simp only [own, update_self, idle, next, Pipeline.atHand, List.length_cons,
        List.length_nil]
      omega
    · rw [update_of_ne own, update_of_ne own]

private theorem finish (loaded : state.pipeline.worker index = .loaded item) :
    Sound image items { state with pipeline := state.pipeline.finish index (image item) } := by
  apply sound.of_share (sound.inOrder.finish loaded)
  · rfl
  · rfl
  · intro other
    simp only [Threads.share, Pipeline.finish]
    by_cases own : other = index
    · simp only [own, update_self, loaded, Pipeline.atHand, List.length_cons,
        List.length_nil]
    · rw [update_of_ne own]

variable {secret : List Byte}

private theorem deliver (finished : state.pipeline.worker index = .finished secret) :
    Sound image items
      { state with
        pipeline := state.pipeline.deliver index secret
        handled := update state.handled index (state.handled index + 1)
        exited := update state.exited index
          (decide (state.handled index + 1 = state.totalSecrets)) } where
  inOrder := sound.inOrder.deliver finished
  announced := sound.announced
  early := sound.early
  share := by
    intro other
    have before := sound.share other
    simp only [Threads.share, Pipeline.deliver] at before ⊢
    by_cases own : other = index
    · simp only [own, update_self, Pipeline.atHand, List.length_nil]
      simp only [own, finished, Pipeline.atHand, List.length_cons, List.length_nil] at before
      omega
    · rw [update_of_ne own, update_of_ne own]
      exact before
  exited := by
    intro other exited
    by_cases own : other = index
    · have before := sound.share index
      simp only [Threads.share, finished, Pipeline.atHand, List.length_cons] at before
      simp only [own, update_self, decide_eq_true_eq] at exited ⊢
      rw [exited, sound.total (Nat.lt_of_lt_of_le (by omega) before)]
    · simp only [update_of_ne own] at exited ⊢
      exact sound.exited other exited
  output := sound.output

private theorem extract (running : state.output.returned = false) {rest : List (List Byte)}
    (next : state.pipeline.output state.pipeline.nextExtract = secret :: rest) :
    Sound image items
      { state with
        pipeline := state.pipeline.extract numThreads secret rest
        output := state.output.collect state.totalSecrets secret } := by
  rcases sound.inOrder.front Nat.two_pos next with ⟨before, _⟩
  refine ⟨sound.inOrder.extract Nat.two_pos next, sound.announced, sound.early, sound.share,
    sound.exited, ?_⟩
  rw [sound.total (Nat.lt_of_le_of_lt (Nat.zero_le _) before)]
  exact sound.output.collect running secret

private theorem running
    (next : state.pipeline.input index = item :: rest) : state.exited index = false := by
  cases exited : state.exited index with
  | false => rfl
  | true =>
      have share := sound.share index
      have whole := congrArg List.length sound.inOrder.whole
      rw [Threads.share, sound.exited index exited, next, List.length_cons] at share
      rw [List.length_append] at whole
      omega

theorem inside (sizes : ∀ item ∈ items, (image item).length ≤ fwriteBufferSize) :
    state.output.outIndex ≤ fwriteBufferSize := by
  apply sound.output.inside
  intro secret member
  rcases List.mem_map.mp (sound.inOrder.extracted_initial.subset member) with
    ⟨item, listed, rfl⟩
  exact sizes item listed

theorem written (returned : state.output.returned = true) :
    state.output.written.flatten = (items.map image).flatten := by
  have all : state.pipeline.extracted = items.map image := by
    apply sound.inOrder.extracted_initial.eq_of_length
    rw [(sound.output.returned.mp returned).2, List.length_map]
  have bytes := sound.output.bytes
  rw [Output.bytes, if_pos returned, List.append_nil] at bytes
  rw [bytes, all]

end Sound

/-! ## Whole runs -/

section Runs

variable {totalSecrets : Nat} {buf : Buffer Byte}

def effort (state : Threads α) : Nat :=
  state.pipeline.effort numThreads + if state.announced then 0 else 1

theorem Step.effort_lt (sound : Sound image items state) (step : Step works state next) :
    next.effort < state.effort := by
  rcases step.pipeline with ⟨early, announced, kept⟩ | ⟨kept, step⟩
  · rw [effort, effort, early, announced, kept]
    exact Nat.lt_succ_self _
  · have shorter := step.effort sound.inOrder Nat.two_pos
    rw [effort, effort, kept]
    omega

private theorem effort_start (items : List α) (totalSecrets : Nat) (buf : Buffer Byte) :
    (start items totalSecrets buf).effort = 5 * items.length + 1 :=
  congrArg (· + 1) (Pipeline.effort_start numThreads items)

variable (works_iff : ∀ item secret, works item secret ↔ secret = image item)

include works_iff

theorem Sound.step (sound : Sound image items state) (step : Step works state next) :
    Sound image items next := by
  cases step with
  | setTotal early => exact sound.setTotal early
  | add announced next _ => exact sound.add announced next
  | load _ _ idle next => exact sound.load idle next
  | finish _ loaded worked =>
      cases (works_iff _ _).mp worked
      exact sound.finish loaded
  | deliver _ finished _ => exact sound.deliver finished
  | extract running next => exact sound.extract running next

theorem Sound.run
    (run : ReflTransGen (Step works) (Threads.start items totalSecrets buf) state) :
    Sound image items state := by
  induction run with
  | refl => exact start items totalSecrets buf
  | tail _ step induction => exact induction.step works_iff step

theorem Sound.progress (nonempty : items ≠ []) (sound : Sound image items state)
    (collecting : state.output.returned = false) : ∃ next, Step works state next := by
  cases announced : state.announced with
  | false => exact ⟨_, .setTotal announced⟩
  | true =>
      have missing : state.pipeline.extracted ≠ items.map image := by
        intro all
        have returned := sound.output.returned.mpr (by
          rw [all, List.length_map]
          exact ⟨List.length_pos_of_ne_nil nonempty, rfl⟩)
        cases collecting.symm.trans returned
      rcases sound.inOrder.progress Nat.two_pos Nat.two_pos
        (fun item => ⟨image item, (works_iff item _).mpr rfl⟩) missing with ⟨pipeline, step⟩
      cases step with
      | add next room => exact ⟨_, .add announced next room⟩
      | load inside idle next => exact ⟨_, .load inside (sound.running next) idle next⟩
      | finish inside loaded worked => exact ⟨_, .finish inside loaded worked⟩
      | deliver inside finished room => exact ⟨_, .deliver inside finished room⟩
      | extract next => exact ⟨_, .extract collecting next⟩

theorem Sound.exists_returned (nonempty : items ≠ []) (sound : Sound image items state) :
    ∃ final, ReflTransGen (Step works) state final ∧
      final.output.returned = true := by
  -- Every step shortens what is left of the run.
  induction size : state.effort using Nat.strong_induction_on generalizing state with
  | _ effort induction =>
      cases returned : state.output.returned with
      | true => exact ⟨state, .refl, returned⟩
      | false =>
          rcases sound.progress works_iff nonempty returned with ⟨next, step⟩
          rcases induction next.effort (size ▸ step.effort_lt sound)
            (sound.step works_iff step) rfl with ⟨final, rest, done⟩
          exact ⟨final, .head step rest, done⟩

end Runs

/-! ## Secrets that can be decoded -/

section Packages

variable {codec : CDCodec gf crypto} {kShareIDList : Fin codec.k → Nat}

def Decodes (package : Package codec kShareIDList) (secret : List Byte) : Prop :=
  ∃ memory, secret = decode codec kShareIDList memory package.chunk

theorem decodes_iff (package : Package codec kShareIDList) (secret : List Byte) :
    Decodes package secret ↔ secret = package.secret := by
  constructor
  · rintro ⟨memory, rfl⟩
    exact package.decodes memory
  · rintro rfl
    exact ⟨.zero codec, (package.decodes _).symm⟩

variable {packages : List (Package codec kShareIDList)} {totalSecrets : Nat}
variable {buf : Buffer Byte} {state : Threads (Package codec kShareIDList)}

/-- The collect thread returns after five steps for each secret and one more, whichever
thread makes the next step, and stays inside its buffer. -/
theorem decoder_run_ends (nonempty : packages ≠ [])
    (sizes : ∀ package ∈ packages, package.secret.length ≤ fwriteBufferSize)
    {states : Nat → Threads (Package codec kShareIDList)}
    (first : states 0 = start packages totalSecrets buf) (goesOn : GoesOn (Step Decodes) states) :
    (states (5 * packages.length + 1)).output.returned = true ∧
      ∀ time, (states time).output.outIndex ≤ fwriteBufferSize := by
  have begun : Sound Package.secret packages (states 0) := first ▸ .start packages _ buf
  refine ⟨?_, fun time => Sound.inside ?_ sizes⟩
  · have ended := goesOn.stuck effort begun fun sound step =>
      ⟨sound.step decodes_iff step, step.effort_lt sound⟩
    rw [first, effort_start] at ended
    by_contra collecting
    rcases ended.1.progress decodes_iff nonempty (Bool.eq_false_of_not_eq_true collecting) with
      ⟨next, step⟩
    exact ended.2 next step
  · exact goesOn.holds begun (fun sound step => sound.step decodes_iff step) time

/-- The collect thread stays inside its buffer and writes the secrets in their order, with
nothing in between. It returns when all of them have been written, and not before. Until then
some thread can make a step. -/
theorem decoder_writes_file (nonempty : packages ≠ [])
    (sizes : ∀ package ∈ packages, package.secret.length ≤ fwriteBufferSize)
    (run : ReflTransGen (Step Decodes) (start packages totalSecrets buf) state) :
    state.output.outIndex ≤ fwriteBufferSize ∧
    (state.output.returned = true →
      state.output.written.flatten = (packages.map Package.secret).flatten) ∧
    (state.output.returned = false → ∃ next, Step Decodes state next) :=
  have sound := Sound.run decodes_iff run
  ⟨sound.inside sizes, sound.written, sound.progress decodes_iff nonempty⟩

end Packages

open Encoder (plainCodec)

/-- The clouds whose shares are decoded. -/
def someClouds (j : Fin plainCodec.k) : Nat := [3, 1, 0].getD j.val 0

theorem plainCodec_fitsField : plainCodec.FitsField := show 4 ≤ 256 by decide

theorem exists_received (secret : List Byte)
    (bounded : secret.length ≤ Encoder.secretSize) :
    ∃ (encoded : plainCodec.Encoded) (data : List Byte),
      plainCodec.encoding (.zero _) (fun _ => 0) (Buffer.write (fun _ => 0) 0 secret)
        secret.length (fun _ => 0) = .ok encoded ∧
      ∀ j : Fin plainCodec.k, ∀ position < encoded.shareSize,
        data[encoded.shareSize * j.val + position]? =
          some (encoded.shareBuffer (encoded.shareSize * someClouds j + position)) := by
  rcases Encoder.encoding_ok rfl (.zero plainCodec) bounded with ⟨encoded, success⟩
  let received (position : Nat) : Byte := encoded.shareBuffer (encoded.shareSize *
    [3, 1, 0].getD (position / encoded.shareSize) 0 + position % encoded.shareSize)
  refine ⟨encoded, (List.range (3 * encoded.shareSize)).map received, success, ?_⟩
  intro j position inside
  have row : encoded.shareSize * (j.val + 1) ≤ encoded.shareSize * 3 :=
    Nat.mul_le_mul_left _ j.isLt
  rw [Nat.mul_succ] at row
  rw [List.getElem?_map, List.getElem?_range (by omega), Option.map_some]
  simp only [received, someClouds, Nat.mul_add_div (Nat.zero_lt_of_lt inside),
    Nat.div_eq_of_lt inside, Nat.add_zero, Nat.mul_add_mod, Nat.mod_eq_of_lt inside]

theorem exists_package (secret : List Byte) (bounded : secret.length ≤ Encoder.secretSize) :
    ∃ package : Package plainCodec someClouds, package.secret = secret := by
  rcases exists_received secret bounded with ⟨encoded, data, success, shares⟩
  exact ⟨⟨_, _, decode_encoding (by decide) plainCodec_fitsField success (by decide)
    (by decide) shares⟩, Buffer.slice_write _ _ _⟩

theorem decoder_run_ends_secrets :
    ∃ (first second : Package plainCodec someClouds) (states : Nat → _),
      states 0 = start [first, second] 0 (fun _ => 0) ∧ GoesOn (Step Decodes) states ∧
        (states 11).output.returned = true := by
  rcases exists_package [0, 1, 2, 3, 4] (by decide) with ⟨first, firstSecret⟩
  rcases exists_package [5, 6] (by decide) with ⟨second, secondSecret⟩
  rcases exists_goesOn (Step Decodes) (start [first, second] 0 fun _ => 0) with
    ⟨states, begins, goesOn⟩
  refine ⟨first, second, states, begins, goesOn, (decoder_run_ends (List.cons_ne_nil _ _) ?_
    begins goesOn).1⟩
  simp [firstSecret, secondSecret, fwriteBufferSize]

/-- The collect thread returns, and both secrets are in the file. -/
theorem decoder_writes_file_secrets :
    ∃ (first second : Package plainCodec someClouds) (state : _),
      ReflTransGen (Step Decodes) (start [first, second] 0 fun _ => 0) state ∧
      state.output.returned = true ∧ state.output.written.flatten = [0, 1, 2, 3, 4, 5, 6] := by
  rcases exists_package [0, 1, 2, 3, 4] (by decide) with ⟨first, firstSecret⟩
  rcases exists_package [5, 6] (by decide) with ⟨second, secondSecret⟩
  rcases (Sound.start [first, second] 0 fun _ => 0).exists_returned decodes_iff
    (List.cons_ne_nil _ _) with ⟨state, run, returned⟩
  have written := (decoder_writes_file (List.cons_ne_nil _ _)
    (by simp [firstSecret, secondSecret, fwriteBufferSize]) run).2.1 returned
  refine ⟨first, second, state, run, returned, ?_⟩
  simpa [firstSecret, secondSecret] using written

end Threads

end MetaDedup.Decoder
