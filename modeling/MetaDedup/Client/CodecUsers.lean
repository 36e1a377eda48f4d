import MetaDedup.Client.Encoder
import MetaDedup.Foundation.Pipeline

/-! # Which thread uses which codec

Encoder thread `t` encodes the secrets with `encodeObj_[t]`. The collect thread encodes the
name of the file with `encodeObj_[0]`. No lock protects these objects. Here a call of
`encoding` is not one step: a thread is inside it from one step to another. -/

namespace MetaDedup.Encoder

open Foundation Function Relation

/-- Where the collect thread is. -/
inductive Collecting
  | extracting
  | holding (item : ShareChunkItem)
  | encodingName (head : FileHead)

/-- The queues and the threads. An encoder thread that has loaded a secret may be inside
the codec. -/
structure Threads where
  pipeline : Pipeline SecretItem ShareChunkItem
  encoding : Nat → Bool
  collecting : Collecting

namespace Threads

def start (items : List SecretItem) : Threads := ⟨.start items, fun _ => false, .extracting⟩

/-- What the encoder thread copies. The shares are whatever the codec has written. -/
def Copies (secret : Secret) (chunk : ShareChunk) : Prop :=
  chunk.secretID = secret.secretID ∧ chunk.secretSize = secret.data.length ∧
    chunk.isEnd = secret.isEnd

inductive Step (state : Threads) : Threads → Prop
  | add {item remaining} (next : state.pipeline.remaining = item :: remaining)
      (room : (state.pipeline.input state.pipeline.nextAdd).length < rbSize) :
      Step state { state with pipeline := state.pipeline.add numThreads item remaining }
  | load {index item rest} (inside : index < numThreads)
      (idle : state.pipeline.worker index = .idle)
      (next : state.pipeline.input index = item :: rest) :
      Step state { state with pipeline := state.pipeline.load index item rest }
  | copyHeader {index head} (inside : index < numThreads)
      (loaded : state.pipeline.worker index = .loaded (.file head)) :
      Step state { state with pipeline := state.pipeline.finish index (.file head) }
  | enterCodec {index secret} (inside : index < numThreads)
      (loaded : state.pipeline.worker index = .loaded (.secret secret)) :
      Step state { state with encoding := update state.encoding index true }
  | leaveCodec {index secret chunk} (inside : index < numThreads)
      (loaded : state.pipeline.worker index = .loaded (.secret secret))
      (encoding : state.encoding index = true) (copies : Copies secret chunk) :
      Step state
        { state with
          pipeline := state.pipeline.finish index (.share chunk)
          encoding := update state.encoding index false }
  | deliver {index result} (inside : index < numThreads)
      (finished : state.pipeline.worker index = .finished result)
      (room : (state.pipeline.output index).length < rbSize) :
      Step state { state with pipeline := state.pipeline.deliver index result }
  | extract {result rest} (extracting : state.collecting = .extracting)
      (next : state.pipeline.output state.pipeline.nextExtract = result :: rest) :
      Step state
        { state with
          pipeline := state.pipeline.extract numThreads result rest
          collecting := .holding result }
  | enterNameCodec {head} (holding : state.collecting = .holding (.file head)) :
      Step state { state with collecting := .encodingName head }
  | leaveNameCodec {head} (encoding : state.collecting = .encodingName head) :
      Step state { state with collecting := .extracting }
  | collectShares {chunk} (holding : state.collecting = .holding (.share chunk)) :
      Step state { state with collecting := .extracting }

inductive Thread
  | worker (index : Nat)
  | collect

def Inside (state : Threads) (object : Nat) : Thread → Prop
  | .worker index => index = object ∧ state.encoding index = true
  | .collect => object = 0 ∧ ∃ head, state.collecting = .encodingName head

def Exclusive (state : Threads) : Prop :=
  ∀ object left right, state.Inside object left → state.Inside object right → left = right

private theorem exclusive_of_idle {state : Threads} (idle : state.encoding 0 = false) :
    state.Exclusive := by
  intro object left right leftInside rightInside
  cases left with
  | worker leftIndex =>
      rcases leftInside with ⟨rfl, leftEncoding⟩
      cases right with
      | worker rightIndex => rw [rightInside.1]
      | collect =>
          rw [rightInside.1, idle] at leftEncoding
          cases leftEncoding
  | collect =>
      rcases leftInside with ⟨rfl, _⟩
      cases right with
      | worker rightIndex =>
          rcases rightInside with ⟨rfl, rightEncoding⟩
          cases idle.symm.trans rightEncoding
      | collect => rfl

/-! ## Files with one secret -/

def IsHeader (item : SecretItem) : Prop := ∃ head, item = .file head

structure HeaderOnly (items : List SecretItem) (state : Threads) : Prop where
  whole : state.pipeline.added ++ state.pipeline.remaining = items
  nextAdd : state.pipeline.nextAdd = state.pipeline.added.length % numThreads
  input : ∀ item ∈ state.pipeline.input 0, IsHeader item
  worker : ∀ item, state.pipeline.worker 0 = .loaded item → IsHeader item
  encoding : state.encoding 0 = false

namespace HeaderOnly

variable {items : List SecretItem} {state next : Threads}

private theorem start (items : List SecretItem) : HeaderOnly items (start items) where
  whole := rfl
  nextAdd := rfl
  input := fun _ member => nomatch member
  worker := by
    intro item loaded
    cases loaded
  encoding := rfl

variable {head : FileHead} {secrets : List SecretItem} {item : SecretItem}

private theorem add (short : secrets.length ≤ 1) (only : HeaderOnly (.file head :: secrets) state)
    {remaining : List SecretItem} (next : state.pipeline.remaining = item :: remaining) :
    HeaderOnly (.file head :: secrets)
      { state with pipeline := state.pipeline.add numThreads item remaining } where
  whole := by
    rw [← only.whole, next]
    exact List.append_assoc _ _ _
  nextAdd := by
    change (state.pipeline.nextAdd + 1) % numThreads =
      (state.pipeline.added ++ [item]).length % numThreads
    rw [only.nextAdd, Nat.mod_add_mod, List.length_append, List.length_singleton]
  input := by
    intro other member
    change other ∈ update state.pipeline.input state.pipeline.nextAdd _ 0 at member
    by_cases first : state.pipeline.nextAdd = 0
    · rw [first, update_self] at member
      rcases List.mem_append.mp member with old | new
      · exact only.input other old
      · have whole := only.whole
        have turn := only.nextAdd
        rw [first, numThreads] at turn
        cases added : state.pipeline.added with
        | nil =>
            rw [added, next] at whole
            rw [List.mem_singleton.mp new]
            exact ⟨head, (List.cons.inj whole).1⟩
        | cons first rest =>
            -- the item would be the third one
            have length := congrArg List.length whole
            rw [List.length_append, next, List.length_cons, List.length_cons] at length
            rw [added, List.length_cons] at length turn
            omega
    · rw [update_of_ne (Ne.symm first)] at member
      exact only.input other member
  worker := only.worker
  encoding := only.encoding

private theorem load (only : HeaderOnly items state) {index : Nat}
    {rest : List SecretItem} (next : state.pipeline.input index = item :: rest) :
    HeaderOnly items { state with pipeline := state.pipeline.load index item rest } where
  whole := only.whole
  nextAdd := only.nextAdd
  input := by
    intro other member
    change other ∈ update state.pipeline.input index rest 0 at member
    by_cases first : 0 = index
    · rw [first, update_self] at member
      apply only.input
      rw [first, next]
      exact List.mem_cons_of_mem _ member
    · rw [update_of_ne first] at member
      exact only.input other member
  worker := by
    intro other loaded
    change update state.pipeline.worker index (.loaded item) 0 = _ at loaded
    by_cases first : 0 = index
    · rw [first, update_self, Worker.loaded.injEq] at loaded
      apply only.input
      rw [first, next, loaded]
      exact List.mem_cons_self
    · rw [update_of_ne first] at loaded
      exact only.worker other loaded
  encoding := only.encoding

private theorem unloaded {workers : Nat → Worker SecretItem ShareChunkItem} {index : Nat}
    (worker : Worker SecretItem ShareChunkItem) (other : ∀ item, worker ≠ .loaded item)
    (loaded : update workers index worker 0 = .loaded item) :
    workers 0 = .loaded item := by
  by_cases first : 0 = index
  · rw [first, update_self] at loaded
    exact absurd loaded (other item)
  · rwa [update_of_ne first] at loaded

private theorem of_kept (only : HeaderOnly items state)
    (added : next.pipeline.added = state.pipeline.added ∧
      next.pipeline.remaining = state.pipeline.remaining)
    (nextAdd : next.pipeline.nextAdd = state.pipeline.nextAdd)
    (input : next.pipeline.input = state.pipeline.input)
    (worker : ∀ item, next.pipeline.worker 0 = .loaded item →
      state.pipeline.worker 0 = .loaded item)
    (encoding : next.encoding 0 = false) : HeaderOnly items next where
  whole := by rw [added.1, added.2, only.whole]
  nextAdd := by rw [nextAdd, added.1, only.nextAdd]
  input := by
    rw [input]
    exact only.input
  worker := fun item loaded => only.worker item (worker item loaded)
  encoding := encoding

private theorem step (short : secrets.length ≤ 1)
    (only : HeaderOnly (.file head :: secrets) state) (step : Step state next) :
    HeaderOnly (.file head :: secrets) next := by
  cases step with
  | add next _ => exact only.add short next
  | load _ _ next => exact only.load next
  | @copyHeader index header _ _ =>
      refine only.of_kept ⟨rfl, rfl⟩ rfl rfl ?_ only.encoding
      exact fun _ => unloaded (.finished (.file header)) fun _ => by simp
  | @enterCodec index secret _ loaded =>
      refine only.of_kept ⟨rfl, rfl⟩ rfl rfl (fun _ => id) ?_
      by_cases first : 0 = index
      · rw [← first] at loaded
        rcases only.worker _ loaded with ⟨header, equal⟩
        cases equal
      · exact (update_of_ne first _ _).trans only.encoding
  | @leaveCodec index secret chunk _ _ _ _ =>
      refine only.of_kept ⟨rfl, rfl⟩ rfl rfl ?_ ?_
      · exact fun _ => unloaded (.finished (.share chunk)) fun _ => by simp
      · by_cases first : 0 = index
        · rw [first]
          exact update_self _ _ _
        · exact (update_of_ne first _ _).trans only.encoding
  | deliver _ _ _ =>
      refine only.of_kept ⟨rfl, rfl⟩ rfl rfl ?_ only.encoding
      exact fun _ => unloaded .idle fun _ => by simp
  | extract _ _ => exact only.of_kept ⟨rfl, rfl⟩ rfl rfl (fun _ => id) only.encoding
  | enterNameCodec _ => exact only.of_kept ⟨rfl, rfl⟩ rfl rfl (fun _ => id) only.encoding
  | leaveNameCodec _ => exact only.of_kept ⟨rfl, rfl⟩ rfl rfl (fun _ => id) only.encoding
  | collectShares _ => exact only.of_kept ⟨rfl, rfl⟩ rfl rfl (fun _ => id) only.encoding

private theorem run (short : secrets.length ≤ 1)
    (run : ReflTransGen Step (Threads.start (.file head :: secrets)) state) :
    HeaderOnly (.file head :: secrets) state := by
  induction run with
  | refl => exact start _
  | tail _ step induction => exact induction.step short step

end HeaderOnly

/-! ## Files with more secrets -/

/-- The collect thread is encoding the name of the file, and nothing else has been added
yet. -/
structure Naming (items : List SecretItem) (state : Threads) : Prop where
  remaining : state.pipeline.remaining = items
  nextAdd : state.pipeline.nextAdd = 1
  input : ∀ index, state.pipeline.input index = []
  idle : state.pipeline.worker 0 = .idle
  collecting : ∃ head, state.collecting = .encodingName head

private theorem naming_run (head : FileHead) (items : List SecretItem) :
    ∃ state, ReflTransGen Step (start (.file head :: items)) state ∧
      Naming items state := by
  refine ⟨_,
    .head (.add rfl (Nat.succ_pos _)) <|
    .head (.load Nat.two_pos rfl rfl) <|
    .head (.copyHeader Nat.two_pos rfl) <|
    .head (.deliver Nat.two_pos rfl (Nat.succ_pos _)) <|
    .head (.extract rfl rfl) <|
    .head (.enterNameCodec rfl) .refl, rfl, rfl, ?_, rfl, head, rfl⟩
  intro index
  by_cases first : index = 0
  · rw [first]
    rfl
  · exact (update_of_ne first _ _).trans (update_of_ne first _ _)

theorem Naming.encoding_run {first second : Secret} {rest : List SecretItem}
    {state : Threads} (naming : Naming (.secret first :: .secret second :: rest) state) :
    ∃ next, ReflTransGen Step state next ∧
      next.Inside 0 (.worker 0) ∧ next.Inside 0 .collect := by
  let added := state.pipeline.add numThreads (.secret first) (.secret second :: rest)
  let both := added.add numThreads (.secret second) rest
  have turn : added.nextAdd = 0 := by
    change (state.pipeline.nextAdd + 1) % numThreads = 0
    rw [naming.nextAdd]
    rfl
  have empty : added.input 0 = [] := by
    change update state.pipeline.input state.pipeline.nextAdd _ 0 = []
    rw [naming.nextAdd, update_of_ne Nat.zero_ne_one, naming.input]
  have loaded : both.input 0 = [.secret second] := by
    change update added.input added.nextAdd (added.input added.nextAdd ++ _) 0 = _
    rw [turn, update_self, empty]
    rfl
  refine ⟨⟨both.load 0 (.secret second) [], update state.encoding 0 true,
    state.collecting⟩, ?_, ⟨rfl, rfl⟩, rfl, naming.collecting⟩
  have firstAdded : Step state { state with pipeline := added } := by
    apply Step.add naming.remaining
    rw [naming.input]
    exact Nat.succ_pos _
  have secondAdded : Step { state with pipeline := added } { state with pipeline := both } := by
    apply Step.add rfl
    rw [turn, empty]
    exact Nat.succ_pos _
  have taken : Step { state with pipeline := both }
      { state with pipeline := both.load 0 (.secret second) [] } :=
    .load Nat.two_pos naming.idle loaded
  have holding : (both.load 0 (.secret second) []).worker 0 = .loaded (.secret second) :=
    rfl
  have entered : Step { state with pipeline := both.load 0 (.secret second) [] }
      ⟨both.load 0 (.secret second) [], update state.encoding 0 true,
        state.collecting⟩ :=
    .enterCodec Nat.two_pos holding
  exact (((ReflTransGen.single firstAdded).tail secondAdded).tail taken).tail entered

theorem shared_codec (head : FileHead) (first second : Secret) (rest : List SecretItem) :
    ∃ state, ReflTransGen Step
        (start (.file head :: .secret first :: .secret second :: rest)) state ∧
      state.Inside 0 (.worker 0) ∧ state.Inside 0 .collect := by
  rcases naming_run head (.secret first :: .secret second :: rest) with ⟨state, run, naming⟩
  rcases naming.encoding_run with ⟨next, encodes, worker, collect⟩
  exact ⟨next, run.trans encodes, worker, collect⟩

/-- No codec is ever used by two threads at once just for files with at most one
secret. -/
theorem codec_exclusive_iff (head : FileHead) (secrets : List Secret) :
    (∀ state, ReflTransGen Step
        (start (.file head :: secrets.map .secret)) state → state.Exclusive) ↔
      secrets.length ≤ 1 := by
  constructor
  · intro exclusive
    match secrets with
    | [] => exact Nat.zero_le 1
    | [_] => exact Nat.le_refl 1
    | first :: second :: rest =>
        rcases shared_codec head first second (rest.map .secret) with
          ⟨state, run, worker, collect⟩
        cases exclusive state run 0 _ _ worker collect
  · intro short state run
    rw [← List.length_map SecretItem.secret] at short
    exact exclusive_of_idle (HeaderOnly.run short run).encoding

def oneByteSecret (byte : Byte) (secretID : BitVec 32) (isEnd : Bool) : Secret :=
  ⟨[byte], secretID, isEnd, show 1 ≤ secretSize by decide⟩

def twoSecrets : List SecretItem :=
  [.file ⟨[47], 2, by decide⟩, .secret (oneByteSecret 7 0 false),
    .secret (oneByteSecret 8 1 true)]

/-- The codec of the first thread is used by the collect thread as well. -/
theorem codec_shared_two_secrets :
    ∃ state, ReflTransGen Step (start twoSecrets) state ∧
      state.Inside 0 (.worker 0) ∧ state.Inside 0 .collect ∧ ¬ state.Exclusive := by
  rcases shared_codec _ _ _ _ with ⟨state, run, worker, collect⟩
  refine ⟨state, run, worker, collect, ?_⟩
  intro exclusive
  cases exclusive 0 _ _ worker collect

end Threads

end MetaDedup.Encoder
