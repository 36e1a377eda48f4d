import Mathlib.Logic.Relation
import MetaDedup.Client.MetaIndirection

/-! # The key recipe between the collect thread and the upload thread

For one cloud, the collect thread passes a metadata chunk to the uploader with `addMeta`
and appends the record of the chunk to `share-%d.key` afterwards. The meta upload thread
takes chunks from its ring buffer until one is a `SHARE_END`; it then encrypts the key
file, removes it and sends what it has encrypted. The threads meet only in the ring
buffer and in the file. -/

namespace MetaDedup.KeyRecipe

open Foundation Encoder Relation
open Server (fpSize)

/-- Where the meta upload thread is. After `openssl enc` there is an encrypted file with
the records of the key file, or none when there was no key file. In that case the thread
goes on with a null pointer for the file. -/
inductive UploadPhase
  | extract
  | encrypt
  | remove (encrypted : Option (List KeyRecord))
  | send (encrypted : Option (List KeyRecord))
  | exited (sent : List KeyRecord)
  | crashed

/-- The two threads and what they share. `unwritten` is the record of a chunk that has
been passed on and whose record has not been appended. -/
structure Threads where
  collector : Collector
  shares : List (DataShare × StackMemory)
  unwritten : Option KeyRecord
  ringBufferMeta : List MetaChunk
  keyFile : Option (List KeyRecord)
  uploaded : List MetaChunk
  phase : UploadPhase

namespace Threads

def start (metaChunkBuffer : Buffer Byte) (shares : List (DataShare × StackMemory)) :
    Threads where
  collector := .start metaChunkBuffer
  shares := shares
  unwritten := none
  ringBufferMeta := []
  keyFile := none
  uploaded := []
  phase := .extract

def written (threads : Threads) : List KeyRecord := threads.keyFile.getD []

/-- Collect a share that ends no chunk. -/
def collect (threads : Threads) (collector : Collector)
    (shares : List (DataShare × StackMemory)) : Threads :=
  { threads with collector, shares }

def addMeta (threads : Threads) (collector : Collector)
    (shares : List (DataShare × StackMemory)) (chunk : MetaChunk) (record : KeyRecord) :
    Threads :=
  { threads with
    collector, shares
    unwritten := some record
    ringBufferMeta := threads.ringBufferMeta ++ [chunk] }

def writeKey (threads : Threads) (record : KeyRecord) : Threads :=
  { threads with unwritten := none, keyFile := some (threads.written ++ [record]) }

def extract (threads : Threads) (chunk : MetaChunk) (ringBufferMeta : List MetaChunk) :
    Threads :=
  { threads with
    ringBufferMeta
    uploaded := threads.uploaded ++ [chunk]
    phase := if chunk.isEnd then .encrypt else .extract }

def encrypt (threads : Threads) : Threads :=
  { threads with phase := .remove threads.keyFile }

def remove (threads : Threads) (encrypted : Option (List KeyRecord)) : Threads :=
  { threads with keyFile := none, phase := .send encrypted }

def send (threads : Threads) (encrypted : Option (List KeyRecord)) : Threads :=
  { threads with phase := encrypted.elim .crashed .exited }

/-- A step of one of the threads. The upload thread encrypts the key file only when the
condition holds; with the condition `True` these are all interleavings. -/
inductive Step (crypto : CryptoPrimitive) (size : Nat) (condition : Threads → Prop)
    (threads : Threads) : Threads → Prop
  | collect {share memory shares collector} (ready : threads.unwritten = none)
      (next : threads.shares = (share, memory) :: shares)
      (uncut : threads.collector.collectShare crypto memory share = (collector, none)) :
      Step crypto size condition threads (threads.collect collector shares)
  | addMeta {share memory shares collector chunk record}
      (ready : threads.unwritten = none)
      (next : threads.shares = (share, memory) :: shares)
      (cut : threads.collector.collectShare crypto memory share =
        (collector, some (chunk, record)))
      (room : threads.ringBufferMeta.length < size) :
      Step crypto size condition threads
        (threads.addMeta collector shares chunk record)
  | writeKey {record} (passed : threads.unwritten = some record) :
      Step crypto size condition threads (threads.writeKey record)
  | extract {chunk ringBufferMeta} (running : threads.phase = .extract)
      (next : threads.ringBufferMeta = chunk :: ringBufferMeta) :
      Step crypto size condition threads (threads.extract chunk ringBufferMeta)
  | encrypt (ended : threads.phase = .encrypt) (allowed : condition threads) :
      Step crypto size condition threads threads.encrypt
  | remove {encrypted} (waiting : threads.phase = .remove encrypted) :
      Step crypto size condition threads (threads.remove encrypted)
  | send {encrypted} (removed : threads.phase = .send encrypted) :
      Step crypto size condition threads (threads.send encrypted)

def Written (threads : Threads) : Prop := threads.unwritten = none

end Threads

/-! ## Chunks and the end of the file -/

section Chunks

variable (crypto : CryptoPrimitive)

variable {collector : Collector}

theorem add_of_collectShare {collection : Collection} {share : DataShare}
    {memory : StackMemory} {cut : Option (MetaChunk × KeyRecord)}
    (collected : collection.collector.collectShare crypto memory share = (collector, cut)) :
    collection.add crypto (share, memory) =
      ⟨collector, collection.chunks ++ (cut.map Prod.fst).toList,
        collection.keyFile ++ (cut.map Prod.snd).toList⟩ := by
  simp only [Collection.add, collected]

private theorem isEnd_of_collectShare {collected : Collector} {share : DataShare}
    {memory : StackMemory} {chunk : MetaChunk} {record : KeyRecord}
    (cut : collector.collectShare crypto memory share = (collected, some (chunk, record))) :
    chunk.isEnd = share.isEnd := by
  simp only [Collector.collectShare] at cut
  split at cut
  · cases cut
    rfl
  · cases cut

end Chunks

/-! ## The invariant -/

section Invariant

variable (crypto : CryptoPrimitive) (metaChunkBuffer : Buffer Byte)

def collected (shares : List (DataShare × StackMemory)) : Collection :=
  (Collection.start metaChunkBuffer).addAll crypto shares

theorem collected_append (shares : List (DataShare × StackMemory))
    (item : DataShare × StackMemory) :
    collected crypto metaChunkBuffer (shares ++ [item]) =
      (collected crypto metaChunkBuffer shares).add crypto item := by
  simp only [collected, Collection.addAll, List.foldl_append, List.foldl_cons,
    List.foldl_nil]

private theorem isEnd_of_mem_chunks {shares : List (DataShare × StackMemory)}
    (unended : ∀ item ∈ shares, item.1.isEnd = false) :
    ∀ chunk ∈ (collected crypto metaChunkBuffer shares).chunks, chunk.isEnd = false := by
  induction shares using List.reverseRecOn with
  | nil =>
      intro chunk member
      cases member
  | append_singleton shares item induction =>
      intro chunk member
      have earlier := induction fun other listed =>
        unended other (List.mem_append_left _ listed)
      rw [collected_append] at member
      cases result : (collected crypto metaChunkBuffer shares).collector.collectShare
          crypto item.2 item.1 with
      | mk collector cut =>
          rw [add_of_collectShare crypto result] at member
          cases cut with
          | none =>
              rw [Option.map_none, Option.toList_none, List.append_nil] at member
              exact earlier chunk member
          | some pair =>
              rcases List.mem_append.mp member with before | last
              · exact earlier chunk before
              · rw [List.mem_singleton.mp last, isEnd_of_collectShare crypto result]
                exact unended item (by simp)

def Describes (chunk : MetaChunk) (record : KeyRecord) : Prop :=
  record.secretID = chunk.secretID ∧ record.shareFP = chunk.shareFP

theorem describes_collected (shares : List (DataShare × StackMemory)) :
    List.Forall₂ Describes (collected crypto metaChunkBuffer shares).chunks
      (collected crypto metaChunkBuffer shares).keyFile := by
  induction shares using List.reverseRecOn with
  | nil => exact .nil
  | append_singleton shares item induction =>
      rw [collected_append]
      simp only [Collection.add, Collector.collectShare]
      split
      · exact List.rel_append induction (.cons ⟨rfl, rfl⟩ .nil)
      · simpa using induction

def PhaseHolds (done : List (DataShare × StackMemory)) (threads : Threads) : Prop :=
  let collection := collected crypto metaChunkBuffer done
  match threads.phase with
  | .extract => threads.written ++ threads.unwritten.toList = collection.keyFile
  | .encrypt => threads.written ++ threads.unwritten.toList = collection.keyFile ∧
      threads.uploaded ≠ [] ∧ threads.shares = []
  | .remove encrypted => threads.unwritten = none ∧
      encrypted = some collection.keyFile ∧ threads.shares = []
  | .send encrypted => threads.unwritten = none ∧
      encrypted = some collection.keyFile ∧ threads.keyFile = none ∧ threads.shares = []
  | .exited sent => threads.unwritten = none ∧
      sent = collection.keyFile ∧ threads.keyFile = none ∧ threads.shares = []
  | .crashed => False

structure Progress (shares done : List (DataShare × StackMemory)) (threads : Threads) :
    Prop where
  split : shares = done ++ threads.shares
  collector : threads.collector = (collected crypto metaChunkBuffer done).collector
  chunks : threads.uploaded ++ threads.ringBufferMeta =
    (collected crypto metaChunkBuffer done).chunks
  phase : PhaseHolds crypto metaChunkBuffer done threads

variable {crypto metaChunkBuffer} {shares done : List (DataShare × StackMemory)}
  {threads : Threads}

theorem Progress.start : Progress crypto metaChunkBuffer shares []
    (.start metaChunkBuffer shares) where
  split := rfl
  collector := rfl
  chunks := rfl
  phase := rfl

variable {earlier : List (DataShare × StackMemory)} {last : DataShare × StackMemory}
variable {chunk : MetaChunk}

/-- When the upload thread takes the chunk flagged as the last one, every share has been
collected. -/
theorem Progress.ended
    (progress : Progress crypto metaChunkBuffer (earlier ++ [last]) done threads)
    (unended : ∀ item ∈ earlier, item.1.isEnd = false)
    {rest : List MetaChunk} (next : threads.ringBufferMeta = chunk :: rest)
    (flagged : chunk.isEnd = true) : threads.shares = [] := by
  rcases List.eq_nil_or_concat' threads.shares with collectedAll | ⟨left, item, more⟩
  · exact collectedAll
  · -- The shares collected so far are earlier ones, and so are those of the chunk.
    have split := progress.split
    rw [more, ← List.append_assoc] at split
    have front := (List.append_inj' split rfl).1
    have listed : chunk ∈ (collected crypto metaChunkBuffer done).chunks := by
      rw [← progress.chunks, next]
      simp
    have continued := isEnd_of_mem_chunks crypto metaChunkBuffer
      (fun item member => unended item (by rw [front]; exact List.mem_append_left _ member))
      chunk listed
    cases continued.symm.trans flagged

variable {rest : List (DataShare × StackMemory)} {collector : Collector}

section

variable (progress : Progress crypto metaChunkBuffer shares done threads)
include progress

theorem Progress.collect
    {share : DataShare} {memory : StackMemory} (next : threads.shares = (share, memory) :: rest)
    (uncut : threads.collector.collectShare crypto memory share = (collector, none)) :
    Progress crypto metaChunkBuffer shares (done ++ [(share, memory)])
      (threads.collect collector rest) := by
  have result := uncut
  rw [progress.collector] at result
  have added : collected crypto metaChunkBuffer (done ++ [(share, memory)]) =
      ⟨collector, (collected crypto metaChunkBuffer done).chunks,
        (collected crypto metaChunkBuffer done).keyFile⟩ := by
    rw [collected_append, add_of_collectShare crypto result]
    simp
  constructor
  · rw [progress.split, next]
    simp [Threads.collect]
  · rw [added]
    rfl
  · rw [added]
    exact progress.chunks
  · have phase := progress.phase
    simp only [PhaseHolds, Threads.collect, added, Threads.written, next] at phase ⊢
    cases position : threads.phase <;> simp only [position] at phase ⊢
    · exact phase
    all_goals simp at phase

theorem Progress.addMeta {share : DataShare} {memory : StackMemory} {record : KeyRecord}
    (ready : threads.unwritten = none) (next : threads.shares = (share, memory) :: rest)
    (cut : threads.collector.collectShare crypto memory share =
      (collector, some (chunk, record))) :
    Progress crypto metaChunkBuffer shares (done ++ [(share, memory)])
      (threads.addMeta collector rest chunk record) := by
  have result := cut
  rw [progress.collector] at result
  have added : collected crypto metaChunkBuffer (done ++ [(share, memory)]) =
      ⟨collector, (collected crypto metaChunkBuffer done).chunks ++ [chunk],
        (collected crypto metaChunkBuffer done).keyFile ++ [record]⟩ := by
    rw [collected_append, add_of_collectShare crypto result]
    rfl
  constructor
  · rw [progress.split, next]
    simp [Threads.addMeta]
  · rw [added]
    rfl
  · rw [added, ← progress.chunks]
    simp [Threads.addMeta]
  · have phase := progress.phase
    simp only [PhaseHolds, Threads.addMeta, added, Threads.written, next, ready] at phase ⊢
    cases position : threads.phase <;> simp only [position] at phase ⊢
    · rw [← phase]
      simp
    all_goals simp at phase

theorem Progress.writeKey {record : KeyRecord} (passed : threads.unwritten = some record) :
    Progress crypto metaChunkBuffer shares done (threads.writeKey record) where
  split := progress.split
  collector := progress.collector
  chunks := progress.chunks
  phase := by
    have phase := progress.phase
    simp only [PhaseHolds, Threads.writeKey, Threads.written, passed] at phase ⊢
    cases position : threads.phase <;> simp only [position] at phase ⊢
    · rw [← phase]
      simp
    · rw [← phase.1]
      exact ⟨by simp, phase.2⟩
    all_goals simp at phase

end

theorem Progress.extract
    (progress : Progress crypto metaChunkBuffer (earlier ++ [last]) done threads)
    (unended : ∀ item ∈ earlier, item.1.isEnd = false)
    {rest : List MetaChunk} (running : threads.phase = .extract)
    (next : threads.ringBufferMeta = chunk :: rest) :
    Progress crypto metaChunkBuffer (earlier ++ [last]) done
      (threads.extract chunk rest) where
  split := progress.split
  collector := progress.collector
  chunks := by
    rw [← progress.chunks, next]
    simp [Threads.extract]
  phase := by
    have phase := progress.phase
    simp only [PhaseHolds, running] at phase
    cases flagged : chunk.isEnd with
    | true =>
        have ended := progress.ended unended next flagged
        simpa [PhaseHolds, Threads.extract, Threads.written, flagged] using
          And.intro phase ended
    | false => simpa [PhaseHolds, Threads.extract, Threads.written, flagged] using phase

theorem Progress.encrypt (progress : Progress crypto metaChunkBuffer shares done threads)
    (ended : threads.phase = .encrypt) (appended : threads.unwritten = none) :
    Progress crypto metaChunkBuffer shares done threads.encrypt where
  split := progress.split
  collector := progress.collector
  chunks := progress.chunks
  phase := by
    have phase := progress.phase
    simp only [PhaseHolds, ended, appended, Option.toList_none, List.append_nil] at phase
    rcases phase with ⟨complete, uploaded, collectedAll⟩
    refine ⟨appended, ?_, collectedAll⟩
    rw [Threads.written] at complete
    cases file : threads.keyFile with
    | some records =>
        rw [file] at complete
        exact congrArg some complete
    | none =>
        -- There is a chunk, and so there is a record.
        have describes := describes_collected crypto metaChunkBuffer done
        rw [← complete, file, ← progress.chunks] at describes
        have empty := List.forall₂_nil_right_iff.mp describes
        exact absurd (List.append_eq_nil_iff.mp empty).1 uploaded

/-- Every step keeps the invariant when the key file is encrypted only after the last
record has been appended. -/
theorem Progress.step {size : Nat}
    (progress : Progress crypto metaChunkBuffer (earlier ++ [last]) done threads)
    (unended : ∀ item ∈ earlier, item.1.isEnd = false) {next : Threads}
    (step : threads.Step crypto size Threads.Written next) :
    ∃ done, Progress crypto metaChunkBuffer (earlier ++ [last]) done next := by
  cases step with
  | collect ready next uncut => exact ⟨_, progress.collect next uncut⟩
  | addMeta ready next cut room => exact ⟨_, progress.addMeta ready next cut⟩
  | writeKey passed => exact ⟨done, progress.writeKey passed⟩
  | extract running next => exact ⟨done, progress.extract unended running next⟩
  | encrypt ended allowed => exact ⟨done, progress.encrypt ended allowed⟩
  | remove waiting =>
      refine ⟨done, ⟨progress.split, progress.collector, progress.chunks, ?_⟩⟩
      have phase := progress.phase
      simp only [PhaseHolds, waiting] at phase
      exact ⟨phase.1, phase.2.1, rfl, phase.2.2⟩
  | send removed =>
      refine ⟨done, ⟨progress.split, progress.collector, progress.chunks, ?_⟩⟩
      have phase := progress.phase
      simp only [PhaseHolds, removed] at phase
      rcases phase with ⟨appended, rfl, rest⟩
      exact ⟨appended, rfl, rest⟩

theorem Progress.run {size : Nat} (unended : ∀ item ∈ earlier, item.1.isEnd = false)
    (run : ReflTransGen (Threads.Step crypto size Threads.Written)
      (.start metaChunkBuffer (earlier ++ [last])) threads) :
    ∃ done, Progress crypto metaChunkBuffer (earlier ++ [last]) done threads := by
  induction run with
  | refl => exact ⟨[], .start⟩
  | tail _ step induction =>
      rcases induction with ⟨done, progress⟩
      exact progress.step unended step

end Invariant

/-! ## The key recipe that is sent -/

/-- The upload thread does not crash, and when it has exited it has sent one record for
every chunk of the file and there is no key file. -/
def SentComplete (chunks : List MetaChunk) (threads : Threads) : Prop :=
  threads.phase ≠ .crashed ∧ ∀ sent, threads.phase = .exited sent →
    List.Forall₂ Describes chunks sent ∧ threads.keyFile = none

private theorem cut_of_endsChunk (share : DataShare)
    (ends : matchesPattern share.node.shareFP || share.isEnd) (crypto : CryptoPrimitive)
    (memory : StackMemory) (collector : Collector) :
    ∃ next chunk record, collector.collectShare crypto memory share =
      (next, some (chunk, record)) ∧ chunk.isEnd = share.isEnd := by
  have cuts : (collector.addNode share.node).cutsAfter share = true := by
    simp only [Collector.cutsAfter, Bool.or_eq_true] at ends ⊢
    rcases ends with pattern | last
    · exact .inl (.inl pattern)
    · exact .inr last
  rw [Collector.collectShare, if_pos cuts]
  exact ⟨_, _, _, rfl, rfl⟩

/-- Both chunks of a file of two segments have been uploaded, and the record of the
second one is still to be written. -/
theorem uploaded_before_writeKey (crypto : CryptoPrimitive) (condition : Threads → Prop) :
    ∃ collector records chunks, ReflTransGen (Threads.Step crypto 2048 condition)
      (.start (fun _ => 0) ([(cuttingShare, .zero)] ++ [(lastShare, .zero)]))
      ⟨collector, [], some (Prod.snd records), [], some [Prod.fst records],
        [Prod.fst chunks, Prod.snd chunks], .encrypt⟩ := by
  rcases cut_of_endsChunk cuttingShare rfl crypto .zero (.start fun _ => 0) with
    ⟨middle, first, firstRecord, firstCut, unended⟩
  rcases cut_of_endsChunk lastShare rfl crypto .zero middle with
    ⟨final, last, lastRecord, lastCut, ended⟩
  have passedFirst : Threads.Step crypto 2048 condition
      (.start (fun _ => 0) ([(cuttingShare, .zero)] ++ [(lastShare, .zero)]))
      ⟨middle, [(lastShare, .zero)], some firstRecord, [first], none, [],
        .extract⟩ := .addMeta rfl rfl firstCut (Nat.zero_lt_succ 2047)
  have written : Threads.Step crypto 2048 condition
      ⟨middle, [(lastShare, .zero)], some firstRecord, [first], none, [], .extract⟩
      ⟨middle, [(lastShare, .zero)], none, [first], some [firstRecord], [],
        .extract⟩ := .writeKey rfl
  have passedLast : Threads.Step crypto 2048 condition
      ⟨middle, [(lastShare, .zero)], none, [first], some [firstRecord], [], .extract⟩
      ⟨final, [], some lastRecord, [first, last], some [firstRecord], [], .extract⟩ :=
    .addMeta rfl rfl lastCut (Nat.succ_lt_succ (Nat.zero_lt_succ 2046))
  have takenFirst : Threads.Step crypto 2048 condition
      ⟨final, [], some lastRecord, [first, last], some [firstRecord], [], .extract⟩
      (Threads.extract _ first [last]) := .extract rfl rfl
  rw [Threads.extract, unended] at takenFirst
  have takenLast : Threads.Step crypto 2048 condition
      ⟨final, [], some lastRecord, [last], some [firstRecord], [first], .extract⟩
      (Threads.extract _ last []) := .extract rfl rfl
  rw [Threads.extract, ended] at takenLast
  exact ⟨final, (firstRecord, lastRecord), (first, last),
    ((((ReflTransGen.single passedFirst).tail written).tail passedLast).tail
      takenFirst).tail takenLast⟩

/-- In every run in which the key file is encrypted only after the record of the last
chunk has been appended, the key recipe that is sent is complete and no key file is left
behind. -/
theorem key_recipe_complete (crypto : CryptoPrimitive) (size : Nat)
    (metaChunkBuffer : Buffer Byte) (earlier : List (DataShare × StackMemory))
    (last : DataShare × StackMemory) (unended : ∀ item ∈ earlier, item.1.isEnd = false)
    (threads : Threads)
    (run : ReflTransGen (Threads.Step crypto size Threads.Written)
      (.start metaChunkBuffer (earlier ++ [last])) threads) :
    SentComplete (collected crypto metaChunkBuffer (earlier ++ [last])).chunks threads := by
  rcases Progress.run unended run with ⟨done, progress⟩
  have phase := progress.phase
  constructor
  · intro crashed
    simp only [PhaseHolds, crashed] at phase
  · intro sent exited
    simp only [PhaseHolds, exited] at phase
    rcases phase with ⟨-, rfl, removed, collectedAll⟩
    have split := progress.split
    rw [collectedAll, List.append_nil] at split
    rw [split]
    exact ⟨describes_collected crypto metaChunkBuffer done, removed⟩

/-- A file of two segments whose records are written in time. -/
theorem key_recipe_complete_twoSegments :
    ∃ threads sent, threads.phase = .exited sent ∧ sent.length = 2 ∧
      SentComplete (collected (plainOpenSSL.cryptoPrimitive .highSecPair) (fun _ => 0)
        ([(cuttingShare, .zero)] ++ [(lastShare, .zero)])).chunks
        threads := by
  rcases uploaded_before_writeKey (plainOpenSSL.cryptoPrimitive .highSecPair)
    Threads.Written with ⟨collector, records, chunks, run⟩
  have sent := ((((run.tail (.writeKey rfl)).tail (.encrypt rfl rfl)).tail
    (.remove rfl)).tail (.send rfl))
  have unended : ∀ item ∈ [(cuttingShare, StackMemory.zero)], item.1.isEnd = false := by
    intro item member
    rw [List.mem_singleton.mp member]
    rfl
  exact ⟨_, [records.1, records.2], rfl, rfl,
    key_recipe_complete _ 2048 _ [(cuttingShare, .zero)] _ unended _ sent⟩

/-- The upload thread overtakes the collect thread: it has uploaded two chunks and sends
a key recipe with the record of the first one. The record of the second one is left in a
new key file. -/
theorem key_recipe_overtaken :
    ∃ threads records, ReflTransGen
        (Threads.Step (plainOpenSSL.cryptoPrimitive .highSecPair) 2048 fun _ => True)
        (.start (fun _ => 0)
          ([(cuttingShare, .zero)] ++ [(lastShare, .zero)])) threads ∧
      threads.uploaded.length = 2 ∧ threads.phase = .exited [Prod.fst records] ∧
      threads.keyFile = some [Prod.snd records] ∧
      ¬ SentComplete (collected (plainOpenSSL.cryptoPrimitive .highSecPair) (fun _ => 0)
        ([(cuttingShare, .zero)] ++ [(lastShare, .zero)])).chunks
        threads := by
  rcases uploaded_before_writeKey (plainOpenSSL.cryptoPrimitive .highSecPair)
    (fun _ => True) with ⟨collector, records, chunks, run⟩
  have sent := (((run.tail (.encrypt rfl trivial)).tail (.remove rfl)).tail
    (.send rfl)).tail (.writeKey rfl)
  refine ⟨_, records, sent, rfl, rfl, rfl, ?_⟩
  intro complete
  cases (complete.2 _ rfl).2

end MetaDedup.KeyRecipe
