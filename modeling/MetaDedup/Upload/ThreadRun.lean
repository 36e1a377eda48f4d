import MetaDedup.Upload.Protocol

/-! # An upload thread on its own

The packages an upload thread sends and the point where it exits do not depend on what
the server answers: whatever status lists come, the thread sends one package for each
round of its shares. This holds for the data threads and the metadata threads alike,
which run the same loop. -/

namespace MetaDedup.Upload

open Foundation Wire Uploader Relation
open Server (DataRequest readFile)

structure ThreadRun where
  thread : Thread
  sent : List DataRequest

namespace ThreadRun

/-- A step of the thread. The server may answer with any status list. -/
inductive Step : ThreadRun → ThreadRun → Prop
  | extract {run : ThreadRun} {item : Item} {rest : List Item}
      (phase : run.thread.phase = .extract) (next : run.thread.ringBuffer = item :: rest) :
      Step run ⟨(Thread.handle { run.thread with ringBuffer := rest } item).1,
        run.sent ++ (Thread.handle { run.thread with ringBuffer := rest } item).2⟩
  | getStatus {run : ThreadRun} {inHand : Option (ShareObject × Bool)}
      (phase : run.thread.phase = .awaitStatus inHand) (statusList : List Bool) :
      Step run ⟨(run.thread.receiveStatus inHand statusList).1,
        run.sent ++ (run.thread.receiveStatus inHand statusList).2⟩

def metadataOf : DataRequest → Option (List Byte)
  | .metadata package => some package
  | .shareData _ => none

def packages (run : ThreadRun) : List (List Byte) := run.sent.filterMap metadataOf

/-! ## Exiting -/

def isEndItem : Item → Bool
  | .fileHeader _ _ => false
  | .share _ isEnd => isEnd

/-- There is a run in which the thread exits, so that it can be joined. -/
def CanExit (thread : Thread) : Prop :=
  ∃ final : ThreadRun, ReflTransGen Step ⟨thread, []⟩ final ∧
    final.thread.phase = .exited

/-- A thread that has no `SHARE_END` in its ring buffer or in its hand. -/
structure Unended (thread : Thread) : Prop where
  ring : ∀ item ∈ thread.ringBuffer, isEndItem item = false
  phase : thread.phase = .extract ∨
    ∃ share, thread.phase = .awaitStatus (some (share, false))

theorem Unended.step {run next : ThreadRun} (unended : Unended run.thread)
    (step : Step run next) : Unended next.thread := by
  cases step with
  | @extract item rest phase ring =>
      have members := unended.ring
      rw [ring] at members
      rcases List.forall_mem_cons.mp members with ⟨first, others⟩
      cases item with
      | fileHeader head data => exact ⟨others, .inl phase⟩
      | share share isEnd =>
          change isEnd = false at first
          subst first
          rw [Thread.handle]
          split
          · exact ⟨others, .inr ⟨share, rfl⟩⟩
          · exact ⟨others, .inl rfl⟩
  | @getStatus inHand phase statusList =>
      rcases unended.phase with extracting | ⟨share, waiting⟩
      · cases extracting.symm.trans phase
      · cases waiting.symm.trans phase
        exact ⟨unended.ring, .inl rfl⟩

theorem Unended.run {start final : ThreadRun} (unended : Unended start.thread)
    (run : ReflTransGen Step start final) : Unended final.thread := by
  induction run with
  | refl => exact unended
  | tail _ step induction => exact induction.step step

private theorem exists_placed {run : ThreadRun} (phase : run.thread.phase = .extract)
    {share : ShareObject} {isEnd : Bool} {rest : List Item}
    (ring : run.thread.ringBuffer = .share share isEnd :: rest) :
    ∃ placed : ThreadRun, ReflTransGen Step run placed ∧
      placed.thread.ringBuffer = rest ∧
      placed.thread.phase = if isEnd then .awaitStatus none else .extract := by
  have first := Step.extract phase ring
  rw [Thread.handle] at first
  split at first
  · refine ⟨_, (ReflTransGen.single first).tail (.getStatus rfl []), ?_, ?_⟩
    · cases isEnd <;> rfl
    · cases isEnd <;> rfl
  · refine ⟨_, .single first, ?_, ?_⟩
    · cases isEnd <;> rfl
    · cases isEnd <;> rfl

private theorem later_of_not_end {item : Item} {rest : List Item} (notEnd : isEndItem item = false)
    (ended : ∃ other ∈ item :: rest, isEndItem other = true) :
    ∃ other ∈ rest, isEndItem other = true := by
  rcases ended with ⟨other, member, mark⟩
  rcases List.mem_cons.mp member with same | found
  · rw [same, notEnd] at mark
    cases mark
  · exact ⟨other, found, mark⟩

theorem exists_exit {run : ThreadRun} (phase : run.thread.phase = .extract)
    {items : List Item} (ring : run.thread.ringBuffer = items)
    (ended : ∃ item ∈ items, isEndItem item = true) :
    ∃ final : ThreadRun, ReflTransGen Step run final ∧
      final.thread.phase = .exited := by
  induction items generalizing run with
  | nil =>
      rcases ended with ⟨item, member, _⟩
      cases member
  | cons item rest induction =>
      cases item with
      | fileHeader head data =>
          have first := Step.extract phase ring
          rcases @induction ⟨(Thread.handle { run.thread with ringBuffer := rest }
            (.fileHeader head data)).1, _⟩ phase rfl (later_of_not_end rfl ended) with
            ⟨final, others, exits⟩
          exact ⟨final, .head first others, exits⟩
      | share share isEnd =>
          rcases exists_placed phase ring with ⟨placed, before, left, next⟩
          cases isEnd with
          | true => exact ⟨_, before.tail (.getStatus next []), rfl⟩
          | false =>
              rcases induction next left (later_of_not_end rfl ended) with
                ⟨final, others, exits⟩
              exact ⟨final, before.trans others, exits⟩

theorem canExit_iff {thread : Thread} (phase : thread.phase = .extract) :
    CanExit thread ↔ ∃ item ∈ thread.ringBuffer, isEndItem item = true := by
  constructor
  · rintro ⟨final, run, exits⟩
    by_contra none
    have unended : Unended thread := by
      refine ⟨?_, .inl phase⟩
      intro item member
      exact Bool.not_eq_true _ ▸ fun mark => none ⟨item, member, mark⟩
    rcases (unended.run run).phase with extracting | ⟨share, waiting⟩
    · cases extracting.symm.trans exits
    · cases waiting.symm.trans exits
  · exact exists_exit phase rfl

end ThreadRun

/-! ## What a package says -/

/-- The sizes of the secrets of shares, together. -/
def secretTotal (shares : List ShareObject) : Int :=
  (shares.map fun share => share.secretSize.toInt).sum

theorem secretTotal_append (first second : List ShareObject) :
    secretTotal (first ++ second) = secretTotal first + secretTotal second := by
  rw [secretTotal, List.map_append, List.sum_append, secretTotal, secretTotal]

private theorem secretTotal_singleton (share : ShareObject) :
    secretTotal [share] = share.secretSize.toInt := by
  rw [secretTotal, List.map_singleton, List.sum_singleton]

def longRange : Nat := 2 ^ 64

/-- A package for a round, after rounds with the shares `past`. The sizes are counted
in `long` fields. -/
structure Announces (name : List Byte) (fileSize : Int) (past round : List ShareObject)
    (package : List Byte) : Prop where
  size : package.length = entryAt name round.length
  fields : ∀ buffer : Buffer Byte, buffer.slice 0 package.length = package →
    (readFile buffer 0).fileSize = fileSize ∧
      (readFile buffer 0).sizeOfPastSecrets = (secretTotal past).bmod longRange ∧
      (readFile buffer 0).sizeOfComingSecrets = (secretTotal round).bmod longRange

/-- Packages for rounds that follow one another. -/
inductive Announced (name : List Byte) (fileSize : Int) :
    List ShareObject → List (List ShareObject) → List (List Byte) → Prop
  | nil (past : List ShareObject) : Announced name fileSize past [] []
  | cons {past round : List ShareObject} {rounds : List (List ShareObject)}
      {package : List Byte} {packages : List (List Byte)}
      (first : Announces name fileSize past round package)
      (rest : Announced name fileSize (past ++ round) rounds packages) :
      Announced name fileSize past (round :: rounds) (package :: packages)

theorem Announced.concat {name : List Byte} {fileSize : Int} {past round : List ShareObject}
    {rounds : List (List ShareObject)} {package : List Byte} {packages : List (List Byte)}
    (announced : Announced name fileSize past rounds packages)
    (last : Announces name fileSize (past ++ rounds.flatten) round package) :
    Announced name fileSize past (rounds ++ [round]) (packages ++ [package]) := by
  induction announced with
  | nil past =>
      rw [List.flatten_nil, List.append_nil] at last
      exact .cons last (.nil _)
  | cons first _ induction =>
      rw [List.flatten_cons, ← List.append_assoc] at last
      exact .cons first (induction last)

/-- The buffers of a thread that has uploaded the shares `past` and has placed others
since. -/
structure Account (name : List Byte) (fileSize : Int) (past placed : List ShareObject)
    (buffers : UploadBuffers) : Prop where
  collected : Collected name placed buffers
  fileSize : buffers.uploadMetaBuffer.readInt fileSizeAt longSize = fileSize
  past : buffers.uploadMetaBuffer.readInt sizeOfPastSecretsAt longSize =
    (secretTotal past).bmod longRange
  coming : buffers.uploadMetaBuffer.readInt sizeOfComingSecretsAt longSize =
    (secretTotal placed).bmod longRange

namespace Account

variable {name : List Byte} {fileSize : Int} {past placed : List ShareObject}
  {buffers : UploadBuffers}

variable (account : Account name fileSize past placed buffers)
include account

theorem announces :
    Announces name fileSize past placed buffers.metaPackage := by
  have size : buffers.metaPackage.length = entryAt name placed.length := by
    rw [UploadBuffers.metaPackage, Buffer.slice_length, account.collected.metaWP]
  refine ⟨size, ?_⟩
  intro buffer holds
  rw [size] at holds
  rw [UploadBuffers.metaPackage, account.collected.metaWP] at holds
  have fields : ∀ field, field + longSize ≤ fileShareMDHeadSize →
      buffer.readInt (0 + field) longSize =
        buffers.uploadMetaBuffer.readInt (0 + field) longSize := by
    intro field inside
    apply Buffer.readInt_congr
    apply Buffer.slice_sub holds
    rw [entryAt]
    omega
  have fileSize := fields fileSizeAt (by decide)
  have pastSize := fields sizeOfPastSecretsAt (by decide)
  have comingSize := fields sizeOfComingSecretsAt (by decide)
  simp only [readFile]
  refine ⟨?_, ?_, ?_⟩
  · rw [fileSize, Nat.zero_add, account.fileSize]
  · rw [pastSize, Nat.zero_add, account.past]
  · rw [comingSize, Nat.zero_add, account.coming]

private theorem putShare (share : ShareObject) (bounded : placed.length + 1 < intBound) :
    Account name fileSize past (placed ++ [share]) (buffers.putShare share) := by
  have buffer := account.collected.putShare_buffer share
  have head : fileShareMDHeadSize ≤ entryAt name placed.length := by
    rw [entryAt]
    omega
  have written : ∀ field, field + longSize ≤ fileShareMDHeadSize →
      Buffer.readInt (buffers.uploadMetaBuffer.write (entryAt name placed.length)
        share.header) field longSize = buffers.uploadMetaBuffer.readInt field longSize := by
    intro field inside
    exact Buffer.readInt_congr (Buffer.slice_write_of_disjoint _ (.inl (by omega)))
  refine ⟨account.collected.putShare share bounded, ?_, ?_, ?_⟩
  · rw [buffer, Buffer.readInt_congr (slice_countShare _ _ (.inl (by decide))),
      written _ (by decide), account.fileSize]
  · rw [buffer, Buffer.readInt_congr (slice_countShare _ _ (.inl (by decide))),
      written _ (by decide), account.past]
  · have apart : sizeOfComingSecretsAt + longSize ≤ numOfComingSecretsAt ∨
        numOfComingSecretsAt + intSize ≤ sizeOfComingSecretsAt := by decide
    rw [buffer, countShare, Buffer.readInt_writeInt,
      Buffer.readInt_congr (Buffer.slice_writeInt_of_disjoint _ _ apart),
      written _ (by decide), account.coming, secretTotal_append, secretTotal_singleton]
    exact Int.bmod_add_bmod

/-- The header is kept for the next round. In between, the shares in the container
buffer have been moved. -/
theorem updateHeader (uploaded : UploadBuffers) (header : uploaded.header = buffers.header)
    (same : uploaded.uploadMetaBuffer = buffers.uploadMetaBuffer) :
    Account name fileSize (past ++ placed) [] uploaded.updateHeader := by
  have first : uploaded.header = 0 := header.trans account.collected.header
  have package : HoldsPackage name placed uploaded.uploadMetaBuffer := by
    rw [same]
    exact account.collected.package
  have buffer := Collected.updateHeader_buffer first
  rw [same] at buffer
  refine ⟨Collected.updateHeader first package, ?_, ?_, ?_⟩
  · rw [buffer, Buffer.readInt_congr (slice_resetHeader _ (.inl (by decide))),
      account.fileSize]
  · have behind : sizeOfPastSecretsAt + longSize ≤ sizeOfComingSecretsAt ∧
        sizeOfPastSecretsAt + longSize ≤ numOfComingSecretsAt := by decide
    have before : numOfPastSecretsAt + intSize ≤ sizeOfPastSecretsAt ∧
        numOfPastSecretsAt + intSize ≤ sizeOfComingSecretsAt := by decide
    rw [buffer, resetHeader,
      Buffer.readInt_congr (Buffer.slice_writeInt_of_disjoint _ _ (.inl behind.1)),
      Buffer.readInt_congr (Buffer.slice_writeInt_of_disjoint _ _ (.inl behind.2)),
      Buffer.readInt_writeInt,
      Buffer.readInt_congr (Buffer.slice_writeInt_of_disjoint _ _ (.inr before.1)),
      Buffer.readInt_congr (Buffer.slice_writeInt_of_disjoint _ _ (.inr before.2)),
      account.past, account.coming, secretTotal_append]
    exact (Int.add_bmod _ _ _).symm
  · rw [buffer, resetHeader, Buffer.readInt_writeInt]
    rfl

end Account

/-! ## The rounds of a run -/

/-- The queue of a thread for a file with a name and shares. -/
structure FileQueue where
  head : Buffer Byte
  data : Buffer Byte
  name : List Byte
  fileSize : Int
  shares : List ShareObject
  fullNameSize : head.readInt fullNameSizeAt intSize = name.length
  fullName : data.slice 0 name.length = name
  fileSize_read : head.readInt fileSizeAt longSize = fileSize
  sizeOfPastSecrets : head.readInt sizeOfPastSecretsAt longSize = 0
  numOfComingSecrets : head.readInt numOfComingSecretsAt intSize = 0
  sizeOfComingSecrets : head.readInt sizeOfComingSecretsAt longSize = 0
  shares_nonempty : shares ≠ []
  sized : ∀ share ∈ shares, 1 ≤ share.data.length

private theorem shareItems_end {shares : List ShareObject} (nonempty : shares ≠ []) :
    ∃ item ∈ shareItems shares, ThreadRun.isEndItem item = true := by
  induction shares with
  | nil => exact absurd rfl nonempty
  | cons share left induction =>
      by_cases last : left = []
      · exact ⟨.share share left.isEmpty, List.mem_cons_self, List.isEmpty_iff.mpr last⟩
      · rcases induction last with ⟨item, member, ends⟩
        exact ⟨item, List.mem_cons_of_mem _ member, ends⟩

namespace FileQueue

variable (queue : FileQueue)

def items : List Item := .fileHeader queue.head queue.data :: shareItems queue.shares

theorem items_end : ∃ item ∈ queue.items, ThreadRun.isEndItem item = true := by
  rcases shareItems_end queue.shares_nonempty with ⟨item, member, ends⟩
  exact ⟨item, List.mem_cons_of_mem _ member, ends⟩

/-- A thread that is about to upload the file with empty buffers. -/
structure Begins (thread : Thread) : Prop where
  ringBuffer : thread.ringBuffer = queue.items
  phase : thread.phase = .extract
  buffers : thread.buffers.metaWP = 0 ∧ thread.buffers.containerWP = 0 ∧
    thread.buffers.numOfShares = 0

private theorem account_start {buffers : UploadBuffers}
    (empty : buffers.metaWP = 0 ∧ buffers.containerWP = 0 ∧ buffers.numOfShares = 0) :
    Account queue.name queue.fileSize [] []
      (buffers.putFileHeader queue.head queue.data) := by
  have buffer := Collected.putFileHeader_buffer empty.1 queue.data queue.fullNameSize
  have fields : ∀ field, field + longSize ≤ fileShareMDHeadSize →
      (buffers.putFileHeader queue.head queue.data).uploadMetaBuffer.readInt field longSize =
        queue.head.readInt field longSize := by
    intro field inside
    rw [buffer, Buffer.readInt_congr (Buffer.slice_copy_of_disjoint _ _ (.inl inside))]
    exact Buffer.readInt_congr (Buffer.slice_copy_zero _ _ inside)
  refine ⟨Collected.putFileHeader empty queue.fullNameSize queue.numOfComingSecrets
    queue.fullName, ?_, ?_, ?_⟩
  · rw [fields _ (by decide), queue.fileSize_read]
  · rw [fields _ (by decide), queue.sizeOfPastSecrets]
    rfl
  · rw [fields _ (by decide), queue.sizeOfComingSecrets]
    rfl

/-- The states a thread goes through. -/
inductive Invariant : ThreadRun → Prop
  | starting {run : ThreadRun} (phase : run.thread.phase = .extract)
      (ring : run.thread.ringBuffer = queue.items)
      (buffers : run.thread.buffers.metaWP = 0 ∧ run.thread.buffers.containerWP = 0 ∧
        run.thread.buffers.numOfShares = 0)
      (sent : run.packages = []) : Invariant run
  | collecting {run : ThreadRun} {done : List (List ShareObject)}
      {placed left : List ShareObject} (phase : run.thread.phase = .extract)
      (ring : run.thread.ringBuffer = shareItems left) (remaining : left ≠ [])
      (account : Account queue.name queue.fileSize done.flatten placed run.thread.buffers)
      (plan : planRounds queue.shares = done ++ packRounds placed left)
      (sent : Announced queue.name queue.fileSize [] done run.packages) : Invariant run
  | waiting {run : ThreadRun} {inHand : Option (ShareObject × Bool)}
      {done later : List (List ShareObject)} {placed : List ShareObject}
      (phase : run.thread.phase = .awaitStatus inHand)
      (ahead : Ahead inHand run.thread.ringBuffer later)
      (account : Account queue.name queue.fileSize done.flatten placed run.thread.buffers)
      (plan : planRounds queue.shares = done ++ placed :: later)
      (sent : Announced queue.name queue.fileSize [] (done ++ [placed]) run.packages) :
      Invariant run
  | exited {run : ThreadRun} (phase : run.thread.phase = .exited)
      (sent : Announced queue.name queue.fileSize [] (planRounds queue.shares)
        run.packages) : Invariant run

variable {queue}

@[simp] theorem packages_append (thread other : Thread) (sent more : List DataRequest) :
    ThreadRun.packages ⟨thread, sent ++ more⟩ =
      ThreadRun.packages ⟨other, sent⟩ ++ more.filterMap ThreadRun.metadataOf :=
  List.filterMap_append

variable {thread : Thread} {sent : List DataRequest} {done : List (List ShareObject)}
variable {placed left : List ShareObject}

theorem Invariant.place {share : ShareObject} (ring : thread.ringBuffer = shareItems left)
    (account : Account queue.name queue.fileSize done.flatten placed thread.buffers)
    (bounded : placed.length + 1 < intBound)
    (plan : planRounds queue.shares = done ++ packRounds (placed ++ [share]) left)
    (announced : Announced queue.name queue.fileSize [] done
      (ThreadRun.packages ⟨thread, sent⟩)) :
    Invariant queue ⟨(thread.place share left.isEmpty).1,
      sent ++ (thread.place share left.isEmpty).2⟩ := by
  have grown := account.putShare share bounded
  cases left with
  | nil =>
      rw [packRounds] at plan
      refine .waiting rfl ?_ grown plan ?_
      · change Ahead none thread.ringBuffer []
        rw [ring]
        exact .ended
      · rw [packages_append _ thread]
        exact announced.concat grown.announces
  | cons next left =>
      refine .collecting rfl ring (List.cons_ne_nil _ _) grown plan ?_
      rw [packages_append _ thread]
      exact (List.append_nil _).symm ▸ announced

theorem Invariant.extract {item : Item}
    {rest : List Item} (ring : thread.ringBuffer = shareItems left)
    (next : thread.ringBuffer = item :: rest)
    (account : Account queue.name queue.fileSize done.flatten placed thread.buffers)
    (plan : planRounds queue.shares = done ++ packRounds placed left)
    (announced : Announced queue.name queue.fileSize [] done
      (ThreadRun.packages ⟨thread, sent⟩)) :
    Invariant queue ⟨(Thread.handle { thread with ringBuffer := rest } item).1,
      sent ++ (Thread.handle { thread with ringBuffer := rest } item).2⟩ := by
  cases left with
  | nil =>
      cases ring.symm.trans next
  | cons share left =>
      rw [ring, shareItems] at next
      cases next
      have positive : ∀ other ∈ placed, 1 ≤ other.data.length := by
        intro other member
        apply queue.sized other
        rw [← planRounds_flatten queue.shares, plan, List.flatten_append, packRounds_flatten]
        exact List.mem_append_right _ (List.mem_append_left _ member)
      have count := Collected.length_le positive
      rw [packRounds] at plan
      rw [Thread.handle, account.collected.containerWP]
      by_cases full : share.data.length + (shareData placed).length > uploadBufferSize
      · rw [if_pos full] at plan ⊢
        refine .waiting rfl (.inHand share left) account plan ?_
        rw [packages_append _ thread]
        exact announced.concat account.announces
      · rw [if_neg full] at plan ⊢
        refine .place rfl account ?_ plan announced
        rw [uploadBufferSize] at full
        rw [intBound]
        omega

theorem Invariant.receiveStatus {later : List (List ShareObject)}
    {inHand : Option (ShareObject × Bool)} (statusList : List Bool)
    (ahead : Ahead inHand thread.ringBuffer later)
    (account : Account queue.name queue.fileSize done.flatten placed thread.buffers)
    (plan : planRounds queue.shares = done ++ placed :: later)
    (announced : Announced queue.name queue.fileSize [] (done ++ [placed])
      (ThreadRun.packages ⟨thread, sent⟩)) :
    Invariant queue ⟨(thread.receiveStatus inHand statusList).1,
      sent ++ (thread.receiveStatus inHand statusList).2⟩ := by
  generalize items : thread.ringBuffer = ring at ahead
  cases ahead with
  | ended =>
      refine .exited rfl ?_
      rw [packages_append _ thread, plan]
      exact (List.append_nil _).symm ▸ announced
  | inHand share left =>
      have opened := account.updateHeader (thread.buffers.performUpload statusList).1 rfl rfl
      have rounds : done.flatten ++ placed = (done ++ [placed]).flatten := by
        rw [List.flatten_append, List.flatten_singleton]
      rw [rounds] at opened
      have split : planRounds queue.shares =
          (done ++ [placed]) ++ packRounds ([] ++ [share]) left := by
        rw [plan, List.append_assoc]
        rfl
      have kept : Announced queue.name queue.fileSize [] (done ++ [placed])
          (ThreadRun.packages ⟨thread, sent ++ [.shareData
            (thread.buffers.performUpload statusList).2]⟩) := by
        rw [packages_append _ thread]
        exact (List.append_nil _).symm ▸ announced
      rw [Thread.receiveStatus]
      generalize (thread.buffers.performUpload statusList).1.updateHeader = reset at opened ⊢
      generalize (thread.buffers.performUpload statusList).2 = body at kept ⊢
      have bounded : ([] : List ShareObject).length + 1 < intBound := by decide
      have ring : ({ thread with buffers := reset } : Thread).ringBuffer = shareItems left :=
        items
      have placed := Invariant.place ring opened bounded split kept
      rw [List.append_assoc] at placed
      exact placed

theorem Invariant.step {run next : ThreadRun} (invariant : Invariant queue run)
    (step : ThreadRun.Step run next) : Invariant queue next := by
  cases invariant with
  | starting phase ring buffers sent =>
      cases step with
      | extract _ items =>
          cases ring.symm.trans items
          have opened : Account queue.name queue.fileSize ([] : List (List ShareObject)).flatten
              [] (run.thread.buffers.putFileHeader queue.head queue.data) :=
            queue.account_start buffers
          refine .collecting phase rfl queue.shares_nonempty opened rfl ?_
          rw [packages_append _ run.thread]
          change Announced queue.name queue.fileSize [] [] (run.packages ++ [])
          rw [sent]
          exact .nil _
      | getStatus waiting _ => cases phase.symm.trans waiting
  | collecting phase ring remaining account plan sent =>
      cases step with
      | extract _ items => exact .extract ring items account plan sent
      | getStatus waiting _ => cases phase.symm.trans waiting
  | waiting phase ahead account plan sent =>
      cases step with
      | extract ready _ => cases phase.symm.trans ready
      | getStatus waiting statusList =>
          cases phase.symm.trans waiting
          exact .receiveStatus statusList ahead account plan sent
  | exited phase sent =>
      cases step with
      | extract ready _ => cases phase.symm.trans ready
      | getStatus waiting _ => cases phase.symm.trans waiting

theorem Invariant.run {start final : ThreadRun} (invariant : Invariant queue start)
    (run : ReflTransGen ThreadRun.Step start final) : Invariant queue final := by
  induction run with
  | refl => exact invariant
  | tail _ step induction => exact induction.step step

theorem invariant_start (begins : queue.Begins thread) :
    Invariant queue ⟨thread, []⟩ :=
  .starting begins.phase begins.ringBuffer begins.buffers rfl

theorem Invariant.announced {run : ThreadRun} (invariant : Invariant queue run) :
    ∃ done, done <+: planRounds queue.shares ∧
      Announced queue.name queue.fileSize [] done run.packages := by
  cases invariant with
  | starting _ _ _ sent => exact ⟨[], List.nil_prefix, sent ▸ .nil _⟩
  | @collecting done placed left _ _ _ _ plan sent =>
      exact ⟨done, plan ▸ List.prefix_append _ _, sent⟩
  | @waiting _ done later placed _ _ _ plan sent =>
      refine ⟨done ++ [placed], ⟨later, ?_⟩, sent⟩
      rw [plan, List.append_assoc, List.singleton_append]
  | exited _ sent => exact ⟨_, List.prefix_rfl, sent⟩

theorem Invariant.announced_all {run : ThreadRun} (invariant : Invariant queue run)
    (exits : run.thread.phase = .exited) :
    Announced queue.name queue.fileSize [] (planRounds queue.shares) run.packages := by
  cases invariant with
  | starting phase => cases phase.symm.trans exits
  | collecting phase => cases phase.symm.trans exits
  | waiting phase => cases phase.symm.trans exits
  | exited _ sent => exact sent

end FileQueue

end MetaDedup.Upload
