import Mathlib.Algebra.Order.BigOperators.Group.List
import MetaDedup.Server.DedupIntegrity
import MetaDedup.Server.IndexUpdates
import MetaDedup.Server.Stages

/-! # What a user can learn from the first stage

One value of the share index holds the references of all users. A user is nevertheless
told only about the shares that the user has sent: the answers of the first stage are a
function of the user's own calls. -/

namespace MetaDedup.Server

open Foundation

variable {generateHash : List Byte → Fingerprint}

/-- `BUFFER_LEN`. -/
def bufferLen : Nat := 4 * 2 ^ 20

/-! ## Calls as their user sees them -/

/-- The shares a second stage reads, each with its entry, up to the first one that is not
the one its entry announces. -/
def readShares (generateHash : List Byte → Fingerprint) (intraUserDupStatList : Nat → Bool)
    (shareDataBuffer : Buffer Byte) : Nat → Nat → List ShareMDEntry →
    List (ShareMDEntry × List Byte)
  | _, _, [] => []
  | numOfShares, offset, entry :: entries =>
      if intraUserDupStatList numOfShares then
        readShares generateHash intraUserDupStatList shareDataBuffer (numOfShares + 1) offset
          entries
      else
        let share := (shareDataBuffer.advance offset).slice 0 entry.shareSize
        (entry, share) ::
          if generateHash share = entry.shareFP then
            readShares generateHash intraUserDupStatList shareDataBuffer (numOfShares + 1)
              (offset + entry.shareSize) entries
          else []

/-- The entries in front of the first file whose name is refused. -/
def namedEntries (package : List FileShareMD) : List ShareMDEntry :=
  (package.takeWhile fun file => (formatFullFileName file.fullName).isSome).flatMap
    FileShareMD.entries

/-- A call without the data and the clock: of the shares that are sent, the entries and the
results of the fingerprint checks. -/
inductive UserCall
  | firstStage (package : List FileShareMD)
  | secondStage (package : List FileShareMD) (intraUserDupStatList : List Bool)
      (checks : List (ShareMDEntry × Bool))

namespace StageCall

variable {Node : Type u}

def userID : StageCall Node → Int
  | .firstStage userID _ => userID
  | .secondStage userID _ _ _ _ => userID

/-- The shares the user sends to the server, as far as they are read. -/
def reads (generateHash : List Byte → Fingerprint) :
    StageCall Node → List (ShareMDEntry × List Byte)
  | .firstStage _ _ => []
  | .secondStage _ package intraUserDupStatList shareDataBuffer _ =>
      readShares generateHash intraUserDupStatList shareDataBuffer 0 0 (namedEntries package)

def checks (generateHash : List Byte → Fingerprint) (call : StageCall Node) :
    List (ShareMDEntry × Bool) :=
  (call.reads generateHash).map fun read =>
    (read.1, decide (generateHash read.2 = read.1.shareFP))

def userCall (generateHash : List Byte → Fingerprint) (call : StageCall Node) : UserCall :=
  match call with
  | .firstStage _ package => .firstStage package
  | .secondStage _ package intraUserDupStatList _ _ =>
      .secondStage package
        ((List.range (package.flatMap FileShareMD.entries).length).map intraUserDupStatList)
        (call.checks generateHash)

end StageCall

namespace UserCall

def checks : UserCall → List (ShareMDEntry × Bool)
  | .firstStage _ => []
  | .secondStage _ _ checks => checks

/-- The fingerprints of the shares that pass the check. -/
def sent (call : UserCall) : List Fingerprint :=
  (call.checks.filter Prod.snd).map fun check => check.1.shareFP

/-- The shares that are read lie in the buffer of the connection. -/
def InBuffer (call : UserCall) : Prop :=
  (call.checks.map fun check => check.1.shareSize).sum ≤ bufferLen

instance (call : UserCall) : Decidable call.InBuffer := inferInstanceAs (Decidable (_ ≤ _))

end UserCall

def userCalls (generateHash : List Byte → Fingerprint) (user : Int)
    (history : List (StageCall ShareContainerBuffer)) : List UserCall :=
  (history.filter fun call => call.userID == user).map (StageCall.userCall generateHash)

theorem StageCall.userCall_checks (call : StageCall Node) :
    (call.userCall generateHash).checks = call.checks generateHash := by
  cases call <;> rfl

theorem StageCall.mem_sent_iff (call : StageCall Node) (shareFP : Fingerprint) :
    shareFP ∈ (call.userCall generateHash).sent ↔ ∃ read ∈ call.reads generateHash,
      generateHash read.2 = read.1.shareFP ∧ read.1.shareFP = shareFP := by
  rw [UserCall.sent, userCall_checks, checks]
  simp only [List.mem_map, List.mem_filter, exists_exists_and_eq_and, decide_eq_true_eq,
    and_assoc]

theorem StageCall.fits_of_inBuffer {call : StageCall Node}
    (inside : (call.userCall generateHash).InBuffer) :
    ∀ read ∈ call.reads generateHash, read.1.shareSize ≤ containerBufferSize := by
  intro read member
  rw [UserCall.InBuffer, userCall_checks, checks, List.map_map] at inside
  refine Nat.le_trans ?_ inside
  exact List.single_le_sum (fun _ _ => Nat.zero_le _) _ (List.mem_map_of_mem member)

/-! ## The answers as a function of the user's calls -/

namespace UserCall

/-- The answer to a user who has sent the shares of `owned`. -/
def answer (owned : Fingerprint → Bool) : UserCall → List FirstStageReply
  | .firstStage package =>
      let entries := package.flatMap FileShareMD.entries
      [{ intraUserDupStatList := entries.map fun entry => owned entry.shareFP
         sentShareDataSize :=
          (entries.map fun entry => if owned entry.shareFP then 0 else entry.shareSize).sum }]
  | .secondStage _ _ _ => []

def answers : (Fingerprint → Bool) → List UserCall → List FirstStageReply
  | _, [] => []
  | owned, call :: calls =>
      call.answer owned ++
        answers (fun shareFP => owned shareFP || call.sent.contains shareFP) calls

end UserCall

/-! ## Ownership -/

namespace ShareStore

variable {store : ShareStore}

private theorem reportShare_owns {state : ShareStore × FirstStageReply}
    (wellFormed : state.1.WellFormed) (userID : Int) (entry : ShareMDEntry) (user : Int)
    (shareFP : Fingerprint) :
    (reportShare userID state entry).1.owns user shareFP = state.1.owns user shareFP := by
  rcases state.1.intraUserIndexUpdate_adds entry.shareFP userID with ⟨own, updated⟩
  rw [reportShare]
  cases duplicate : (state.1.intraUserIndexUpdate entry.shareFP userID).2 with
  | false =>
      rw [duplicate, if_neg Bool.false_ne_true] at updated
      rw [updated]
  | true =>
      rw [duplicate, if_pos rfl] at updated
      rw [duplicate] at own
      apply Bool.eq_iff_iff.mpr
      rw [updated.owns wellFormed]
      constructor
      · rintro (earlier | ⟨rfl, rfl⟩)
        · exact earlier
        · exact own.symm
      · exact .inl

theorem foldl_reportShare_reply (userID : Int) (entries : List ShareMDEntry)
    (state : ShareStore × FirstStageReply) (wellFormed : state.1.WellFormed) :
    (∀ user shareFP, (entries.foldl (reportShare userID) state).1.owns user shareFP =
      state.1.owns user shareFP) ∧
    (entries.foldl (reportShare userID) state).2 =
      ⟨state.2.intraUserDupStatList ++
          entries.map fun entry => state.1.owns userID entry.shareFP,
        state.2.sentShareDataSize + (entries.map fun entry =>
          if state.1.owns userID entry.shareFP then 0 else entry.shareSize).sum⟩ := by
  induction entries generalizing state with
  | nil =>
      refine ⟨fun _ _ => rfl, ?_⟩
      rw [List.map_nil, List.append_nil]
      rfl
  | cons entry rest induction =>
      have kept := reportShare_owns wellFormed userID entry
      have flag := (state.1.intraUserIndexUpdate_adds entry.shareFP userID).1
      rcases induction _ (wellFormed.reportShare userID entry) with ⟨owns, reply⟩
      rw [List.foldl_cons]
      refine ⟨fun user shareFP => (owns user shareFP).trans (kept user shareFP), ?_⟩
      rw [reply]
      simp only [kept]
      simp only [reportShare, flag, List.append_assoc, List.singleton_append, List.map_cons,
        List.sum_cons, Nat.add_assoc]

end ShareStore

/-- What a second stage does to ownership: only its user becomes an owner, of shares that
pass the check, and of all of them unless one is too large for a container. -/
structure ShareStore.TakesShares (generateHash : List Byte → Fingerprint)
    (store : ShareStore) (userID : Int) (reads : List (ShareMDEntry × List Byte))
    (final : ShareStore) : Prop where
  wellFormed : final.WellFormed
  keeps : ∀ user shareFP, store.owns user shareFP = true → final.owns user shareFP = true
  only : ∀ user shareFP, final.owns user shareFP = true →
    store.owns user shareFP = true ∨ user = userID ∧ ∃ read ∈ reads,
      generateHash read.2 = read.1.shareFP ∧ read.1.shareFP = shareFP
  all : (∀ read ∈ reads, read.1.shareSize ≤ containerBufferSize) → ∀ read ∈ reads,
    generateHash read.2 = read.1.shareFP → final.owns userID read.1.shareFP = true

namespace ShareStore.TakesShares

variable {store next final : ShareStore} {userID : Int} {entry : ShareMDEntry}
variable {share : List Byte} {reads : List (ShareMDEntry × List Byte)}

private theorem nothing (wellFormed : store.WellFormed) (same : final.shareIndex = store.shareIndex)
    (none : (∀ read ∈ reads, read.1.shareSize ≤ containerBufferSize) →
      ∀ read ∈ reads, generateHash read.2 ≠ read.1.shareFP) :
    store.TakesShares generateHash userID reads final where
  wellFormed := wellFormed.of_index_eq same
  keeps := by
    intro user shareFP earlier
    rw [owns, same]
    exact earlier
  only := by
    intro user shareFP owned
    rw [owns, same] at owned
    exact .inl owned
  all := fun fits read member checked => absurd checked (none fits read member)

private theorem cons (wellFormed : store.WellFormed) (same : generateHash share = entry.shareFP)
    (adds : store.AddsReference entry.shareFP userID next)
    (rest : next.TakesShares generateHash userID reads final) :
    store.TakesShares generateHash userID ((entry, share) :: reads) final where
  wellFormed := rest.wellFormed
  keeps := by
    intro user shareFP earlier
    apply rest.keeps
    exact (adds.owns wellFormed shareFP user).mpr (.inl earlier)
  only := by
    intro user shareFP owned
    rcases rest.only user shareFP owned with middle | ⟨own, read, member, found⟩
    · rcases (adds.owns wellFormed shareFP user).mp middle with earlier | ⟨equal, own⟩
      · exact .inl earlier
      · exact .inr ⟨own, (entry, share), List.mem_cons_self, same, equal.symm⟩
    · exact .inr ⟨own, read, List.mem_cons_of_mem _ member, found⟩
  all := by
    intro fits read member checked
    rcases List.mem_cons.mp member with rfl | later
    · apply rest.keeps
      exact (adds.owns wellFormed entry.shareFP userID).mpr (.inr ⟨rfl, rfl⟩)
    · exact rest.all (fun other inside => fits other (List.mem_cons_of_mem _ inside)) read
        later checked

end ShareStore.TakesShares

/-- The second stage takes the shares it reads. -/
theorem ShareCursor.foldlM_placeShare_takes (userID : Int) (intraUserDupStatList : Nat → Bool)
    (shareDataBuffer : Buffer Byte) (entries : List ShareMDEntry) (cursor : ShareCursor)
    (wellFormed : cursor.store.WellFormed) :
    cursor.store.TakesShares generateHash userID
      (readShares generateHash intraUserDupStatList shareDataBuffer cursor.numOfShares
        cursor.shareDataBufferOffset entries)
      (Loop.outcome (entries.foldlM
        (placeShare generateHash userID intraUserDupStatList shareDataBuffer)
        cursor)).store := by
  induction entries generalizing cursor with
  | nil => exact .nothing wellFormed rfl fun _ _ member => nomatch member
  | cons entry rest induction =>
      have passes := cursor.placeShare_passes generateHash userID intraUserDupStatList
        shareDataBuffer entry
      have share_eq : (shareDataBuffer.advance cursor.shareDataBufferOffset).slice 0
        entry.shareSize = cursor.share shareDataBuffer entry := rfl
      rw [List.foldlM_cons, readShares]
      simp only [share_eq]
      generalize cursor.placeShare generateHash userID intraUserDupStatList shareDataBuffer
        entry = result at passes ⊢
      cases passes with
      | skips flagged =>
          rw [if_pos flagged]
          exact induction { cursor with numOfShares := cursor.numOfShares + 1 } wellFormed
      | rejects unflagged different =>
          rw [unflagged, if_neg Bool.false_ne_true, if_neg different]
          refine .nothing wellFormed rfl fun _ read member => ?_
          rw [List.mem_singleton.mp member]
          exact different
      | @takes next unflagged same numOfShares offset adds =>
          rw [unflagged, if_neg Bool.false_ne_true, if_pos same,
            ← numOfShares, ← offset]
          exact .cons wellFormed same adds (induction next (adds.wellFormed wellFormed))
      | fails unflagged index large =>
          rw [unflagged, if_neg Bool.false_ne_true]
          refine .nothing wellFormed index fun fits => ?_
          exact absurd (fits _ List.mem_cons_self) (Nat.not_le.mpr large)

namespace MinDedupCore

private theorem outcome_foldlM_placeFile (userID : Int) (intraUserDupStatList : Nat → Bool)
    (shareDataBuffer : Buffer Byte) (package : List FileShareMD) (cursor : ShareCursor) :
    Loop.outcome (package.foldlM
        (placeFile generateHash userID intraUserDupStatList shareDataBuffer) cursor) =
      Loop.outcome ((namedEntries package).foldlM (ShareCursor.placeShare generateHash userID
        intraUserDupStatList shareDataBuffer) cursor) := by
  induction package generalizing cursor with
  | nil => rfl
  | cons file rest induction =>
      rw [List.foldlM_cons, placeFile, namedEntries, List.takeWhile_cons]
      cases named : formatFullFileName file.fullName with
      | none => rfl
      | some name =>
          simp only [Option.isSome_some, if_true, List.flatMap_cons, List.foldlM_append]
          cases file.entries.foldlM (ShareCursor.placeShare generateHash userID
              intraUserDupStatList shareDataBuffer) cursor with
          | error stopped => rfl
          | ok middle => exact induction middle

variable {core : MinDedupCore}

theorem perform_takes (wellFormed : core.store.WellFormed)
    (call : StageCall ShareContainerBuffer) :
    core.store.TakesShares generateHash call.userID (call.reads generateHash)
      (core.perform generateHash call).store := by
  cases call with
  | firstStage userID package =>
      rcases ShareStore.foldl_reportShare_reply userID
        (package.flatMap FileShareMD.entries) (core.store, ⟨[], 0⟩) wellFormed with ⟨same, _⟩
      rw [← ShareStore.firstStageDedup_eq] at same
      refine ⟨wellFormed.firstStageDedup userID package, ?_, ?_, ?_⟩
      · intro user shareFP earlier
        exact (same user shareFP).trans earlier
      · intro user shareFP owned
        exact .inl ((same user shareFP).symm.trans owned)
      · intro _ read member
        cases member
  | secondStage userID package intraUserDupStatList shareDataBuffer expired =>
      have index := core.findOrCreateBufferNode_index userID expired
      rw [perform, outcome_secondStageDedup, outcome_foldlM_placeFile]
      generalize core.findOrCreateBufferNode userID expired = opened at index ⊢
      have takes : (openCursor opened).store.TakesShares generateHash userID _ _ :=
        ShareCursor.foldlM_placeShare_takes userID intraUserDupStatList shareDataBuffer
          (namedEntries package) (openCursor opened) (wellFormed.of_index_eq index)
      refine ⟨takes.wellFormed, ?_, ?_, takes.all⟩
      · intro user shareFP earlier
        apply takes.keeps
        rw [ShareStore.owns] at earlier ⊢
        rw [← index] at earlier
        exact earlier
      · intro user shareFP owned
        rcases takes.only user shareFP owned with earlier | found
        · rw [ShareStore.owns] at earlier ⊢
          rw [← index]
          exact .inl earlier
        · exact .inr found

/-! ## Histories -/

variable {call : StageCall ShareContainerBuffer}

/-- The answer a user gets to a call, if the call is one of its first stages. -/
def replyTo (user : Int) (core : MinDedupCore) :
    StageCall ShareContainerBuffer → List FirstStageReply
  | .firstStage userID package =>
      if userID = user then [(core.firstStageDedup userID package).2] else []
  | .secondStage _ _ _ _ _ => []

/-- The answers a user gets in the course of a history. -/
def repliesTo (generateHash : List Byte → Fingerprint) (user : Int) :
    MinDedupCore → List (StageCall ShareContainerBuffer) → List FirstStageReply
  | _, [] => []
  | core, call :: history =>
      core.replyTo user call ++
        repliesTo generateHash user (core.perform generateHash call) history

private theorem perform_owns_of_ne (wellFormed : core.store.WellFormed)
    {user : Int} (other : call.userID ≠ user) (shareFP : Fingerprint) :
    (core.perform generateHash call).store.owns user shareFP =
      core.store.owns user shareFP := by
  have takes : core.store.TakesShares generateHash call.userID _ _ :=
    perform_takes wellFormed call
  apply Bool.eq_iff_iff.mpr
  constructor
  · intro owned
    rcases takes.only user shareFP owned with earlier | ⟨own, _⟩
    · exact earlier
    · exact absurd own.symm other
  · exact takes.keeps user shareFP

private theorem perform_owns (wellFormed : core.store.WellFormed)
    (inside : (call.userCall generateHash).InBuffer) (shareFP : Fingerprint) :
    (core.perform generateHash call).store.owns call.userID shareFP =
      (core.store.owns call.userID shareFP ||
        (call.userCall generateHash).sent.contains shareFP) := by
  have takes : core.store.TakesShares generateHash call.userID _ _ :=
    perform_takes wellFormed call
  apply Bool.eq_iff_iff.mpr
  rw [Bool.or_eq_true, List.contains_iff_mem, StageCall.mem_sent_iff]
  constructor
  · intro owned
    rcases takes.only call.userID shareFP owned with earlier | ⟨_, sent⟩
    · exact .inl earlier
    · exact .inr sent
  · rintro (earlier | ⟨read, member, checked, rfl⟩)
    · exact takes.keeps call.userID shareFP earlier
    · exact takes.all (StageCall.fits_of_inBuffer inside) read member checked

theorem firstStageDedup_reply (wellFormed : core.store.WellFormed)
    (userID : Int) (package : List FileShareMD) :
    [(core.firstStageDedup userID package).2] =
      UserCall.answer (core.store.owns userID) (.firstStage package) := by
  rcases ShareStore.foldl_reportShare_reply userID (package.flatMap FileShareMD.entries)
    (core.store, ⟨[], 0⟩) wellFormed with ⟨_, reply⟩
  rw [← ShareStore.firstStageDedup_eq, List.nil_append, Nat.zero_add] at reply
  rw [firstStageDedup, reply, UserCall.answer]

/-- In every history the answers a user gets are a function of the user's calls. -/
theorem repliesTo_eq_answers (user : Int) (history : List (StageCall ShareContainerBuffer))
    (wellFormed : core.store.WellFormed)
    {owned : Fingerprint → Bool} (same : core.store.owns user = owned)
    (inside : ∀ call ∈ userCalls generateHash user history, call.InBuffer) :
    repliesTo generateHash user core history =
      UserCall.answers owned (userCalls generateHash user history) := by
  induction history generalizing core owned with
  | nil => rfl
  | cons call history induction =>
      have wellFormed' : (core.perform generateHash call).store.WellFormed :=
        (perform_takes wellFormed call).wellFormed
      rw [repliesTo]
      by_cases own : call.userID = user
      · subst own
        have calls_eq : userCalls generateHash call.userID (call :: history) =
            call.userCall generateHash :: userCalls generateHash call.userID history := by
          simp [userCalls]
        rw [calls_eq] at inside ⊢
        rcases List.forall_mem_cons.mp inside with ⟨first, rest⟩
        rw [UserCall.answers]
        congr 1
        · subst same
          cases call with
          | firstStage userID package =>
              exact (if_pos rfl).trans (firstStageDedup_reply wellFormed userID package)
          | secondStage userID package intraUserDupStatList shareDataBuffer expired => rfl
        · refine induction wellFormed' ?_ rest
          funext shareFP
          rw [perform_owns wellFormed first, same]
      · have calls_eq : userCalls generateHash user (call :: history) =
            userCalls generateHash user history := by
          simp [userCalls, own]
        have unseen : core.replyTo user call = [] := by
          cases call with
          | firstStage userID package => exact if_neg own
          | secondStage userID package intraUserDupStatList shareDataBuffer expired => rfl
        rw [calls_eq] at inside ⊢
        rw [unseen, List.nil_append]
        refine induction wellFormed' ?_ inside
        funext shareFP
        rw [perform_owns_of_ne wellFormed own, same]

private theorem owns_of_history (user : Int) (shareFP : Fingerprint)
    (history : List (StageCall ShareContainerBuffer)) (wellFormed : core.store.WellFormed)
    (owned : (history.foldl (perform generateHash) core).store.owns user shareFP = true) :
    core.store.owns user shareFP = true ∨
      ∃ call ∈ history, call.userID = user ∧ ∃ read ∈ call.reads generateHash,
        generateHash read.2 = shareFP := by
  induction history generalizing core with
  | nil => exact .inl owned
  | cons call history induction =>
      have takes : core.store.TakesShares generateHash call.userID _ _ :=
        perform_takes wellFormed call
      rcases induction takes.wellFormed owned with middle | ⟨later, member, found⟩
      · rcases takes.only user shareFP middle with earlier | ⟨own, read, inside, checked⟩
        · exact .inl earlier
        · exact .inr ⟨call, List.mem_cons_self, own.symm, read, inside,
            checked.1.trans checked.2⟩
      · exact .inr ⟨later, List.mem_cons_of_mem _ member, found⟩

private theorem empty_wellFormed : empty.store.WellFormed := fun _ _ found => nomatch found

/-- Two histories that differ in the calls of others, in the data that fails or passes the
same checks, and in the clock give a user the same answers; and a share is reported as a
duplicate only to a user who has sent it. -/
theorem first_stage_reveals_own_uploads (user : Int) :
    (∀ left right : List (StageCall ShareContainerBuffer),
      userCalls generateHash user left = userCalls generateHash user right →
      (∀ call ∈ userCalls generateHash user left, call.InBuffer) →
      repliesTo generateHash user empty left = repliesTo generateHash user empty right) ∧
    ∀ (history : List (StageCall ShareContainerBuffer)) (package : List FileShareMD)
      (index : Nat),
      ((history.foldl (perform generateHash) empty).firstStageDedup user
        package).2.intraUserDupStatList[index]? = some true →
      ∃ entry, (package.flatMap FileShareMD.entries)[index]? = some entry ∧
        ∃ call ∈ history, call.userID = user ∧
          ∃ read ∈ call.reads generateHash, generateHash read.2 = entry.shareFP := by
  constructor
  · intro left right same inside
    rw [repliesTo_eq_answers user left empty_wellFormed rfl inside,
      repliesTo_eq_answers user right empty_wellFormed rfl (same ▸ inside), same]
  · intro history package index flagged
    have wellFormed : (history.foldl (perform generateHash) empty).store.WellFormed := by
      refine List.foldlRecOn (motive := fun core : MinDedupCore => core.store.WellFormed)
        history _ empty_wellFormed ?_
      intro core kept call _
      exact (perform_takes kept call).wellFormed
    have reply := List.singleton_inj.mp (firstStageDedup_reply wellFormed user package)
    rw [reply, List.getElem?_map, Option.map_eq_some_iff] at flagged
    rcases flagged with ⟨entry, listed, owned⟩
    refine ⟨entry, listed, ?_⟩
    rcases owns_of_history user entry.shareFP history empty_wellFormed owned with
      before | found
    · cases before
    · exact found

def askSendAsk : List (StageCall ShareContainerBuffer) :=
  [.firstStage 1 [oneShareRound [47, 102] 0 0 1 7],
    oneShareCall 1 (oneShareRound [47, 102] 0 0 1 7) 7 fun _ => false,
    .firstStage 1 [oneShareRound [47, 102] 0 0 1 7]]

/-- User 1 gets the same answers when user 2 has stored the share first, and the second
answer is about a share that user 1 has sent. -/
theorem first_stage_reveals_own_uploads_shared :
    (repliesTo paddingHash 1 empty askSendAsk).map FirstStageReply.intraUserDupStatList =
        [[false], [true]] ∧
      repliesTo paddingHash 1 empty askSendAsk =
        repliesTo paddingHash 1 empty
          (oneShareCall 2 (oneShareRound [47, 103] 0 0 1 7) 7 (fun _ => true) ::
            askSendAsk) ∧
      ∃ entry, [(⟨paddingHash [7], 0, 1, 1⟩ : ShareMDEntry)][0]? = some entry ∧
        ∃ call ∈ askSendAsk.take 2, call.userID = 1 ∧
          ∃ read ∈ call.reads paddingHash, paddingHash read.2 = entry.shareFP :=
  ⟨by decide +kernel,
    (first_stage_reveals_own_uploads 1).1 _ _ rfl (by decide +kernel),
    (first_stage_reveals_own_uploads 1).2 (askSendAsk.take 2)
      [oneShareRound [47, 102] 0 0 1 7] 0 (by decide +kernel)⟩

end MinDedupCore

end MetaDedup.Server
