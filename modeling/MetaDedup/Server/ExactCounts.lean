import MetaDedup.Server.DedupIntegrity
import MetaDedup.Server.IndexUpdates
import MetaDedup.Server.Stages

/-! # Exact reference counts

Any number of connections call the two stages of one `minDedupCore`, one call at a time.
A round is counted in two parts: its first stage counts the shares that it flags, and its
second stage counts the other ones. In between, another connection of the same user can
make an unflagged share one of the user's own, so the sum of both parts is the invariant,
and not the share's state at the second stage. -/

namespace MetaDedup.Server

open Foundation Relation

/-- What a connection uploads in one round. -/
structure UploadRound where
  userID : Int
  package : List FileShareMD

namespace UploadRound

def entries (round : UploadRound) : List ShareMDEntry :=
  round.package.flatMap FileShareMD.entries

def occurrences (shareFP : Fingerprint) (user : Int) (round : UploadRound) : Nat :=
  if user = round.userID then round.entries.countP fun entry => entry.shareFP = shareFP
  else 0

private theorem occurrences_pos_iff (shareFP : Fingerprint) (user : Int) (round : UploadRound) :
    0 < round.occurrences shareFP user ↔
      round.userID = user ∧
        ∃ file ∈ round.package, ∃ entry ∈ file.entries, entry.shareFP = shareFP := by
  rw [occurrences]
  by_cases own : user = round.userID
  · rw [if_pos own, List.countP_pos_iff, entries, and_iff_right own.symm]
    simp only [List.mem_flatMap, decide_eq_true_eq]
    constructor
    · rintro ⟨entry, ⟨file, member, inside⟩, same⟩
      exact ⟨file, member, entry, inside, same⟩
    · rintro ⟨file, member, entry, inside, same⟩
      exact ⟨entry, ⟨file, member, inside⟩, same⟩
  · simp [own, Ne.symm own]

end UploadRound

/-- A round between its two stages, with the status list its first stage returned. -/
structure PendingRound where
  round : UploadRound
  intraUserDupStatList : List Bool

def PendingRound.flagged (shareFP : Fingerprint) (user : Int) (pending : PendingRound) :
    Nat :=
  if user = pending.round.userID then
    tally true shareFP pending.round.entries pending.intraUserDupStatList
  else 0

/-! ## The stages -/

namespace MinDedupCore

variable {generateHash : List Byte → Fingerprint}

private theorem foldlM_placeFile_ok {userID : Int} {intraUserDupStatList : Nat → Bool}
    {shareDataBuffer : Buffer Byte} {package : List FileShareMD}
    {cursor final : ShareCursor}
    (placed : package.foldlM
      (placeFile generateHash userID intraUserDupStatList shareDataBuffer) cursor =
        .ok final) :
    (package.flatMap FileShareMD.entries).foldlM
      (ShareCursor.placeShare generateHash userID intraUserDupStatList shareDataBuffer)
      cursor = .ok final := by
  induction package generalizing cursor with
  | nil => exact placed
  | cons file rest induction =>
      rw [List.foldlM_cons] at placed
      rcases Loop.bind_eq_ok_iff.mp placed with ⟨middle, first, later⟩
      rw [List.flatMap_cons, List.foldlM_append]
      apply Loop.bind_eq_ok_iff.mpr
      refine ⟨middle, ?_, induction later⟩
      rw [placeFile] at first
      cases named : formatFullFileName file.fullName with
      | none =>
          rw [named] at first
          cases first
      | some name =>
          rw [named] at first
          exact first

private theorem secondStageDedup_counts {core next : MinDedupCore} {pending : PendingRound}
    (wellFormed : core.store.WellFormed)
    (size : pending.intraUserDupStatList.length = pending.round.entries.length)
    {intraUserDupStatList : Nat → Bool}
    (listed : ∀ index (inside : index < pending.intraUserDupStatList.length),
      intraUserDupStatList index = pending.intraUserDupStatList[index])
    {shareDataBuffer : Buffer Byte} {expired : ShareContainerBuffer → Bool}
    (returns : core.secondStageDedup generateHash pending.round.userID
      pending.round.package intraUserDupStatList shareDataBuffer expired = .ok next) :
    next.store.WellFormed ∧ ∀ shareFP user,
      next.store.refCount shareFP user + pending.flagged shareFP user =
        core.store.refCount shareFP user + pending.round.occurrences shareFP user := by
  have same := core.findOrCreateBufferNode_index pending.round.userID expired
  rw [secondStageDedup] at returns
  generalize core.findOrCreateBufferNode pending.round.userID expired = opened at same returns
  cases placed : pending.round.package.foldlM
      (placeFile generateHash pending.round.userID intraUserDupStatList shareDataBuffer)
      (openCursor opened) with
  | error stopped =>
      rw [placed] at returns
      cases returns
  | ok final =>
      rw [placed] at returns
      rw [← Except.ok.inj returns]
      rcases ShareCursor.foldlM_placeShare_counts ShareStore.WellFormed.counted
        ShareStore.AddsReference.wellFormed size (wellFormed.of_index_eq same)
        (by simpa [openCursor] using listed)
        (foldlM_placeFile_ok placed) with ⟨wellFormed', counts⟩
      refine ⟨wellFormed', ?_⟩
      intro shareFP user
      have before : (openCursor opened).store.refCount shareFP user =
          core.store.refCount shareFP user :=
        ShareStore.refCount_of_index_eq same shareFP user
      have after : (closeCursor opened final).store.refCount shareFP user = _ :=
        counts shareFP user
      rw [after, before, PendingRound.flagged, UploadRound.occurrences,
        ← tally_true_add_tally_false shareFP size]
      by_cases own : user = pending.round.userID
      · simp only [own, if_true]
        omega
      · simp only [own, if_false]

private theorem firstStageDedup_counts {core : MinDedupCore} (wellFormed : core.store.WellFormed)
    (round : UploadRound) :
    (core.firstStageDedup round.userID round.package).2.intraUserDupStatList.length =
        round.entries.length ∧
      (core.firstStageDedup round.userID round.package).1.store.WellFormed ∧
      ∀ shareFP user,
        (core.firstStageDedup round.userID round.package).1.store.refCount shareFP user =
          core.store.refCount shareFP user + PendingRound.flagged shareFP user
            ⟨round, (core.firstStageDedup round.userID
              round.package).2.intraUserDupStatList⟩ := by
  have report_eq := core.store.firstStageDedup_eq round.userID round.package
  rcases ShareStore.foldl_reportShare round.userID (round.package.flatMap FileShareMD.entries)
    (core.store, ⟨[], 0⟩) wellFormed.counted with ⟨flags, size, list, _, counts⟩
  rw [List.nil_append, ← report_eq] at list
  rw [← report_eq] at counts
  refine ⟨(congrArg List.length list).trans size, ?_, ?_⟩
  · exact wellFormed.firstStageDedup round.userID round.package
  · intro shareFP user
    refine (counts shareFP user).trans ?_
    rw [← list]
    rfl

/-! ## Runs -/

/-- The core, the rounds between their stages, and the rounds that are complete. -/
structure Rounds where
  core : MinDedupCore
  pending : List PendingRound
  completed : List UploadRound

namespace Rounds

def initial : Rounds := ⟨.empty, [], []⟩

/-- One call. A second stage reads the status list of its own first stage. -/
inductive Step (generateHash : List Byte → Fingerprint) : Rounds → Rounds → Prop
  | firstStage (core : MinDedupCore) (pending : List PendingRound)
      (completed : List UploadRound) (round : UploadRound) :
      Step generateHash ⟨core, pending, completed⟩
        ⟨(core.firstStageDedup round.userID round.package).1,
          ⟨round, (core.firstStageDedup round.userID
            round.package).2.intraUserDupStatList⟩ :: pending,
          completed⟩
  | secondStage {core next : MinDedupCore} (before : List PendingRound)
      (current : PendingRound) (after : List PendingRound) (completed : List UploadRound)
      {intraUserDupStatList : Nat → Bool}
      (listed : ∀ index (inside : index < current.intraUserDupStatList.length),
        intraUserDupStatList index = current.intraUserDupStatList[index])
      {shareDataBuffer : Buffer Byte} {expired : ShareContainerBuffer → Bool}
      (returns : core.secondStageDedup generateHash current.round.userID
        current.round.package intraUserDupStatList shareDataBuffer expired = .ok next) :
      Step generateHash ⟨core, before ++ current :: after, completed⟩
        ⟨next, before ++ after, current.round :: completed⟩

/-- Every occurrence of a share in a completed round is counted, and of a round between
its stages those that are flagged. -/
structure Exact (rounds : Rounds) : Prop where
  wellFormed : rounds.core.store.WellFormed
  size : ∀ current ∈ rounds.pending,
    current.intraUserDupStatList.length = current.round.entries.length
  counts : ∀ shareFP user, rounds.core.store.refCount shareFP user =
    (rounds.completed.map fun round => round.occurrences shareFP user).sum +
      (rounds.pending.map fun current => current.flagged shareFP user).sum

private theorem initial_exact : initial.Exact where
  wellFormed := fun _ _ found => nomatch found
  size := fun _ member => nomatch member
  counts := fun _ _ => rfl

variable {completed : List UploadRound}

theorem Exact.firstStage {core : MinDedupCore} {pending : List PendingRound}
    (exact' : Exact ⟨core, pending, completed⟩) (round : UploadRound) :
    Exact ⟨(core.firstStageDedup round.userID round.package).1,
      ⟨round, (core.firstStageDedup round.userID round.package).2.intraUserDupStatList⟩ ::
        pending, completed⟩ := by
  rcases firstStageDedup_counts exact'.wellFormed round with ⟨size, wellFormed, counts⟩
  refine ⟨wellFormed, ?_, ?_⟩
  · intro current member
    rcases List.mem_cons.mp member with rfl | earlier
    · exact size
    · exact exact'.size current earlier
  · intro shareFP user
    have before := exact'.counts shareFP user
    have after := counts shareFP user
    simp only [List.map_cons, List.sum_cons] at before after ⊢
    omega

theorem Exact.secondStage {core next : MinDedupCore} {before after : List PendingRound}
    {current : PendingRound} (exact' : Exact ⟨core, before ++ current :: after, completed⟩)
    {intraUserDupStatList : Nat → Bool}
    (listed : ∀ index (inside : index < current.intraUserDupStatList.length),
      intraUserDupStatList index = current.intraUserDupStatList[index])
    {shareDataBuffer : Buffer Byte} {expired : ShareContainerBuffer → Bool}
    (returns : core.secondStageDedup generateHash current.round.userID
      current.round.package intraUserDupStatList shareDataBuffer expired = .ok next) :
    Exact ⟨next, before ++ after, current.round :: completed⟩ := by
  have size := exact'.size current (List.mem_append_right _ List.mem_cons_self)
  rcases secondStageDedup_counts exact'.wellFormed size listed returns with
    ⟨wellFormed, counts⟩
  refine ⟨wellFormed, ?_, ?_⟩
  · intro other member
    apply exact'.size other
    rcases List.mem_append.mp member with earlier | later
    · exact List.mem_append_left _ earlier
    · exact List.mem_append_right _ (List.mem_cons_of_mem _ later)
  · intro shareFP user
    have start := exact'.counts shareFP user
    have own := counts shareFP user
    simp only [List.map_append, List.map_cons, List.sum_append, List.sum_cons] at start own ⊢
    omega

theorem Exact.step {rounds next : Rounds} (exact' : rounds.Exact)
    (step : Step generateHash rounds next) : next.Exact := by
  cases step with
  | firstStage core pending completed round => exact Exact.firstStage exact' round
  | secondStage before current after completed listed returns =>
      exact Exact.secondStage exact' listed returns

theorem Exact.run {rounds : Rounds}
    (run : ReflTransGen (Step generateHash) initial rounds) : rounds.Exact := by
  induction run with
  | refl => exact initial_exact
  | tail _ step induction => exact induction.step step

/-- The index value of a share and the entry of a user in it, against the rounds that have
been uploaded. -/
structure CountsExactly (shareIndex : Fingerprint → Option ShareIndexValue)
    (uploaded : List UploadRound) (shareFP : Fingerprint) (user : Int) : Prop where
  wellFormed : ∀ value, shareIndex shareFP = some value →
    value.numOfUsers = value.userRefs.length ∧
      (value.userRefs.map ShareUserRefEntry.userID).Nodup
  listed : (∃ value, shareIndex shareFP = some value ∧
      ∃ ref ∈ value.userRefs, ref.userID = user) ↔
    ∃ round ∈ uploaded, round.userID = user ∧
      ∃ file ∈ round.package, ∃ entry ∈ file.entries, entry.shareFP = shareFP
  refCnt : ∀ value, shareIndex shareFP = some value →
    ∀ ref ∈ value.userRefs, ref.userID = user →
      ref.refCnt = (uploaded.map fun round => round.occurrences shareFP user).sum

/-- Once no round is between its stages, the index counts every listed share exactly. -/
theorem reference_counts_exact {rounds : Rounds}
    (run : ReflTransGen (Step generateHash) initial rounds)
    (complete : rounds.pending = []) (shareFP : Fingerprint) (user : Int) :
    CountsExactly rounds.core.store.shareIndex rounds.completed shareFP user := by
  have exact' := Exact.run run
  have counts := exact'.counts shareFP user
  rw [complete, List.map_nil, List.sum_nil, Nat.add_zero] at counts
  refine ⟨?_, ?_, ?_⟩
  · intro value found
    have own := exact'.wellFormed shareFP value found
    exact ⟨own.counted, own.distinct⟩
  · rw [exact'.wellFormed.exists_entry_iff, counts, List.sum_pos_iff_exists_pos_nat]
    simp only [List.mem_map, exists_exists_and_eq_and, UploadRound.occurrences_pos_iff]
  · intro value found ref member own
    subst own
    rw [← exact'.wellFormed.refCount_of_mem found member]
    exact counts

def sharedRound : UploadRound :=
  ⟨1, [oneShareRound [47, 102] 0 0 1 7, oneShareRound [47, 103] 0 0 1 7]⟩

def bothAnnounced : MinDedupCore :=
  ((MinDedupCore.empty.firstStageDedup 1 sharedRound.package).1.firstStageDedup 1
    sharedRound.package).1

def uploadShared (core : MinDedupCore) : Except MinDedupCore MinDedupCore :=
  core.secondStageDedup paddingHash 1 sharedRound.package (fun _ => false) (fun _ => 7)
    fun _ => false

/-- Two connections of one user have both found the share to be new. -/
theorem reference_counts_exact_interleaved :
    let core := Loop.outcome (uploadShared (Loop.outcome (uploadShared bothAnnounced)))
    core.store.refCount (paddingHash [7]) 1 = 4 ∧
      CountsExactly core.store.shareIndex [sharedRound, sharedRound] (paddingHash [7]) 1 := by
  intro core
  have first : (uploadShared bothAnnounced).isOk = true := by decide +kernel
  have second : (uploadShared (Loop.outcome (uploadShared bothAnnounced))).isOk = true := by
    decide +kernel
  let current : PendingRound := ⟨sharedRound, [false, false]⟩
  have unflagged : ∀ index (inside : index < current.intraUserDupStatList.length),
      false = current.intraUserDupStatList[index] := by
    decide
  have announced : ReflTransGen (Step paddingHash) initial
      ⟨bothAnnounced, [current, current], []⟩ :=
    (ReflTransGen.single (.firstStage .empty [] [] sharedRound)).tail
      (.firstStage _ [current] [] sharedRound)
  have uploaded : ReflTransGen (Step paddingHash) initial
      ⟨core, [], [sharedRound, sharedRound]⟩ :=
    (announced.tail (.secondStage [current] current [] [] unflagged
      (Loop.eq_ok_outcome first))).tail (.secondStage [] current [] [sharedRound] unflagged
      (Loop.eq_ok_outcome second))
  exact ⟨by decide +kernel, reference_counts_exact uploaded rfl (paddingHash [7]) 1⟩

end Rounds

end MinDedupCore

end MetaDedup.Server
