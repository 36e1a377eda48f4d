import MetaDedup.Foundation.Words
import MetaDedup.Server.MinDedupCore
import MetaDedup.Server.ReferenceCounts

/-! # The two stages of a round

The first stage flags the shares of a package that the user has already. The second
stage takes the data of the others, one after another. -/

namespace MetaDedup.Server

open Foundation

/-- The data of the shares that are not flagged as duplicates. -/
def uniqueData : List (List Byte) → List Bool → List Byte
  | share :: shares, duplicate :: flags =>
      (if duplicate then [] else share) ++ uniqueData shares flags
  | _, _ => []

/-- How often a share occurs with the given flag. -/
def tally (flag : Bool) (shareFP : Fingerprint) : List ShareMDEntry → List Bool → Nat
  | entry :: entries, duplicate :: flags =>
      (if entry.shareFP = shareFP ∧ duplicate = flag then 1 else 0) +
        tally flag shareFP entries flags
  | _, _ => 0

theorem tally_true_add_tally_false (shareFP : Fingerprint) {entries : List ShareMDEntry}
    {flags : List Bool} (size : flags.length = entries.length) :
    tally true shareFP entries flags + tally false shareFP entries flags =
      entries.countP fun entry => entry.shareFP = shareFP := by
  induction entries generalizing flags with
  | nil => cases flags <;> rfl
  | cons entry rest induction =>
      cases flags with
      | nil => cases size
      | cons duplicate flags =>
          have later := induction (Nat.succ.inj size)
          rw [tally, tally, List.countP_cons, ← later]
          by_cases own : entry.shareFP = shareFP
          · cases duplicate <;> simp [own] <;> omega
          · simp [own]

theorem tally_cons_of_user (flag duplicate : Bool) (entry : ShareMDEntry)
    (entries : List ShareMDEntry) (flags : List Bool) (shareFP : Fingerprint)
    (user userID : Int) :
    (if user = userID then tally flag shareFP (entry :: entries) (duplicate :: flags) else 0) =
      (if user = userID ∧ entry.shareFP = shareFP ∧ duplicate = flag then 1 else 0) +
        if user = userID then tally flag shareFP entries flags else 0 := by
  by_cases own : user = userID
  · simp only [own, tally, if_true, true_and]
  · simp only [own, if_false, false_and]

/-! ## The first stage -/

namespace ShareStore

private theorem reportShare_counts {state : ShareStore × FirstStageReply}
    (counted : state.1.Counted)
    (userID : Int) (entry : ShareMDEntry) :
    (reportShare userID state entry).1.Counted ∧
      ∀ shareFP user, (reportShare userID state entry).1.refCount shareFP user =
        state.1.refCount shareFP user +
          if user = userID ∧ entry.shareFP = shareFP ∧
            (state.1.intraUserIndexUpdate entry.shareFP userID).2 = true then 1 else 0 := by
  have updated := (state.1.intraUserIndexUpdate_adds entry.shareFP userID).2
  cases duplicate : (state.1.intraUserIndexUpdate entry.shareFP userID).2 with
  | false =>
      rw [duplicate, if_neg Bool.false_ne_true] at updated
      rw [reportShare, updated]
      exact ⟨counted, fun _ _ => by simp⟩
  | true =>
      rw [duplicate, if_pos rfl] at updated
      have counts := updated.counts counted
      refine ⟨counts.counted, fun shareFP user => (counts.refCount shareFP user).trans ?_⟩
      simp only [true_and, @eq_comm _ shareFP, and_comm]

theorem foldl_reportShare (userID : Int) (entries : List ShareMDEntry)
    (state : ShareStore × FirstStageReply) (counted : state.1.Counted) :
    ∃ flags : List Bool, flags.length = entries.length ∧
      (entries.foldl (reportShare userID) state).2.intraUserDupStatList =
        state.2.intraUserDupStatList ++ flags ∧
      (entries.foldl (reportShare userID) state).1.Counted ∧
      ∀ shareFP user, (entries.foldl (reportShare userID) state).1.refCount shareFP user =
        state.1.refCount shareFP user +
          if user = userID then tally true shareFP entries flags else 0 := by
  induction entries generalizing state with
  | nil => exact ⟨[], rfl, by simp, counted, by simp [tally]⟩
  | cons entry rest induction =>
      rcases reportShare_counts counted userID entry with ⟨counted', first⟩
      rcases induction _ counted' with ⟨flags, size, list, counted'', later⟩
      rw [List.foldl_cons]
      refine ⟨(state.1.intraUserIndexUpdate entry.shareFP userID).2 :: flags,
        congrArg Nat.succ size, ?_, counted'', ?_⟩
      · rw [list, reportShare, List.append_assoc]
        rfl
      · intro shareFP user
        rw [later, first, tally_cons_of_user, Nat.add_assoc]

end ShareStore

/-! ## The second stage -/

namespace ShareCursor

def share (cursor : ShareCursor) (shareDataBuffer : Buffer Byte) (entry : ShareMDEntry) :
    List Byte :=
  (shareDataBuffer.advance cursor.shareDataBufferOffset).slice 0 entry.shareSize

/-- What a pass of the second stage can do. -/
inductive Passes (generateHash : List Byte → Fingerprint) (userID : Int)
    (intraUserDupStatList : Nat → Bool) (shareDataBuffer : Buffer Byte)
    (cursor : ShareCursor) (entry : ShareMDEntry) : Except ShareCursor ShareCursor → Prop
  | skips (flagged : intraUserDupStatList cursor.numOfShares = true) :
      Passes generateHash userID intraUserDupStatList shareDataBuffer cursor entry
        (.ok { cursor with numOfShares := cursor.numOfShares + 1 })
  | rejects (unflagged : intraUserDupStatList cursor.numOfShares = false)
      (different : generateHash (cursor.share shareDataBuffer entry) ≠ entry.shareFP) :
      Passes generateHash userID intraUserDupStatList shareDataBuffer cursor entry
        (.error cursor)
  | takes {next : ShareCursor} (unflagged : intraUserDupStatList cursor.numOfShares = false)
      (same : generateHash (cursor.share shareDataBuffer entry) = entry.shareFP)
      (numOfShares : next.numOfShares = cursor.numOfShares + 1)
      (offset : next.shareDataBufferOffset = cursor.shareDataBufferOffset + entry.shareSize)
      (adds : cursor.store.AddsReference entry.shareFP userID next.store) :
      Passes generateHash userID intraUserDupStatList shareDataBuffer cursor entry (.ok next)
  | fails {stopped : ShareCursor}
      (unflagged : intraUserDupStatList cursor.numOfShares = false)
      (index : stopped.store.shareIndex = cursor.store.shareIndex)
      (large : containerBufferSize < entry.shareSize) :
      Passes generateHash userID intraUserDupStatList shareDataBuffer cursor entry
        (.error stopped)

theorem placeShare_passes (generateHash : List Byte → Fingerprint) (userID : Int)
    (intraUserDupStatList : Nat → Bool) (shareDataBuffer : Buffer Byte)
    (cursor : ShareCursor) (entry : ShareMDEntry) :
    Passes generateHash userID intraUserDupStatList shareDataBuffer cursor entry
      (cursor.placeShare generateHash userID intraUserDupStatList shareDataBuffer entry) := by
  have share_eq : (shareDataBuffer.advance cursor.shareDataBufferOffset).slice 0
      entry.shareSize = cursor.share shareDataBuffer entry := rfl
  rw [placeShare, share_eq]
  cases flag : intraUserDupStatList cursor.numOfShares with
  | true =>
      rw [if_pos rfl]
      exact .skips flag
  | false =>
      rw [if_neg Bool.false_ne_true]
      by_cases same : generateHash (cursor.share shareDataBuffer entry) = entry.shareFP
      · simp only [same, ne_eq, not_true_eq_false, if_false]
        rcases cursor.store.interUserIndexUpdate_adds cursor.buffer entry.shareFP userID
          (cursor.share shareDataBuffer entry) with
          ⟨result, updated, adds⟩ | ⟨result, failed, index, large⟩
        · simp only [updated]
          exact .takes flag same rfl rfl adds
        · simp only [failed]
          refine .fails flag index ?_
          rw [share, Buffer.slice_length] at large
          exact large
      · simp only [ne_eq, same, not_false_eq_true, if_true]
        exact .rejects flag same

section Counts

variable {generateHash : List Byte → Fingerprint} {userID : Int}
variable {intraUserDupStatList : Nat → Bool} {shareDataBuffer : Buffer Byte}
variable {keep : ShareStore → Prop} (counted : ∀ {store}, keep store → store.Counted)
variable (keeps : ∀ {store next shareFP userID},
  store.AddsReference shareFP userID next → keep store → keep next)

include counted keeps

private theorem placeShare_counts {cursor next : ShareCursor} {entry : ShareMDEntry}
    (kept : keep cursor.store)
    (placed : cursor.placeShare generateHash userID intraUserDupStatList shareDataBuffer
      entry = .ok next) :
    next.numOfShares = cursor.numOfShares + 1 ∧ keep next.store ∧
      ∀ shareFP user, next.store.refCount shareFP user =
        cursor.store.refCount shareFP user +
          if user = userID ∧ entry.shareFP = shareFP ∧
            intraUserDupStatList cursor.numOfShares = false then 1 else 0 := by
  have passes := cursor.placeShare_passes generateHash userID intraUserDupStatList
    shareDataBuffer entry
  rw [placed] at passes
  cases passes with
  | skips flagged => exact ⟨rfl, kept, fun _ _ => by simp [flagged]⟩
  | takes unflagged same numOfShares offset adds =>
      refine ⟨numOfShares, keeps adds kept, fun shareFP user =>
        ((adds.counts (counted kept)).refCount shareFP user).trans ?_⟩
      simp only [unflagged, true_and, @eq_comm _ shareFP, and_comm]

/-- A second stage that returns has counted the shares that are not flagged. -/
theorem foldlM_placeShare_counts {entries : List ShareMDEntry} {flags : List Bool}
    (size : flags.length = entries.length) {cursor final : ShareCursor}
    (kept : keep cursor.store)
    (listed : ∀ index (inside : index < flags.length),
      intraUserDupStatList (cursor.numOfShares + index) = flags[index])
    (placed : entries.foldlM
      (placeShare generateHash userID intraUserDupStatList shareDataBuffer) cursor =
        .ok final) :
    keep final.store ∧ ∀ shareFP user, final.store.refCount shareFP user =
      cursor.store.refCount shareFP user +
        if user = userID then tally false shareFP entries flags else 0 := by
  induction entries generalizing flags cursor with
  | nil =>
      cases placed
      refine ⟨kept, fun shareFP user => ?_⟩
      cases flags <;> simp [tally]
  | cons entry rest induction =>
      cases flags with
      | nil => cases size
      | cons duplicate flags =>
          rw [List.foldlM_cons] at placed
          rcases Loop.bind_eq_ok_iff.mp placed with ⟨next, first, later⟩
          rcases placeShare_counts counted keeps kept first with ⟨numOfShares, kept', counts⟩
          have status : intraUserDupStatList cursor.numOfShares = duplicate :=
            listed 0 (Nat.succ_pos _)
          rcases induction (Nat.succ.inj size) kept' (fun index inside => by
            rw [numOfShares, Nat.add_right_comm, Nat.add_assoc]
            exact listed (index + 1) (Nat.succ_lt_succ inside)) later with ⟨kept'', counts'⟩
          refine ⟨kept'', fun shareFP user => ?_⟩
          rw [counts', counts, status, tally_cons_of_user, Nat.add_assoc]

end Counts

end ShareCursor

/-- The data of a share belongs to its entry. -/
structure ShareMDEntry.Describes (generateHash : List Byte → Fingerprint)
    (entry : ShareMDEntry) (share : List Byte) : Prop where
  sized : entry.Sized
  size : share.length = entry.shareSize
  hash : generateHash share = entry.shareFP

namespace ShareCursor

variable {generateHash : List Byte → Fingerprint} {userID : Int}

private theorem placeShare_described {intraUserDupStatList : Nat → Bool}
    {shareDataBuffer : Buffer Byte} {cursor : ShareCursor} {entry : ShareMDEntry}
    {share : List Byte} (describes : entry.Describes generateHash share)
    (unflagged : intraUserDupStatList cursor.numOfShares = false)
    (data : shareDataBuffer.slice cursor.shareDataBufferOffset share.length = share) :
    ∃ next, cursor.placeShare generateHash userID intraUserDupStatList shareDataBuffer
        entry = .ok next ∧
      next.numOfShares = cursor.numOfShares + 1 ∧
      next.shareDataBufferOffset = cursor.shareDataBufferOffset + share.length := by
  have taken : cursor.share shareDataBuffer entry = share := by
    rw [ShareCursor.share, ← describes.size]
    conv_rhs => rw [← data]
    exact Buffer.slice_congr fun position _ => by
      rw [Buffer.advance_apply, Nat.zero_add]
  have passes := cursor.placeShare_passes generateHash userID intraUserDupStatList
    shareDataBuffer entry
  generalize cursor.placeShare generateHash userID intraUserDupStatList shareDataBuffer
    entry = result at passes ⊢
  cases passes with
  | skips flagged => cases flagged.symm.trans unflagged
  | rejects _ different =>
      rw [taken] at different
      exact absurd describes.hash different
  | @takes next _ _ numOfShares offset _ =>
      rw [← describes.size] at offset
      exact ⟨next, rfl, numOfShares, offset⟩
  | fails _ _ large => exact absurd describes.sized.2 (Nat.not_le.mpr large)

/-- The second stage takes the shares of a file that are not flagged, when their data is in
the buffer. -/
theorem foldlM_placeShare (intraUserDupStatList : Nat → Bool) (shareDataBuffer : Buffer Byte)
    {entries : List ShareMDEntry} {shares : List (List Byte)} {flags : List Bool}
    (described : List.Forall₂ (ShareMDEntry.Describes generateHash) entries shares)
    (size : flags.length = entries.length) (cursor : ShareCursor)
    (listed : ∀ index (inside : index < flags.length),
      intraUserDupStatList (cursor.numOfShares + index) = flags[index])
    (data : shareDataBuffer.slice cursor.shareDataBufferOffset
      (uniqueData shares flags).length = uniqueData shares flags) :
    ∃ final, entries.foldlM
        (placeShare generateHash userID intraUserDupStatList shareDataBuffer) cursor =
        .ok final ∧
      final.shareDataBufferOffset =
        cursor.shareDataBufferOffset + (uniqueData shares flags).length := by
  induction described generalizing flags cursor with
  | nil => exact ⟨cursor, rfl, by cases flags <;> rfl⟩
  | @cons entry share entries shares describes _ induction =>
      cases flags with
      | nil => cases size
      | cons duplicate flags =>
          have later : ∀ index (inside : index < flags.length),
              intraUserDupStatList (cursor.numOfShares + 1 + index) = flags[index] := by
            intro index inside
            rw [Nat.add_right_comm, Nat.add_assoc]
            exact listed (index + 1) (Nat.succ_lt_succ inside)
          have status : intraUserDupStatList cursor.numOfShares = duplicate :=
            listed 0 (Nat.succ_pos _)
          rw [List.foldlM_cons]
          cases duplicate with
          | true =>
              rw [placeShare, if_pos status]
              exact induction (Nat.succ.inj size)
                { cursor with numOfShares := cursor.numOfShares + 1 } later data
          | false =>
              rw [uniqueData, if_neg Bool.false_ne_true, List.length_append,
                Buffer.slice_add] at data
              rcases List.append_inj data (by rw [Buffer.slice_length]) with ⟨front, back⟩
              rcases placeShare_described describes status front with
                ⟨next, stored, numOfShares, nextOffset⟩
              rw [← numOfShares] at later
              rw [← nextOffset] at back
              rcases induction (Nat.succ.inj size) next later back with
                ⟨final, placed, offset⟩
              rw [stored]
              refine ⟨final, placed, ?_⟩
              rw [offset, nextOffset, uniqueData, if_neg Bool.false_ne_true,
                List.length_append, Nat.add_assoc]

end ShareCursor

namespace MinDedupCore

variable {generateHash : List Byte → Fingerprint}

theorem firstStageDedup_round {core : MinDedupCore} (counted : core.store.Counted)
    (userID : Int) (file : FileShareMD) :
    ∃ flags : List Bool, flags.length = file.entries.length ∧
      (core.firstStageDedup userID [file]).2.intraUserDupStatList = flags ∧
      (core.firstStageDedup userID [file]).1.store.Counted ∧
      ∀ shareFP user,
        (core.firstStageDedup userID [file]).1.store.refCount shareFP user =
          core.store.refCount shareFP user +
            if user = userID then tally true shareFP file.entries flags else 0 := by
  rcases ShareStore.foldl_reportShare userID file.entries (core.store, ⟨[], 0⟩) counted with
    ⟨flags, size, list, counted', counts⟩
  exact ⟨flags, size, by rw [List.nil_append] at list; exact list, counted', counts⟩

theorem findOrCreateBufferNode_index (core : MinDedupCore) (userID : Int)
    (expired : ShareContainerBuffer → Bool) :
    (core.findOrCreateBufferNode userID expired).1.shareIndex = core.store.shareIndex := by
  have walked : (expireNodes ShareStore.flushContainer (expires userID expired) core.store
      core.bufferNodes).1.shareIndex = core.store.shareIndex := by
    refine expireNodes_invariant _ (expires userID expired) (fun _ _ => True)
      (fun (store : ShareStore) _ => store.shareIndex = core.store.shareIndex)
      (fun _ _ _ _ same => same) ?_ _ _ (walkMeets_of_forall _ _ (fun _ _ => trivial) _ _) rfl
    intro store node rest _ _ same
    rw [ShareStore.flushContainer_shareIndex, same]
  rw [findOrCreateBufferNode]
  cases findUserNode ShareContainerBuffer.userID userID
      (expireNodes ShareStore.flushContainer (expires userID expired) core.store
        core.bufferNodes).2 with
  | some found => exact walked
  | none => exact walked

/-- The number of bytes of the share data buffer that a second stage takes. -/
def consumedData (generateHash : List Byte → Fingerprint) (core : MinDedupCore)
    (userID : Int) (package : List FileShareMD) (intraUserDupStatList : Nat → Bool)
    (shareDataBuffer : Buffer Byte) (expired : ShareContainerBuffer → Bool) : Nat :=
  (Loop.outcome (package.foldlM
    (placeFile generateHash userID intraUserDupStatList shareDataBuffer)
    (openCursor (core.findOrCreateBufferNode userID expired)))).shareDataBufferOffset

theorem secondStageDedup_round {core : MinDedupCore} (counted : core.store.Counted)
    (userID : Int) {file : FileShareMD} (named : formatFullFileName file.fullName ≠ none)
    {shares : List (List Byte)} {flags : List Bool}
    (described : List.Forall₂ (ShareMDEntry.Describes generateHash) file.entries shares)
    (size : flags.length = file.entries.length) {intraUserDupStatList : Nat → Bool}
    (listed : ∀ index (inside : index < flags.length),
      intraUserDupStatList index = flags[index])
    {shareDataBuffer : Buffer Byte}
    (data : shareDataBuffer.slice 0 (uniqueData shares flags).length =
      uniqueData shares flags)
    (expired : ShareContainerBuffer → Bool) :
    (∃ next, core.secondStageDedup generateHash userID [file] intraUserDupStatList
        shareDataBuffer expired = .ok next ∧ next.store.Counted ∧
      ∀ shareFP user, next.store.refCount shareFP user =
        core.store.refCount shareFP user +
          if user = userID then tally false shareFP file.entries flags else 0) ∧
    core.consumedData generateHash userID [file] intraUserDupStatList shareDataBuffer
      expired = (uniqueData shares flags).length := by
  rcases Option.ne_none_iff_exists'.mp named with ⟨name, formatted⟩
  have same := core.findOrCreateBufferNode_index userID expired
  have opened := counted.of_index_eq same
  have listed' : ∀ index (inside : index < flags.length),
      intraUserDupStatList (0 + index) = flags[index] := by simpa using listed
  rcases ShareCursor.foldlM_placeShare intraUserDupStatList shareDataBuffer described size
    (openCursor (core.findOrCreateBufferNode userID expired)) listed' data with
    ⟨final, placed, offset⟩
  rcases ShareCursor.foldlM_placeShare_counts id (fun adds kept => (adds.counts kept).counted)
    size opened listed' placed with ⟨counted', counts⟩
  have package : [file].foldlM
      (placeFile generateHash userID intraUserDupStatList shareDataBuffer)
      (openCursor (core.findOrCreateBufferNode userID expired)) = .ok final := by
    simp only [List.foldlM_cons, List.foldlM_nil, bind_pure, placeFile, formatted]
    exact placed
  constructor
  · refine ⟨closeCursor (core.findOrCreateBufferNode userID expired) final, ?_, counted', ?_⟩
    · rw [secondStageDedup, package]
    · intro shareFP user
      have before : (openCursor (core.findOrCreateBufferNode userID expired)).store.refCount
          shareFP user = core.store.refCount shareFP user :=
        ShareStore.refCount_of_index_eq same shareFP user
      exact (counts shareFP user).trans (by rw [before])
  · rw [consumedData, package, Loop.outcome_ok, offset]
    exact Nat.zero_add _

end MinDedupCore

end MetaDedup.Server
