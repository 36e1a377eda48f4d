import Mathlib.Algebra.BigOperators.Group.List.Basic
import Mathlib.Logic.Relation
import MetaDedup.Server.ReferenceCounts

/-! # Concurrent updates of the share index

The server runs a thread for every connection. Second stages of different connections
meet in `interUserIndexUpdate_`, which takes `DBLock_` for the lookup with the update
of a value it finds, and once more for the `Put` of a new value. Between these critical
sections other connections may take theirs. The containers are left out here: who owns
a share does not depend on where it is. -/

namespace MetaDedup.Server

open Relation

/-- A connection of a user in its second stages: the fingerprints and sizes of the
shares that are still to be added, and whether the first of them has been looked up
and not found. -/
structure Connection where
  userID : Int
  shares : List (Fingerprint × Nat)
  notFound : Bool
  deriving DecidableEq

namespace Connection

/-- The next critical section of a connection. The buffer is the one the thread has
made room in by the time of a `Put`. -/
def criticalSection (store : ShareStore) (buffer : ShareContainerBuffer)
    (connection : Connection) : ShareStore × Connection :=
  match connection.shares with
  | [] => (store, connection)
  | (shareFP, shareSize) :: shares =>
      if connection.notFound then
        (store.put shareFP (ShareStore.newShareValue buffer connection.userID shareSize),
          { connection with shares, notFound := false })
      else
        match store.shareIndex shareFP with
        | some value =>
            (store.put shareFP (value.addReference connection.userID),
              { connection with shares })
        | none => (store, { connection with notFound := true })

def Unraced (store : ShareStore) (connection : Connection) : Prop :=
  ∀ share ∈ connection.shares.head?, connection.notFound = true →
    store.shareIndex share.1 = none

def pending (shareFP : Fingerprint) (user : Int) (connection : Connection) : Nat :=
  if connection.userID = user then connection.shares.countP fun share => share.1 = shareFP
  else 0

end Connection

/-- The share index and the connections that update it. -/
structure Interleaving where
  store : ShareStore
  connections : List Connection

namespace Interleaving

/-- A connection that meets the condition takes its next critical section. -/
inductive Step (condition : ShareStore → Connection → Prop) :
    Interleaving → Interleaving → Prop
  | mk (store : ShareStore) (before after : List Connection) (connection : Connection)
      (buffer : ShareContainerBuffer) (busy : connection.shares ≠ [])
      (allowed : condition store connection) :
      Step condition ⟨store, before ++ connection :: after⟩
        ⟨(connection.criticalSection store buffer).1,
          before ++ (connection.criticalSection store buffer).2 :: after⟩

def pending (state : Interleaving) (shareFP : Fingerprint) (user : Int) : Nat :=
  (state.connections.map (Connection.pending shareFP user)).sum

def Finished (state : Interleaving) : Prop :=
  ∀ connection ∈ state.connections, connection.shares = []

/-- Every user who uploads a share between two states has a reference entry for it that
counts what was counted before and every upload. -/
def OwnershipKept (start final : Interleaving) : Prop :=
  ∀ shareFP user, 0 < start.pending shareFP user →
    ∃ value, final.store.shareIndex shareFP = some value ∧
      ∃ ref, value.reference user = some ref ∧
        ref.refCnt = start.store.refCount shareFP user + start.pending shareFP user

private theorem pending_of_finished {state : Interleaving} (finished : state.Finished)
    (shareFP : Fingerprint) (user : Int) : state.pending shareFP user = 0 := by
  rw [pending, List.sum_eq_zero]
  intro count member
  rcases List.mem_map.mp member with ⟨connection, listed, rfl⟩
  rw [Connection.pending, finished connection listed]
  exact ite_self 0

end Interleaving

/-! ## One critical section -/

section Section

variable {store : ShareStore} {connection : Connection}

variable {shareFP : Fingerprint} {shares : List (Fingerprint × Nat)}

theorem Connection.criticalSection_cases (store : ShareStore) (buffer : ShareContainerBuffer)
    {shareSize : Nat} (first : connection.shares = (shareFP, shareSize) :: shares) :
    (connection.notFound = true ∧ connection.criticalSection store buffer =
      (store.put shareFP (ShareStore.newShareValue buffer connection.userID shareSize),
        ⟨connection.userID, shares, false⟩)) ∨
    (∃ value, connection.notFound = false ∧ store.shareIndex shareFP = some value ∧
      connection.criticalSection store buffer =
        (store.put shareFP (value.addReference connection.userID),
          ⟨connection.userID, shares, false⟩)) ∨
    (connection.notFound = false ∧ store.shareIndex shareFP = none ∧
      connection.criticalSection store buffer =
        (store, ⟨connection.userID, connection.shares, true⟩)) := by
  rw [Connection.criticalSection, first]
  cases looked : connection.notFound with
  | true => exact .inl ⟨rfl, rfl⟩
  | false =>
      right
      cases found : store.shareIndex shareFP with
      | some value => exact .inl ⟨value, rfl, rfl, by simp [found]⟩
      | none => exact .inr ⟨rfl, rfl, by simp [found]⟩

theorem ShareStore.CountsShare.balance {counting : ShareStore} {userID : Int} {shareSize : Nat}
    (counts : store.CountsShare shareFP userID counting) (looked : Bool)
    (other : Fingerprint) (user : Int) :
    counting.refCount other user + Connection.pending other user ⟨userID, shares, false⟩ =
      store.refCount other user +
        Connection.pending other user ⟨userID, (shareFP, shareSize) :: shares, looked⟩ := by
  rw [counts.refCount, Connection.pending, Connection.pending, List.countP_cons]
  by_cases own : userID = user
  · by_cases equal : shareFP = other
    · simp [own, equal]
      omega
    · simp [own, equal, Ne.symm equal]
  · simp [own, Ne.symm own]

/-- An unraced critical section moves a share from those to be added to those counted,
or changes no count. -/
theorem Connection.criticalSection_balance (counted : store.Counted)
    (unraced : connection.Unraced store) (busy : connection.shares ≠ [])
    (buffer : ShareContainerBuffer) :
    (connection.criticalSection store buffer).1.Counted ∧ ∀ shareFP user,
      (connection.criticalSection store buffer).1.refCount shareFP user +
        Connection.pending shareFP user (connection.criticalSection store buffer).2 =
      store.refCount shareFP user + Connection.pending shareFP user connection := by
  rcases connection with ⟨userID, shares, looked⟩
  cases shares with
  | nil => exact absurd rfl busy
  | cons share shares =>
      rcases share with ⟨shareFP, shareSize⟩
      have first : (Connection.mk userID ((shareFP, shareSize) :: shares) looked).shares =
          (shareFP, shareSize) :: shares := rfl
      rcases Connection.criticalSection_cases store buffer first with
        ⟨putting, result⟩ | ⟨value, _, found, result⟩ | ⟨_, _, result⟩
      · have absent := unraced (shareFP, shareSize) rfl putting
        have counts := ShareStore.countsShare_newShareValue counted absent buffer userID
          shareSize
        rw [result]
        exact ⟨counts.counted, counts.balance looked⟩
      · have counts := ShareStore.countsShare_addReference counted found userID
        rw [result]
        exact ⟨counts.counted, counts.balance looked⟩
      · rw [result]
        exact ⟨counted, fun _ _ => rfl⟩

/-- A call that no other connection interrupts consists of critical sections, each of
them unraced, and leaves the index `interUserIndexUpdate` leaves. -/
theorem ShareStore.interUserIndexUpdate_uninterrupted (store : ShareStore)
    (buffer : ShareContainerBuffer) (shareFP : Fingerprint) (userID : Int)
    {share : List Byte} (fits : share.length ≤ containerBufferSize) :
    ∃ result final, store.interUserIndexUpdate buffer shareFP userID share = .ok result ∧
      ReflTransGen (Interleaving.Step Connection.Unraced)
        ⟨store, [⟨userID, [(shareFP, share.length)], false⟩]⟩
        ⟨final, [⟨userID, [], false⟩]⟩ ∧
      final.shareIndex = result.1.shareIndex := by
  have looking : Connection.Unraced store ⟨userID, [(shareFP, share.length)], false⟩ := by
    intro _ _ putting
    cases putting
  have lookup := Interleaving.Step.mk store [] []
    ⟨userID, [(shareFP, share.length)], false⟩ buffer (List.cons_ne_nil _ _) looking
  rcases store.interUserIndexUpdate_cases buffer shareFP userID fits with
    ⟨value, found, result⟩ | ⟨roomy, emptied, absent, _, either, result⟩
  · refine ⟨_, _, result, .single ?_, rfl⟩
    rw [Connection.criticalSection] at lookup
    simpa only [found, Bool.false_eq_true, if_false, List.nil_append] using lookup
  · have same : roomy.shareIndex = store.shareIndex := by
      rcases either with ⟨equal, _⟩ | ⟨_, equal, _⟩
      · rw [equal]
      · rw [equal]
        exact flushContainer_shareIndex store buffer
    have putting : Connection.Unraced store ⟨userID, [(shareFP, share.length)], true⟩ := by
      intro first member _
      cases member
      exact absent
    have put := Interleaving.Step.mk store [] []
      ⟨userID, [(shareFP, share.length)], true⟩ emptied (List.cons_ne_nil _ _) putting
    have looked : Interleaving.Step Connection.Unraced
        ⟨store, [⟨userID, [(shareFP, share.length)], false⟩]⟩
        ⟨store, [⟨userID, [(shareFP, share.length)], true⟩]⟩ := by
      rw [Connection.criticalSection] at lookup
      simpa only [absent, Bool.false_eq_true, if_false, List.nil_append] using lookup
    refine ⟨_, _, result, .tail (.single looked) put, ?_⟩
    change Function.update store.shareIndex _ _ = Function.update roomy.shareIndex _ _
    rw [same]

theorem ShareStore.interUserIndexUpdate_uninterrupted_new :
    ∃ result final,
      ShareStore.empty.interUserIndexUpdate ⟨1, .first, []⟩ ⟨_, zeros_size⟩ 1 [7] =
        .ok result ∧
      ReflTransGen (Interleaving.Step Connection.Unraced)
        ⟨.empty, [⟨1, [(⟨_, zeros_size⟩, 1)], false⟩]⟩ ⟨final, [⟨1, [], false⟩]⟩ ∧
      final.shareIndex = result.1.shareIndex :=
  ShareStore.empty.interUserIndexUpdate_uninterrupted _ _ 1 (by decide)

end Section

/-! ## Runs -/

namespace Interleaving

theorem Step.balance {state next : Interleaving} (step : Step Connection.Unraced state next)
    (counted : state.store.Counted) :
    next.store.Counted ∧ ∀ shareFP user,
      next.store.refCount shareFP user + next.pending shareFP user =
        state.store.refCount shareFP user + state.pending shareFP user := by
  cases step with
  | mk store before after connection buffer busy unraced =>
      have held : store.Counted := counted
      have one := connection.criticalSection_balance held unraced busy buffer
      refine ⟨one.1, ?_⟩
      intro shareFP user
      have balance := one.2 shareFP user
      simp only [pending, List.map_append, List.map_cons, List.sum_append, List.sum_cons]
      omega

private theorem run_balance {start state : Interleaving} (counted : start.store.Counted)
    (run : ReflTransGen (Step Connection.Unraced) start state) :
    state.store.Counted ∧ ∀ shareFP user,
      state.store.refCount shareFP user + state.pending shareFP user =
        start.store.refCount shareFP user + start.pending shareFP user := by
  induction run with
  | refl => exact ⟨counted, fun _ _ => rfl⟩
  | tail _ step induction =>
      rcases step.balance induction.1 with ⟨counted, balance⟩
      exact ⟨counted, fun shareFP user => (balance shareFP user).trans (induction.2 _ _)⟩

def zeroFP : Fingerprint := ⟨List.replicate fpSize 0, List.length_replicate⟩

/-- Users 1 and 2 upload the same new share of one byte. -/
def sameNewShare : Interleaving :=
  ⟨.empty, [⟨1, [(zeroFP, 1)], false⟩, ⟨2, [(zeroFP, 1)], false⟩]⟩

/-- The buffer nodes of these users. Each has drawn a name for its container. -/
def firstNode : ShareContainerBuffer := ⟨1, ShareStore.empty.drawContainerName.1, []⟩

def secondNode : ShareContainerBuffer :=
  ⟨2, ShareStore.empty.drawContainerName.2.drawContainerName.1, []⟩

def withNewShare (store : ShareStore) (node : ShareContainerBuffer) : ShareStore :=
  store.put zeroFP (ShareStore.newShareValue node node.userID 1)

/-- In every run in which each `Put` finds the index still without its share, no
reference is lost: what is counted and what is still to be added for a user stays the
same in sum, and once all calls have returned, every user owns the shares it has
uploaded, counted as often as they were uploaded. -/
theorem ownership_kept {start state : Interleaving} (counted : start.store.Counted)
    (run : ReflTransGen (Step Connection.Unraced) start state) :
    (∀ shareFP user,
      state.store.refCount shareFP user + state.pending shareFP user =
        start.store.refCount shareFP user + start.pending shareFP user) ∧
    (state.Finished → start.OwnershipKept state) := by
  have balance := (run_balance counted run).2
  refine ⟨balance, ?_⟩
  intro finished shareFP user uploads
  have total := balance shareFP user
  rw [pending_of_finished finished, Nat.add_zero] at total
  rw [← total]
  exact ShareStore.exists_reference (by omega)

/-- The two uploads one after the other. -/
theorem ownership_kept_in_turn :
    ∃ state, ReflTransGen (Step Connection.Unraced) sameNewShare state ∧
      state.Finished ∧ sameNewShare.OwnershipKept state := by
  have counted : sameNewShare.store.Counted := by
    intro shareFP value found
    cases found
  have lookup : Step Connection.Unraced sameNewShare
      ⟨.empty, [⟨1, [(zeroFP, 1)], true⟩, ⟨2, [(zeroFP, 1)], false⟩]⟩ :=
    .mk .empty [] [⟨2, [(zeroFP, 1)], false⟩] ⟨1, [(zeroFP, 1)], false⟩ firstNode
      (List.cons_ne_nil _ _) (fun _ _ putting => nomatch putting)
  have put : Step Connection.Unraced
      ⟨.empty, [⟨1, [(zeroFP, 1)], true⟩, ⟨2, [(zeroFP, 1)], false⟩]⟩
      ⟨withNewShare .empty firstNode, [⟨1, [], false⟩, ⟨2, [(zeroFP, 1)], false⟩]⟩ :=
    .mk .empty [] [⟨2, [(zeroFP, 1)], false⟩] ⟨1, [(zeroFP, 1)], true⟩ firstNode
      (List.cons_ne_nil _ _) (fun _ _ _ => rfl)
  have second : Step Connection.Unraced
      ⟨withNewShare .empty firstNode, [⟨1, [], false⟩, ⟨2, [(zeroFP, 1)], false⟩]⟩ _ :=
    .mk (withNewShare .empty firstNode) [⟨1, [], false⟩] [] ⟨2, [(zeroFP, 1)], false⟩ secondNode
      (List.cons_ne_nil _ _) (fun _ _ putting => nomatch putting)
  have run := ((ReflTransGen.single lookup).tail put).tail second
  have finished : ∀ connection ∈ ([⟨1, [], false⟩, ⟨2, [], false⟩] : List Connection),
      connection.shares = [] := by decide
  exact ⟨_, run, finished, (ownership_kept counted run).2 finished⟩

/-- Both connections look the share up before either of them puts it. The second `Put`
replaces the value of the first one, and user 1 does not own what it has uploaded. -/
theorem ownership_lost :
    ∃ state, ReflTransGen (Step fun _ _ => True) sameNewShare state ∧
      state.Finished ∧ ¬ sameNewShare.OwnershipKept state := by
  have lookup : Step (fun _ _ => True) sameNewShare
      ⟨.empty, [⟨1, [(zeroFP, 1)], true⟩, ⟨2, [(zeroFP, 1)], false⟩]⟩ :=
    .mk .empty [] [⟨2, [(zeroFP, 1)], false⟩] ⟨1, [(zeroFP, 1)], false⟩ firstNode
      (List.cons_ne_nil _ _) trivial
  have looked : Step (fun _ _ => True)
      ⟨.empty, [⟨1, [(zeroFP, 1)], true⟩, ⟨2, [(zeroFP, 1)], false⟩]⟩
      ⟨.empty, [⟨1, [(zeroFP, 1)], true⟩, ⟨2, [(zeroFP, 1)], true⟩]⟩ :=
    .mk .empty [⟨1, [(zeroFP, 1)], true⟩] [] ⟨2, [(zeroFP, 1)], false⟩ secondNode
      (List.cons_ne_nil _ _) trivial
  have put : Step (fun _ _ => True)
      ⟨.empty, [⟨1, [(zeroFP, 1)], true⟩, ⟨2, [(zeroFP, 1)], true⟩]⟩
      ⟨withNewShare .empty firstNode, [⟨1, [], false⟩, ⟨2, [(zeroFP, 1)], true⟩]⟩ :=
    .mk .empty [] [⟨2, [(zeroFP, 1)], true⟩] ⟨1, [(zeroFP, 1)], true⟩ firstNode
      (List.cons_ne_nil _ _) trivial
  have replaced : Step (fun _ _ => True)
      ⟨withNewShare .empty firstNode, [⟨1, [], false⟩, ⟨2, [(zeroFP, 1)], true⟩]⟩
      ⟨withNewShare (withNewShare .empty firstNode) secondNode,
        [⟨1, [], false⟩, ⟨2, [], false⟩]⟩ :=
    .mk (withNewShare .empty firstNode) [⟨1, [], false⟩] [] ⟨2, [(zeroFP, 1)], true⟩ secondNode
      (List.cons_ne_nil _ _) trivial
  have run := (((ReflTransGen.single lookup).tail looked).tail put).tail replaced
  refine ⟨_, run, ?_, ?_⟩
  · intro connection member
    rcases List.mem_cons.mp member with rfl | member
    · rfl
    · rw [List.mem_singleton.mp member]
  · intro kept
    rcases kept zeroFP 1 (by decide) with ⟨value, found, ref, reference, _⟩
    have last : (withNewShare (withNewShare .empty firstNode) secondNode).shareIndex zeroFP =
        some (ShareStore.newShareValue secondNode 2 1) := by
      simp only [withNewShare, ShareStore.put, Function.update_self]
      rfl
    cases last.symm.trans found
    cases reference

end Interleaving

end MetaDedup.Server
