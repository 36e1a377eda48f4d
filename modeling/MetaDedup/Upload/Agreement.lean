import MetaDedup.Server.DedupIntegrity
import MetaDedup.Upload.Service

/-! # The parties of an upload agree

The client waits for a status list before it sends data, so the server is at most one
`DATA` message behind. In every state that can be reached the server has seen the
rounds of the upload in order, and there is a step to take until the upload is
complete. -/

namespace MetaDedup.Upload

open Foundation Wire Uploader Relation
open Server (Fingerprint DataRequest DataConnection MinDedupCore ShareContainerBuffer
  ShareStore)

section Agreement

variable {generateHash : List Byte → Fingerprint} (upload : FileUpload generateHash)
variable (base : ShareStore) (user : Int)

/-! ## The shares of an upload -/

variable {upload} in
theorem mem_of_plan {done : List (List ShareObject)} {placed left : List ShareObject}
    (plan : planRounds upload.shares = done ++ packRounds placed left) :
    ∀ share ∈ placed ++ left, share ∈ upload.shares := by
  intro share member
  rw [← planRounds_flatten upload.shares, plan, List.flatten_append, packRounds_flatten]
  exact List.mem_append_right _ member

variable {upload} in
theorem planned_of_plan {done coming : List (List ShareObject)}
    (plan : planRounds upload.shares = done ++ coming) :
    ∀ round ∈ done, round ∈ planRounds upload.shares := by
  intro round member
  rw [plan]
  exact List.mem_append_left _ member

theorem shares_of_round {round : List ShareObject}
    (planned : round ∈ planRounds upload.shares) : Shares generateHash round := by
  intro share member
  have uploaded : share ∈ upload.shares := by
    rw [← planRounds_flatten upload.shares]
    exact List.mem_flatten_of_mem planned member
  exact ⟨upload.hashed share uploaded, upload.sized share uploaded⟩

/-! ## The invariant -/

/-- The client has received the status lists of the rounds `done`. The server has
handled all of them, or the data of the last one is still on its way. -/
inductive Backlog (done : List (List ShareObject)) (pending : List DataRequest)
    (server : DataConnection) (events : List Event) : Prop
  | served (sent : pending = [])
      (state : Served generateHash base user done server events)
  | reporting {earlier : List (List ShareObject)} {round : List ShareObject}
      {flags : List Bool} (rounds : done = earlier ++ [round])
      (sent : pending = [.shareData (roundBody round flags)])
      (state : Reporting generateHash base user upload.name earlier round flags server
        events)

/-- The states an upload goes through. -/
inductive Invariant : System → Prop
  | starting {client : Thread} {server : DataConnection}
      (phase : client.phase = .extract) (ring : client.ringBuffer = upload.items)
      (buffers : client.buffers.metaWP = 0 ∧ client.buffers.containerWP = 0 ∧
        client.buffers.numOfShares = 0)
      (served : Served generateHash base user [] server []) :
      Invariant ⟨client, [], [], server, []⟩
  | collecting {client : Thread} {server : DataConnection} {events : List Event}
      {done : List (List ShareObject)} {placed left : List ShareObject}
      {pending : List DataRequest}
      (phase : client.phase = .extract) (ring : client.ringBuffer = shareItems left)
      (remaining : left ≠ [])
      (collected : Collected upload.name placed client.buffers)
      (plan : planRounds upload.shares = done ++ packRounds placed left)
      (backlog : Backlog upload base user done pending server events) :
      Invariant ⟨client, pending, [], server, events⟩
  | requested {client : Thread} {server : DataConnection} {events : List Event}
      {done later : List (List ShareObject)} {placed : List ShareObject}
      {inHand : Option (ShareObject × Bool)} {pending : List DataRequest}
      (phase : client.phase = .awaitStatus inHand)
      (ahead : Ahead inHand client.ringBuffer later)
      (collected : Collected upload.name placed client.buffers)
      (plan : planRounds upload.shares = done ++ placed :: later)
      (backlog : Backlog upload base user done pending server events) :
      Invariant ⟨client, pending ++ [.metadata client.buffers.metaPackage], [], server,
        events⟩
  | answered {client : Thread} {server : DataConnection} {events : List Event}
      {done later : List (List ShareObject)} {placed : List ShareObject}
      {inHand : Option (ShareObject × Bool)} {flags : List Bool}
      (phase : client.phase = .awaitStatus inHand)
      (ahead : Ahead inHand client.ringBuffer later)
      (collected : Collected upload.name placed client.buffers)
      (plan : planRounds upload.shares = done ++ placed :: later)
      (reporting : Reporting generateHash base user upload.name done placed flags server
        events) :
      Invariant ⟨client, [], [flags], server, events⟩
  | exited {client : Thread} {server : DataConnection} {events : List Event}
      {pending : List DataRequest} (phase : client.phase = .exited)
      (backlog : Backlog upload base user (planRounds upload.shares) pending server
        events) :
      Invariant ⟨client, pending, [], server, events⟩

variable {upload base user}

/-! ## Steps of the client -/

variable {client : Thread} {server : DataConnection} {events : List Event}
variable {pending : List DataRequest} {later : List (List ShareObject)}
variable {inHand : Option (ShareObject × Bool)} {done : List (List ShareObject)}
variable {placed left : List ShareObject}

theorem Invariant.place {share : ShareObject} (ring : client.ringBuffer = shareItems left)
    (collected : Collected upload.name placed client.buffers)
    (bounded : placed.length + 1 < intBound)
    (plan : planRounds upload.shares = done ++ packRounds (placed ++ [share]) left)
    (backlog : Backlog upload base user done pending server events) :
    Invariant upload base user ⟨(client.place share left.isEmpty).1,
      pending ++ (client.place share left.isEmpty).2, [], server, events⟩ := by
  have grown := collected.putShare share bounded
  cases left with
  | nil =>
      rw [packRounds] at plan
      refine .requested rfl ?_ grown plan backlog
      change Ahead none client.ringBuffer []
      rw [ring]
      exact .ended
  | cons next left =>
      change Invariant upload base user ⟨_, pending ++ [], [], server, events⟩
      rw [List.append_nil]
      exact .collecting rfl ring (List.cons_ne_nil _ _) grown plan backlog

theorem Invariant.extract {item : Item} {rest : List Item}
    (ring : client.ringBuffer = shareItems left) (next : client.ringBuffer = item :: rest)
    (collected : Collected upload.name placed client.buffers)
    (plan : planRounds upload.shares = done ++ packRounds placed left)
    (backlog : Backlog upload base user done pending server events) :
    Invariant upload base user
      (System.clientMoves ⟨client, pending, [], server, events⟩
        (Thread.handle { client with ringBuffer := rest } item)) := by
  cases left with
  | nil =>
      cases ring.symm.trans next
  | cons share left =>
      rw [ring, shareItems] at next
      cases next
      have members := mem_of_plan plan
      have positive : ∀ other ∈ placed, 1 ≤ other.data.length := by
        intro other member
        exact (upload.sized other (members other (List.mem_append_left _ member))).1
      have count := Collected.length_le positive
      rw [packRounds] at plan
      rw [Thread.handle, collected.containerWP]
      by_cases full : share.data.length + (shareData placed).length > uploadBufferSize
      · rw [if_pos full] at plan ⊢
        exact .requested rfl (.inHand share left) collected plan backlog
      · rw [if_neg full] at plan ⊢
        refine .place rfl collected ?_ plan backlog
        rw [uploadBufferSize] at full
        rw [intBound]
        omega

theorem Invariant.receiveStatus {flags : List Bool}
    (ahead : Ahead inHand client.ringBuffer later)
    (collected : Collected upload.name placed client.buffers)
    (plan : planRounds upload.shares = done ++ placed :: later)
    (reporting : Reporting generateHash base user upload.name done placed flags server
      events) :
    Invariant upload base user (System.clientMoves ⟨client, [], [], server, events⟩
      (client.receiveStatus inHand flags)) := by
  have body : (client.buffers.performUpload flags).2 = roundBody placed flags :=
    collected.performUpload reporting.size
  have backlog : Backlog upload base user (done ++ [placed])
      [.shareData (client.buffers.performUpload flags).2] server events :=
    .reporting rfl (by rw [body]) reporting
  generalize items : client.ringBuffer = ring at ahead
  cases ahead with
  | ended =>
      rw [← plan] at backlog
      exact .exited rfl backlog
  | inHand share left =>
      have opened : Collected upload.name []
          (client.buffers.performUpload flags).1.updateHeader :=
        Collected.updateHeader collected.header collected.package
      have split : planRounds upload.shares =
          (done ++ [placed]) ++ packRounds ([] ++ [share]) left := by
        rw [plan, List.append_assoc]
        rfl
      rw [Thread.receiveStatus]
      generalize (client.buffers.performUpload flags).1.updateHeader = reset at opened ⊢
      have bounded : ([] : List ShareObject).length + 1 < intBound := by decide
      have ring : ({ client with buffers := reset } : Thread).ringBuffer = shareItems left :=
        items
      exact Invariant.place ring opened bounded split backlog

/-! ## Steps of the server -/

variable {rest : List DataRequest}

theorem Invariant.serveMetadata (phase : client.phase = .awaitStatus inHand)
    (ahead : Ahead inHand client.ringBuffer later)
    (collected : Collected upload.name placed client.buffers)
    (plan : planRounds upload.shares = done ++ placed :: later)
    (served : Served generateHash base user done server events) :
    Invariant upload base user (System.serveMetadata ⟨client, [], [], server, events⟩
      client.buffers.metaPackage) := by
  have planned : placed ∈ planRounds upload.shares := by
    rw [plan]
    exact List.mem_append_right _ List.mem_cons_self
  have sent : client.buffers.metaPackage =
      client.buffers.uploadMetaBuffer.slice 0 (entryAt upload.name placed.length) := by
    rw [UploadBuffers.metaPackage, collected.metaWP]
  exact .answered phase ahead collected plan
    (served.receiveMetadata (shares_of_round upload planned) collected.package sent)

theorem Backlog.serveShareData {message : List Byte}
    (backlog : Backlog upload base user done (.shareData message :: rest) server events)
    (planned : ∀ round ∈ done, round ∈ planRounds upload.shares)
    (expired : ShareContainerBuffer → Bool) :
    Backlog upload base user done rest
      (server.receiveShareData generateHash message expired).1
      (events ++ [.secondStage message (server.consumedData generateHash message expired)
        (server.receiveShareData generateHash message expired).2]) := by
  cases backlog with
  | served sent _ => cases sent
  | @reporting earlier round flags rounds sent state =>
      cases sent
      have member : round ∈ done := by
        rw [rounds]
        exact List.mem_append_right _ List.mem_cons_self
      have shares := shares_of_round upload (planned round member)
      rw [rounds]
      exact .served rfl (state.receiveShareData upload.format_name shares expired)

theorem Backlog.not_metadata {message : List Byte} :
    ¬ Backlog upload base user done (.metadata message :: rest) server events := by
  intro backlog
  cases backlog with
  | served sent _ => cases sent
  | reporting _ sent _ => cases sent

/-! ## Every step keeps the invariant -/

variable {system : System}

theorem Invariant.step {next : System} (invariant : Invariant upload base user system)
    (step : System.Step generateHash system next) : Invariant upload base user next := by
  cases invariant with
  | starting phase ring buffers served =>
      cases step with
      | extract _ items =>
          cases ring.symm.trans items
          have collected := Collected.putFileHeader buffers upload.fullNameSize
            upload.numOfComingSecrets upload.fullName
          exact .collecting phase rfl upload.shares_nonempty collected rfl (.served rfl served)
      | getStatus waiting _ => cases phase.symm.trans waiting
      | metadata messages => cases messages
      | shareData messages _ => cases messages
  | @collecting _ _ _ done placed left pending phase ring remaining collected plan backlog =>
      cases step with
      | extract _ items => exact .extract ring items collected plan backlog
      | getStatus waiting _ => cases phase.symm.trans waiting
      | metadata messages =>
          cases messages
          exact absurd backlog Backlog.not_metadata
      | shareData messages expired =>
          cases messages
          exact .collecting phase ring remaining collected plan
            (backlog.serveShareData (planned_of_plan plan) expired)
  | @requested client server events done later placed inHand pending phase ahead collected
      plan backlog =>
      cases step with
      | extract ready _ => cases phase.symm.trans ready
      | getStatus _ answers => cases answers
      | @metadata message rest messages =>
          cases pending with
          | nil =>
              cases messages
              cases backlog with
              | served _ served => exact .serveMetadata phase ahead collected plan served
              | reporting _ sent _ => cases sent
          | cons first pending =>
              cases (List.cons.inj messages).1
              exact absurd backlog Backlog.not_metadata
      | @shareData message rest messages expired =>
          cases pending with
          | nil => cases messages
          | cons first pending =>
              cases messages
              exact .requested phase ahead collected plan
                (backlog.serveShareData (planned_of_plan plan) expired)
  | answered phase ahead collected plan reporting =>
      cases step with
      | extract ready _ => cases phase.symm.trans ready
      | getStatus waiting answers =>
          cases phase.symm.trans waiting
          cases answers
          exact .receiveStatus ahead collected plan reporting
      | metadata messages => cases messages
      | shareData messages _ => cases messages
  | exited phase backlog =>
      cases step with
      | extract ready _ => cases phase.symm.trans ready
      | getStatus waiting _ => cases phase.symm.trans waiting
      | metadata messages =>
          cases messages
          exact absurd backlog Backlog.not_metadata
      | shareData messages expired =>
          cases messages
          exact .exited phase (backlog.serveShareData (fun _ member => member) expired)

theorem Invariant.run {start : System} (invariant : Invariant upload base user start)
    (run : ReflTransGen (System.Step generateHash) start system) :
    Invariant upload base user system := by
  induction run with
  | refl => exact invariant
  | tail _ step induction => exact induction.step step

/-! ## What the invariant says -/

theorem Backlog.agrees {done left : List (List ShareObject)}
    (backlog : Backlog upload base user done pending server events) :
    Agrees (done ++ left) events := by
  cases backlog with
  | served _ state => exact .inl ⟨done, left, rfl, state.completed⟩
  | @reporting earlier round flags rounds _ state =>
      rcases state.reported with ⟨before, first, split, completed, reported⟩
      refine .inr ⟨earlier, round, left, before, flags, first, ?_, split, completed, reported⟩
      rw [rounds, List.append_assoc]
      rfl

theorem Invariant.agrees (invariant : Invariant upload base user system) :
    Agrees (planRounds upload.shares) system.events := by
  cases invariant with
  | starting _ _ _ served => exact .inl ⟨[], _, rfl, served.completed⟩
  | collecting _ _ _ _ plan backlog =>
      rw [plan]
      exact backlog.agrees
  | requested _ _ _ plan backlog =>
      rw [plan]
      exact backlog.agrees
  | @answered _ _ _ done later placed _ flags _ _ _ plan reporting =>
      rcases reporting.reported with ⟨before, first, split, completed, reported⟩
      exact .inr ⟨done, placed, later, before, flags, first, plan, split, completed, reported⟩
  | exited _ backlog =>
      rw [← List.append_nil (planRounds upload.shares)]
      exact backlog.agrees

theorem Backlog.served_or_step
    (backlog : Backlog upload base user done pending server events) (client : Thread)
    (later : List DataRequest) (answers : List (List Bool)) :
    pending = [] ∨
      ∃ next, System.Step generateHash ⟨client, pending ++ later, answers, server, events⟩
        next := by
  cases backlog with
  | served sent _ => exact .inl sent
  | reporting _ sent _ =>
      rw [sent]
      exact .inr ⟨_, .shareData rfl fun _ => false⟩

theorem Invariant.progress (invariant : Invariant upload base user system) :
    system.Complete ∨ ∃ next, System.Step generateHash system next := by
  cases invariant with
  | starting phase ring _ _ => exact .inr ⟨_, .extract phase ring⟩
  | @collecting _ _ _ _ _ left _ phase ring remaining _ _ _ =>
      cases left with
      | nil => exact absurd rfl remaining
      | cons share left => exact .inr ⟨_, .extract phase ring⟩
  | @requested client _ _ _ _ _ _ _ _ _ _ _ backlog =>
      rcases backlog.served_or_step client [.metadata client.buffers.metaPackage] [] with
        sent | step
      · rw [sent]
        exact .inr ⟨_, .metadata rfl⟩
      · exact .inr step
  | answered phase _ _ _ _ => exact .inr ⟨_, .getStatus phase rfl⟩
  | @exited client _ _ _ phase backlog =>
      rcases backlog.served_or_step client [] [] with sent | step
      · exact .inl ⟨phase, sent⟩
      · rw [List.append_nil] at step
        exact .inr step

theorem Invariant.served (invariant : Invariant upload base user system)
    (complete : system.Complete) :
    Served generateHash base user (planRounds upload.shares) system.server
      system.events := by
  rcases complete with ⟨exits, drained⟩
  cases invariant with
  | starting phase _ _ _ => cases phase.symm.trans exits
  | collecting phase _ _ _ _ _ => cases phase.symm.trans exits
  | requested phase _ _ _ _ => cases phase.symm.trans exits
  | answered phase _ _ _ _ => cases phase.symm.trans exits
  | exited _ backlog =>
      cases backlog with
      | served _ state => exact state
      | reporting _ sent _ => cases sent.symm.trans drained

end Agreement

/-! ## The upload of a file -/

/-- A file with a name of one letter and twice the same share. -/
def repeatedShare : FileUpload Server.paddingHash where
  head := fun position => if position = 0 then 2 else 0
  data := fun position => if position = 0 then 102 else 0
  name := [102, 0]
  shares := [⟨Server.paddingHash [5], 0, 1, [5]⟩, ⟨Server.paddingHash [5], 1, 1, [5]⟩]
  fullNameSize := by decide
  numOfComingSecrets := by decide
  fullName := by decide
  named := by decide
  notHere := by decide
  notAbove := by decide
  shares_nonempty := by decide
  hashed := by decide
  sized := by decide

def newConnection : System where
  client := ⟨⟨fun _ => 0, 0, 0, fun _ => 0, 0, fun _ => 0, 0⟩, repeatedShare.items, .extract⟩
  toServer := []
  toClient := []
  server := ⟨.empty, 7, fun _ => 0, fun _ => 0, 0, fun _ => false⟩
  events := []

/-- An upload that begins with the server in a reachable state comes to an end in every
interleaving of its steps. In every state on the way the server has read the shares of
each round in order, was sent exactly the data it had asked for, has taken all of it
and has returned 1. Afterwards the user owns every share, counted as often as it was
uploaded, and the counts of other users are as before. -/
theorem uploads_agree {generateHash : List Byte → Fingerprint}
    (upload : FileUpload generateHash) {start : System} (begins : start.Begins upload)
    (reachable : ReflTransGen (MinDedupCore.Step generateHash) .empty
      start.server.core) :
    (WellFounded fun next system => System.Step generateHash system next) ∧
    ∀ system, ReflTransGen (System.Step generateHash) start system →
      Agrees (planRounds upload.shares) system.events ∧
      (system.Complete ∨ ∃ next, System.Step generateHash system next) ∧
      (system.Complete → Completed (planRounds upload.shares) system.events ∧
        (∀ share ∈ upload.shares, ∃ value,
          system.server.core.store.shareIndex share.shareFP = some value ∧
          ∃ ref, value.reference start.server.user = some ref ∧
            ref.refCnt = start.server.core.store.refCount share.shareFP start.server.user +
              occurrences share.shareFP upload.shares) ∧
        ∀ shareFP other, other ≠ start.server.user →
          system.server.core.store.refCount shareFP other =
            start.server.core.store.refCount shareFP other) := by
  have initial : Invariant upload start.server.core.store start.server.user start := by
    rcases start with ⟨client, toServer, toClient, server, events⟩
    cases begins.toServer
    cases begins.toClient
    cases begins.events
    have nothing : Served generateHash server.core.store server.user [] server [] :=
      { owner := rfl
        reachable := reachable
        completed := .none
        refCount := by
          intro shareFP other
          simp [occurrences] }
    exact .starting begins.phase begins.ringBuffer begins.buffers nothing
  refine ⟨System.wellFounded_step, ?_⟩
  intro system run
  have invariant := initial.run run
  refine ⟨invariant.agrees, invariant.progress, ?_⟩
  intro complete
  have served := invariant.served complete
  have counts := served.refCount
  rw [planRounds_flatten] at counts
  refine ⟨served.completed, ?_, ?_⟩
  · intro share member
    have count := counts share.shareFP start.server.user
    rw [if_pos rfl] at count
    have occurs : 0 < occurrences share.shareFP upload.shares :=
      List.countP_pos_iff.mpr ⟨share, member, by simp⟩
    rw [← count]
    exact ShareStore.exists_reference (by omega)
  · intro shareFP other different
    rw [counts, if_neg different, Nat.add_zero]

theorem uploads_agree_repeatedShare :
    ∃ system, ReflTransGen (System.Step Server.paddingHash) newConnection system ∧
      system.Complete ∧ ∀ share ∈ repeatedShare.shares, ∃ value,
        system.server.core.store.shareIndex share.shareFP = some value ∧
        ∃ ref, value.reference 7 = some ref ∧ ref.refCnt = 2 := by
  have begins : newConnection.Begins repeatedShare :=
    ⟨rfl, rfl, ⟨rfl, rfl, rfl⟩, rfl, rfl, rfl⟩
  have agree := (uploads_agree repeatedShare begins .refl).2
  have header : ReflTransGen (System.Step Server.paddingHash) newConnection _ :=
    .single (.extract begins.phase begins.ringBuffer)
  have first := header.tail (.extract rfl rfl)
  have second := first.tail (.extract rfl rfl)
  have metadata := second.tail (.metadata rfl)
  have status := metadata.tail (.getStatus rfl rfl)
  have run := status.tail (.shareData rfl fun _ => false)
  have counts : ∀ share ∈ repeatedShare.shares,
      newConnection.server.core.store.refCount share.shareFP 7 +
        occurrences share.shareFP repeatedShare.shares = 2 := by decide
  refine ⟨_, run, ⟨rfl, rfl⟩, ?_⟩
  intro share member
  rcases ((agree _ run).2.2 ⟨rfl, rfl⟩).2.1 share member with
    ⟨value, found, ref, reference, count⟩
  exact ⟨value, found, ref, reference, count.trans (counts share member)⟩

end MetaDedup.Upload
