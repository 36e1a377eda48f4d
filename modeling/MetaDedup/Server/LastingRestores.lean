import MetaDedup.Server.ContainerGrowth
import MetaDedup.Server.RestoreOwnership

/-! # Restores last

What `minDedupCore` can restore of a recipe, it restores with the same messages ever
after: later calls of any users append to containers and flush them, but change nothing
that a share in the index refers to. -/

namespace MetaDedup.Server

open Foundation

namespace ShareStore

variable {before store : ShareStore} {beforeBuffers buffers : List ShareContainerBuffer}
variable (grown : before.Grown beforeBuffers store buffers) (socket : Nat → Bool)
variable (stale : Buffer Byte)

include grown

theorem Grown.restoreLoop {early late final : Restoration}
    (earlyFaithful : RecentCache.Faithful (before.loadShareContainer beforeBuffers)
      early.shareContainerCache)
    (lateFaithful : RecentCache.Faithful (store.loadShareContainer buffers)
      late.shareContainerCache)
    (same : late.stream = early.stream) {entries : List FileRecipeEntry}
    (restores : entries.foldlM (before.restoreShare beforeBuffers socket stale) early =
      .ok final) :
    ∃ lateFinal, entries.foldlM (store.restoreShare buffers socket stale) late =
        .ok lateFinal ∧ lateFinal.stream = final.stream := by
  induction entries generalizing early late with
  | nil =>
      cases restores
      exact ⟨late, rfl, same⟩
  | cons entry entries induction =>
      rw [List.foldlM_cons] at restores ⊢
      rcases Loop.bind_eq_ok_iff.mp restores with ⟨next, first, later⟩
      rcases grown.restoreShare socket stale earlyFaithful lateFaithful same first with
        ⟨lateNext, restored, stream, faithful, lateNextFaithful⟩
      rw [restored]
      exact induction faithful lateNextFaithful stream later

theorem Grown.restoreShares {shareFileBuffer : Buffer Byte} {head : FileRecipeHead}
    {entries : List FileRecipeEntry} {final : Restoration}
    (restores : before.restoreShares beforeBuffers socket stale shareFileBuffer head entries =
      .ok final) :
    ∃ lateFinal, store.restoreShares buffers socket stale shareFileBuffer head entries =
        .ok lateFinal ∧ lateFinal.stream = final.stream := by
  rw [ShareStore.restoreShares] at restores ⊢
  rcases Loop.bind_eq_ok_iff.mp restores with ⟨restored, loop, finished⟩
  rcases grown.restoreLoop socket stale .nil .nil rfl loop with ⟨late, lateLoop, stream⟩
  rw [lateLoop]
  exact finishRestore_of_stream_eq stream finished

end ShareStore

/-- A recipe that can be restored at some moment is restored with the same messages at
every later one, as long as container names are left. -/
theorem restores_last {generateHash : List Byte → Fingerprint} {core later : MinDedupCore}
    (reached : Relation.ReflTransGen (MinDedupCore.Step generateHash) .empty core)
    (continued : Relation.ReflTransGen (MinDedupCore.Step generateHash) core later)
    (left : later.store.globalShareContainerName.drawn < 26 ^ fileNameValidLen)
    (socket : Nat → Bool) (stale shareFileBuffer : Buffer Byte) (head : FileRecipeHead)
    (entries : List FileRecipeEntry) {restored : Restoration}
    (restores : core.store.restoreShares core.bufferNodes socket stale shareFileBuffer head
      entries = .ok restored) :
    ∃ again, later.store.restoreShares later.bufferNodes socket stale shareFileBuffer head
      entries = .ok again ∧ again.stream = restored.stream := by
  have placed := MinDedupCore.reachable_preserved (ShareStore.grown_preserved .empty [])
    (fun _ => ShareStore.placed_empty.grown) reached
  have grown := MinDedupCore.reachable_preserved
    (ShareStore.grown_preserved core.store core.bufferNodes)
    (fun fresh => (placed fresh).placed.grown) continued
  exact (grown left).restoreShares socket stale restores

/-- User 2 uploads another share after user 1 has uploaded one. -/
theorem restores_last_uploaded :
    ∃ later restored again, MinDedupCore.Step paddingHash uploadedCore later ∧
      uploadedCore.store.restoreShares uploadedCore.bufferNodes (fun _ => true) (fun _ => 0)
        (fun _ => 0) ⟨1, 1, 1⟩ [⟨paddingHash [7], 0, 1⟩] = .ok restored ∧
      later.store.restoreShares later.bufferNodes (fun _ => true) (fun _ => 0) (fun _ => 0)
        ⟨1, 1, 1⟩ [⟨paddingHash [7], 0, 1⟩] = .ok again ∧ again.stream = restored.stream := by
  have restorable : List.Forall₂ (Restorable uploadedCore.store uploadedCore.bufferNodes)
      [⟨paddingHash [7], 0, 1⟩] [[7]] :=
    .cons ⟨⟨.first, 0, 1, 1, [⟨1, 1⟩]⟩, [7], rfl, rfl, rfl⟩ .nil
  rcases restoreShares_of_restorable (fun _ => 0) restorable (fun _ => rfl) (fun _ => 0)
    ⟨1, 1, 1⟩ with ⟨restored, _, -, restores, -⟩
  have step : MinDedupCore.Step paddingHash uploadedCore (uploadedCore.perform paddingHash
      (oneShareCall 2 (oneShareRound [103] 0 0 1 8) 8 fun _ => true)) := ⟨_, by decide, rfl⟩
  rcases restores_last (.single ⟨_, by decide, rfl⟩) (.single step) (by decide +kernel) _ _ _
    _ _ restores with ⟨again, result⟩
  exact ⟨_, restored, again, step, restores, result⟩

end MetaDedup.Server
