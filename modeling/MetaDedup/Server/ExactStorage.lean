import MetaDedup.Server.DedupIntegrity

/-! # Exact storage

A share is stored once, and nothing but shares is stored: in every container each byte
belongs to exactly one entry of the share index. -/

namespace MetaDedup.Server

open Foundation

namespace ShareStore

variable {generateHash : List Byte → Fingerprint}
variable {store : ShareStore} {buffer : ShareContainerBuffer}
variable {buffers rest : List ShareContainerBuffer}

/-- Every byte of a container belongs to exactly one entry of the index. -/
def StoredOnce (store : ShareStore) (buffers : List ShareContainerBuffer) : Prop :=
  Tiled store.catalogue (store.containerLog buffers)

/-- The invariant, and every byte is stored once. -/
def Exact (generateHash : List Byte → Fingerprint) (store : ShareStore)
    (buffers : List ShareContainerBuffer) : Prop :=
  store.globalShareContainerName.drawn < 26 ^ fileNameValidLen →
    store.Invariant generateHash buffers ∧ store.StoredOnce buffers

private theorem containerLog_append (share : List Byte) :
    store.containerLog
        ({ buffer with shareContainerBuffer := buffer.shareContainerBuffer ++ share } :: rest) =
      Function.update (store.containerLog (buffer :: rest)) buffer.shareContainerName
        (store.containerLog (buffer :: rest) buffer.shareContainerName ++ share) := by
  funext name
  by_cases own : name = buffer.shareContainerName
  · subst own
    simp [containerLog, readShareContainer, readShareContainerFromBuffer]
  · simp [containerLog, readShareContainer, readShareContainerFromBuffer, own, Ne.symm own]

private theorem containerLog_front :
    store.containerLog (buffer :: rest) buffer.shareContainerName =
      buffer.shareContainerBuffer := by
  simp [containerLog, readShareContainer, readShareContainerFromBuffer]

private theorem exact_preserved : Preserved generateHash (Exact generateHash) where
  perm := by
    intro store buffers reordered permuted holds left
    rcases holds left with ⟨invariant, once⟩
    refine ⟨invariant.perm permuted, ?_⟩
    rw [StoredOnce, containerLog_congr invariant.distinct permuted fun _ _ => rfl]
    exact once
  refer := by
    intro store buffers shareFP value userID found holds left
    have place := value.place_addReference userID
    rcases holds left with ⟨invariant, once⟩
    refine ⟨invariant.refer found place, ?_⟩
    rw [StoredOnce, catalogue_put_of_place found place]
    exact once
  flush := by
    intro store buffer rest holds left
    rw [flushContainer_globalShareContainerName] at left
    rcases holds left with ⟨invariant, once⟩
    refine ⟨invariant.flush, ?_⟩
    rw [StoredOnce, flushContainer_catalogue, containerLog_flushContainer invariant.distinct
      (invariant.unfiled buffer List.mem_cons_self)]
    exact once
  create := by
    intro store rest userID holds left
    have before := Nat.lt_of_succ_lt left
    rcases holds before with ⟨invariant, once⟩
    have created := invariant.create before userID
    refine ⟨created, ?_⟩
    -- Flushing the new buffer would give the old state back.
    have same := containerLog_flushContainer created.distinct
      (created.unfiled _ List.mem_cons_self)
    rw [StoredOnce, ← same]
    exact once
  addNewShare := by
    intro store buffer rest share userID absent positive room holds left
    rcases holds left with ⟨invariant, once⟩
    refine ⟨invariant.addNewShare positive room userID, ?_⟩
    have unlisted : store.catalogue (generateHash share) = none := by
      rw [catalogue, absent, Option.map_none]
    have tiled := once.append invariant.sound unlisted buffer.shareContainerName share
    rw [containerLog_front] at tiled
    rw [StoredOnce, ShareStore.addNewShare, catalogue_put]
    dsimp only
    rw [show _ = _ from containerLog_append share, containerLog_front]
    exact tiled

end ShareStore

/-- In every run of `minDedupCore`, and in every run of `DedupCore` in which each
expiring node that holds shares can be flushed, every byte of a container belongs to
exactly one entry of the share index. -/
theorem bytes_stored_once (generateHash : List Byte → Fingerprint)
    (stray : List RecipeCell → FileRecipeHead) :
    (∀ core, Relation.ReflTransGen (MinDedupCore.Step generateHash) .empty core →
      core.store.globalShareContainerName.drawn < 26 ^ fileNameValidLen →
      core.store.StoredOnce core.bufferNodes) ∧
    ∀ core, Relation.ReflTransGen (DedupCore.FlushingStep generateHash stray) .empty core →
      core.shares.globalShareContainerName.drawn < 26 ^ fileNameValidLen →
      core.shares.StoredOnce core.containers := by
  have start : ShareStore.empty.Exact generateHash [] := by
    intro _
    refine ⟨ShareStore.invariant_empty, ?_⟩
    intro name position inside
    cases inside
  constructor
  · intro core reachable left
    have begun : MinDedupCore.empty.Holds (ShareStore.Exact generateHash) := start
    have holds := MinDedupCore.reachable_preserved ShareStore.exact_preserved begun reachable
    exact (holds left).2
  · intro core reachable left
    have begun : DedupCore.empty.Holds (ShareStore.Exact generateHash) := start
    have holds := DedupCore.flushing_preserved ShareStore.exact_preserved begun reachable
    exact (holds left).2

theorem bytes_stored_once_sample :
    sampleMinCore.store.StoredOnce sampleMinCore.bufferNodes ∧
      sampleCore.shares.StoredOnce sampleCore.containers :=
  ⟨(bytes_stored_once paddingHash blankHead).1 _ sampleMinCore_reachable (by decide +kernel),
    (bytes_stored_once paddingHash blankHead).2 _ sampleCore_reachable (by decide +kernel)⟩

end MetaDedup.Server
