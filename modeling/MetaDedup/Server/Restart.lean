import MetaDedup.Server.DedupIntegrity
import MetaDedup.Server.RecipeFrame

/-! # Restarting a server

The share index, the inode index and the files outlive a process; the global file
names do not. A new process starts again with the name 'aaaaaaaaaaaa', and whatever it
writes under a name handed out by an earlier process hides and replaces what that
process has stored. What lies under names the new process has not handed out is not
touched. -/

namespace MetaDedup.Server

open Foundation Function Relation

/-! ## Shares -/

namespace ShareStore

variable {generateHash : List Byte → Fingerprint}
variable {before store : ShareStore} {buffers : List ShareContainerBuffer}

/-- A new process over the database and the directories of an earlier one. -/
def reopen (store : ShareStore) : ShareStore :=
  { store with globalShareContainerName := .initial }

/-- What a process leaves alone: the places in the index it has found, and the
containers under names it has not handed out. -/
structure Framed (before store : ShareStore) (buffers : List ShareContainerBuffer) :
    Prop where
  listed : ∀ shareFP value, before.shareIndex shareFP = some value →
    ∃ current, store.shareIndex shareFP = some current ∧ current.place = value.place
  bufferIssued : ∀ buffer ∈ buffers,
    store.globalShareContainerName.Issued buffer.shareContainerName
  untouched : ∀ name, ¬store.globalShareContainerName.Issued name →
    store.shareContainers name = before.shareContainers name

theorem framed_reopen (store : ShareStore) : store.reopen.Framed store.reopen [] where
  listed := fun _ value found => ⟨value, found, rfl⟩
  bufferIssued := by simp
  untouched := fun _ _ => rfl

variable {buffer : ShareContainerBuffer} {rest : List ShareContainerBuffer}

theorem Framed.free
    (framed : before.Framed store (buffer :: rest)) : before.Framed store rest where
  listed := framed.listed
  bufferIssued := (List.forall_mem_cons.mp framed.bufferIssued).2
  untouched := framed.untouched

theorem Framed.flush (framed : before.Framed store (buffer :: rest)) :
    before.Framed (store.flushContainer buffer) rest := by
  have own := (List.forall_mem_cons.mp framed.bufferIssued).1
  constructor
  · simpa using framed.listed
  · simpa using framed.free.bufferIssued
  · intro name fresh
    rw [flushContainer_globalShareContainerName] at fresh
    have different : name ≠ buffer.shareContainerName := by
      intro equal
      exact fresh (equal ▸ own)
    rw [flushContainer_shareContainers_of_ne store buffer different]
    exact framed.untouched name fresh

theorem framed_preserved (before : ShareStore) : Preserved generateHash before.Framed where
  perm := by
    intro store buffers reordered permuted framed
    exact ⟨framed.listed, fun buffer member =>
      framed.bufferIssued buffer (permuted.mem_iff.mp member), framed.untouched⟩
  refer := by
    intro store buffers shareFP value userID found framed
    refine ⟨?_, framed.bufferIssued, framed.untouched⟩
    intro other old there
    rcases framed.listed other old there with ⟨current, located, place⟩
    by_cases equal : other = shareFP
    · subst equal
      rw [found, Option.some.injEq] at located
      exact ⟨_, update_self _ _ _, by
        rw [ShareIndexValue.place_addReference, located, place]⟩
    · exact ⟨current, by rw [← located]; exact update_of_ne equal _ _, place⟩
  flush := Framed.flush
  create := by
    intro store rest userID framed
    refine ⟨framed.listed, List.forall_mem_cons.mpr
      ⟨store.globalShareContainerName.issued_draw_self, ?_⟩, ?_⟩
    · intro buffer member
      exact (framed.bufferIssued buffer member).draw
    · intro name fresh
      exact framed.untouched name fun issued => fresh issued.draw
  addNewShare := by
    intro store buffer rest share userID absent _ _ framed
    refine ⟨?_, List.forall_mem_cons.mpr (List.forall_mem_cons.mp framed.bufferIssued),
      framed.untouched⟩
    intro other old there
    rcases framed.listed other old there with ⟨current, located, place⟩
    have different : other ≠ generateHash share := by
      intro equal
      rw [equal, absent] at located
      cases located
    exact ⟨current, by rw [← located]; exact update_of_ne different _ _, place⟩

theorem Framed.readShare (framed : before.Framed store buffers) {value current}
    (place : current.place = value.place)
    (fresh : ¬store.globalShareContainerName.Issued value.shareContainerName) :
    store.readShare buffers current = before.readShare [] value := by
  rcases ShareIndexValue.of_place_eq place with ⟨name, offset, size⟩
  have absent : ∀ buffer ∈ buffers, buffer.shareContainerName ≠ value.shareContainerName := by
    intro buffer member equal
    exact fresh (equal ▸ framed.bufferIssued buffer member)
  simp only [ShareStore.readShare, readShareContainer, name, offset, size,
    readShareContainerFromBuffer_of_absent absent, framed.untouched _ fresh]
  rfl

/-- Every entry of the old index resolves if none of its container names has been handed
out again. -/
theorem Framed.resolves (framed : before.Framed store buffers)
    (integrity : before.Integrity generateHash [])
    (fresh : ∀ shareFP value, before.shareIndex shareFP = some value →
      ¬store.globalShareContainerName.Issued value.shareContainerName) :
    ∀ shareFP, before.shareIndex shareFP ≠ none →
      ∃ value share, store.shareIndex shareFP = some value ∧
        store.readShare buffers value = some share ∧ generateHash share = shareFP := by
  intro shareFP there
  rcases Option.ne_none_iff_exists'.mp there with ⟨value, found⟩
  rcases integrity shareFP value found with ⟨share, located, _, hashed⟩
  rcases framed.listed shareFP value found with ⟨current, listed, place⟩
  refine ⟨current, share, listed, ?_, hashed⟩
  rw [framed.readShare place (fresh shareFP value found), located]

def flushContainers (store : ShareStore) (buffers : List ShareContainerBuffer) :
    ShareStore :=
  buffers.foldl flushContainer store

theorem Preserved.flushContainers {property : ShareStore → List ShareContainerBuffer → Prop}
    (preserved : Preserved generateHash property) (holds : property store buffers) :
    property (store.flushContainers buffers) [] := by
  induction buffers generalizing store with
  | nil => exact holds
  | cons buffer rest induction => exact induction (preserved.flush holds)

end ShareStore

namespace MinDedupCore

def cleanupAllBufferNodes (core : MinDedupCore) : MinDedupCore :=
  ⟨core.store.flushContainers core.bufferNodes, []⟩

def reopen (core : MinDedupCore) : MinDedupCore := ⟨core.store.reopen, []⟩

/-- No container name in the index of `before` has been handed out by `core`. -/
def RecordedUnissued (before core : MinDedupCore) : Prop :=
  ∀ shareFP value, before.store.shareIndex shareFP = some value →
    ¬core.store.globalShareContainerName.Issued value.shareContainerName

end MinDedupCore

namespace ShareStore

variable {generateHash : List Byte → Fingerprint} {store : ShareStore}

theorem Integrity.reopen (integrity : store.Integrity generateHash []) :
    store.reopen.Integrity generateHash [] := integrity

@[simp] theorem flushContainers_shareIndex (store : ShareStore)
    (buffers : List ShareContainerBuffer) :
    (store.flushContainers buffers).shareIndex = store.shareIndex := by
  induction buffers generalizing store with
  | nil => rfl
  | cons buffer rest induction =>
      exact (induction _).trans (flushContainer_shareIndex store buffer)

@[simp] theorem flushContainers_globalShareContainerName (store : ShareStore)
    (buffers : List ShareContainerBuffer) :
    (store.flushContainers buffers).globalShareContainerName =
      store.globalShareContainerName := by
  induction buffers generalizing store with
  | nil => rfl
  | cons buffer rest induction =>
      exact (induction _).trans (flushContainer_globalShareContainerName store buffer)

end ShareStore

/-! ## Recipes -/

namespace DedupCore

variable {generateHash : List Byte → Fingerprint}
variable {stray : List RecipeCell → FileRecipeHead}

/-- Flush and free all nodes, unless a flush fails. -/
def cleanupAllBufferNodes (stray : List RecipeCell → FileRecipeHead) (core : DedupCore) :
    Except (ShareStore × RecipeStore) DedupCore :=
  match core.bufferNodes.foldlM (flushBufferNodeIntoDisk stray)
      (core.shares, core.recipes) with
  | .ok stores => .ok ⟨stores.1, stores.2, []⟩
  | .error stores => .error stores

def reopen (core : DedupCore) : DedupCore :=
  ⟨core.shares.reopen, { core.recipes with globalRecipeFileName := .initial }, []⟩

/-- No container or recipe file name in the two indexes of `before` has been handed out
by `core`. -/
def RecordedUnissued (before core : DedupCore) : Prop :=
  (∀ shareFP value, before.shares.shareIndex shareFP = some value →
    ¬core.shares.globalShareContainerName.Issued value.shareContainerName) ∧
  ∀ inodeFP value place, before.recipes.inodeIndex inodeFP = some value →
    .file place ∈ value.entries →
    ¬core.recipes.globalRecipeFileName.Issued place.recipeFileName

def BegunStep (generateHash : List Byte → Fingerprint)
    (stray : List RecipeCell → FileRecipeHead) (core next : DedupCore) : Prop :=
  ∃ call : StageCall PerUserBufferNode, call.Sized ∧
    core.ContinuesBegun generateHash call ∧ next = core.perform generateHash stray call

private theorem cleanupAllBufferNodes_shares {core closed : DedupCore}
    (clean : core.cleanupAllBufferNodes stray = .ok closed) :
    closed.shares = core.shares.flushContainers core.containers ∧
      closed.bufferNodes = [] := by
  have flushed : ∀ (nodes : List PerUserBufferNode) (stores final : ShareStore × RecipeStore),
      nodes.foldlM (flushBufferNodeIntoDisk stray) stores = .ok final →
      final.1 = stores.1.flushContainers (nodes.map PerUserBufferNode.container) := by
    intro nodes
    induction nodes with
    | nil =>
        intro stores final done
        rw [← Except.ok.inj done]
        rfl
    | cons node rest induction =>
        intro stores final done
        rw [List.foldlM_cons] at done
        rcases Loop.bind_eq_ok_iff.mp done with ⟨middle, first, later⟩
        rw [induction middle final later]
        rw [flushBufferNodeIntoDisk] at first
        cases result : stores.2.flushRecipeBuffer stray node.recipe with
        | error recipes => simp [result] at first
        | ok recipes =>
            simp only [result, Except.ok.injEq] at first
            rw [← first]
            rfl
  rw [cleanupAllBufferNodes] at clean
  cases result : core.bufferNodes.foldlM (flushBufferNodeIntoDisk stray)
      (core.shares, core.recipes) with
  | error stores => simp [result] at clean
  | ok stores =>
      simp only [result, Except.ok.injEq] at clean
      rw [← clean]
      exact ⟨flushed _ _ _ result, rfl⟩

private theorem framed_of_reachable {closed later : DedupCore}
    (reachable : ReflTransGen (BegunStep generateHash stray) closed.reopen later) :
    later.Holds closed.shares.reopen.Framed ∧
      RecipeStore.Framed closed.recipes ∅ later.recipes later.recipeBuffers := by
  induction reachable with
  | refl =>
      refine ⟨ShareStore.framed_reopen _, ?_⟩
      exact
        { kept := .refl _
          bufferIssued := fun _ member => nomatch member
          begun := fun _ member => nomatch member
          continued := by simp
          untouched := fun _ _ => rfl }
  | tail _ step induction =>
      rcases step with ⟨call, sized, continues, rfl⟩
      refine ⟨?_, perform_framed induction.2 continues⟩
      refine perform_preserved (ShareStore.framed_preserved _) ?_ induction.1 sized
        (expiryMeets_of_forall (fun _ _ => trivial) _ call)
      intro stores node rest _ framed
      rw [flushBufferNodeIntoDisk]
      cases stores.2.flushRecipeBuffer stray node.recipe with
      | error recipes => exact framed.free
      | ok recipes => exact framed.flush

end DedupCore

/-! ## Sample restarts

Two processes that store one share each. -/

def emptyCall {Node : Type} (userID : Int) : StageCall Node :=
  .secondStage userID [] (fun _ => false) (fun _ => 0) fun _ => false

namespace MinDedupCore

/-- User 2 stores a share under the second container name, after an empty call of
user 1. -/
def secondNameUsed : MinDedupCore :=
  (empty.perform paddingHash (emptyCall 1)).perform paddingHash
    (oneShareCall 2 (oneShareRound [102] 0 0 1 7) 7 fun _ => false)

/-- After a restart, user 3 stores a share under the first name. -/
def firstNameUsed : MinDedupCore :=
  secondNameUsed.cleanupAllBufferNodes.reopen.perform paddingHash
    (oneShareCall 3 (oneShareRound [103] 0 0 1 8) 8 fun _ => false)

end MinDedupCore

namespace DedupCore

def secondNameUsed : DedupCore :=
  (empty.perform paddingHash blankHead (emptyCall 1)).perform paddingHash blankHead
    (oneShareCall 2 (oneShareRound [102] 0 0 1 7) 7 fun _ => false)

def secondNameClosed : DedupCore :=
  match secondNameUsed.cleanupAllBufferNodes blankHead with
  | .ok closed => closed
  | .error stores => ⟨stores.1, stores.2, []⟩

def firstNameUsed : DedupCore :=
  secondNameClosed.reopen.perform paddingHash blankHead
    (oneShareCall 3 (oneShareRound [103] 0 0 1 8) 8 fun _ => false)

end DedupCore

theorem GlobalFileName.second_unissued {global : GlobalFileName} (one : global.drawn = 1) :
    ¬global.Issued (InternalFileName.drawnName 1) := by
  intro issued
  rcases issued with ⟨count, below, equal⟩
  have zero : count = 0 := by omega
  rw [zero] at equal
  exact absurd equal (by decide)

theorem MinDedupCore.secondNameUsed_unissued :
    secondNameUsed.RecordedUnissued firstNameUsed := by
  have index : secondNameUsed.store.shareIndex =
      update (fun _ => none) (paddingHash [7])
        (some ⟨InternalFileName.drawnName 1, 0, 1, 1, [⟨2, 1⟩]⟩) := rfl
  intro shareFP value found
  rw [index, update_apply, Option.ite_none_right_eq_some, Option.some.injEq]
    at found
  rw [← found.2]
  exact GlobalFileName.second_unissued (by decide +kernel)

theorem DedupCore.secondNameClosed_unissued :
    secondNameClosed.RecordedUnissued firstNameUsed := by
  have index : secondNameClosed.shares.shareIndex =
      update (fun _ => none) (paddingHash [7])
        (some ⟨InternalFileName.drawnName 1, 0, 1, 1, [⟨2, 1⟩]⟩) := rfl
  have inodes : secondNameClosed.recipes.inodeIndex =
      update
        (update (fun _ => none) (fileName2InodeFP paddingHash [slash, 102] 2)
          (some ⟨2, .file, 1, [102], [.file ⟨InternalFileName.drawnName 1, 0⟩]⟩))
        (fileName2InodeFP paddingHash [slash] 2)
        (some ⟨2, .dir, 1, [slash],
          [.dir (fileName2InodeFP paddingHash [slash, 102] 2)]⟩) := rfl
  constructor
  · intro shareFP value found
    rw [index, update_apply, Option.ite_none_right_eq_some, Option.some.injEq]
      at found
    rw [← found.2]
    exact GlobalFileName.second_unissued (by decide +kernel)
  · intro inodeFP value place found member
    rw [inodes, update_apply, update_apply] at found
    split at found
    · rw [← Option.some.inj found] at member
      simp at member
    · split at found
      · rw [← Option.some.inj found] at member
        simp only [List.mem_singleton, InodeEntry.file.injEq] at member
        rw [member]
        exact GlobalFileName.second_unissued (by decide +kernel)
      · cases found

/-- Shares and recipes survive a restart as long as the new process has handed out none
of the names recorded before, and continues no file begun before. -/
theorem stored_data_survives_restart (generateHash : List Byte → Fingerprint)
    (stray : List RecipeCell → FileRecipeHead) :
    (∀ core later : MinDedupCore,
      ReflTransGen (MinDedupCore.Step generateHash) .empty core →
      core.store.globalShareContainerName.drawn < 26 ^ fileNameValidLen →
      ReflTransGen (MinDedupCore.Step generateHash)
        core.cleanupAllBufferNodes.reopen later →
      core.RecordedUnissued later →
      ∀ shareFP, core.store.shareIndex shareFP ≠ none →
        ∃ value share, later.store.shareIndex shareFP = some value ∧
          later.store.readShare later.bufferNodes value = some share ∧
          generateHash share = shareFP) ∧
    ∀ core closed later : DedupCore,
      ReflTransGen (DedupCore.FlushingStep generateHash stray) .empty core →
      core.shares.globalShareContainerName.drawn < 26 ^ fileNameValidLen →
      core.cleanupAllBufferNodes stray = .ok closed →
      ReflTransGen (DedupCore.BegunStep generateHash stray) closed.reopen later →
      closed.RecordedUnissued later →
      (∀ shareFP, core.shares.shareIndex shareFP ≠ none →
        ∃ value share, later.shares.shareIndex shareFP = some value ∧
          later.shares.readShare later.containers value = some share ∧
          generateHash share = shareFP) ∧
      ∀ userID fullFileName age recipe,
        closed.restoreRecipe generateHash stray userID fullFileName age = some recipe →
        ∃ newer, later.versions generateHash userID fullFileName =
            newer + closed.versions generateHash userID fullFileName ∧
          later.restoreRecipe generateHash stray userID fullFileName (newer + age) =
            some recipe := by
  constructor
  · intro core later reachable left reachableLater unissued
    have intact := MinDedupCore.reachable_preserved ShareStore.intact_preserved
      (fun _ => ShareStore.invariant_empty) reachable
    have integrity : core.cleanupAllBufferNodes.store.Integrity generateHash [] :=
      (ShareStore.intact_preserved.flushContainers intact (by simpa using left)).integrity
    have started : core.cleanupAllBufferNodes.reopen.Holds
        core.cleanupAllBufferNodes.store.reopen.Framed :=
      ShareStore.framed_reopen _
    have framed := MinDedupCore.reachable_preserved (ShareStore.framed_preserved _) started
      reachableLater
    have same : core.cleanupAllBufferNodes.store.reopen.shareIndex = core.store.shareIndex :=
      ShareStore.flushContainers_shareIndex _ _
    have resolves := framed.resolves integrity.reopen (by rw [same]; exact unissued)
    rw [same] at resolves
    exact resolves
  · intro core closed later reachable left clean reachableLater unissued
    rcases DedupCore.cleanupAllBufferNodes_shares clean with ⟨shares, quiet⟩
    have framed := DedupCore.framed_of_reachable reachableLater
    constructor
    · have intact := DedupCore.intact_of_reachable reachable
      have integrity : closed.shares.Integrity generateHash [] := by
        rw [shares]
        exact (ShareStore.intact_preserved.flushContainers intact
          (by simpa using left)).integrity
      have resolves := framed.1.resolves integrity.reopen unissued.1
      have same : closed.shares.reopen.shareIndex = core.shares.shareIndex := by
        rw [shares]
        exact ShareStore.flushContainers_shareIndex _ _
      rw [same] at resolves
      exact resolves
    · intro userID fullFileName age recipe restored
      exact DedupCore.restoreRecipe_framed quiet framed.2 unissued.2 restored

theorem stored_data_survives_restart_sample :
    (∃ value share,
      MinDedupCore.firstNameUsed.store.shareIndex (paddingHash [7]) = some value ∧
      MinDedupCore.firstNameUsed.store.readShare MinDedupCore.firstNameUsed.bufferNodes
        value = some share ∧
      paddingHash share = paddingHash [7]) ∧
    ∃ newer recipe,
      DedupCore.firstNameUsed.versions paddingHash 2 [102] =
        newer + DedupCore.secondNameClosed.versions paddingHash 2 [102] ∧
      DedupCore.firstNameUsed.restoreRecipe paddingHash blankHead 2 [102] (newer + 0) =
        some recipe := by
  constructor
  · exact (stored_data_survives_restart paddingHash blankHead).1
      MinDedupCore.secondNameUsed MinDedupCore.firstNameUsed
      (.tail (.single ⟨_, by decide, rfl⟩) ⟨_, by decide, rfl⟩) (by decide +kernel)
      (.single ⟨_, by decide, rfl⟩) MinDedupCore.secondNameUsed_unissued
      (paddingHash [7]) (by decide +kernel)
  · have restored : DedupCore.secondNameClosed.restoreRecipe paddingHash blankHead 2 [102] 0 =
        some (⟨2, 1, 1⟩, [⟨paddingHash [7], 0, 1⟩]) := by
      decide +kernel
    have survives := (stored_data_survives_restart paddingHash blankHead).2
      DedupCore.secondNameUsed DedupCore.secondNameClosed DedupCore.firstNameUsed
      (.tail (.single ⟨_, by decide, by decide +kernel, rfl⟩)
        ⟨_, by decide, by decide +kernel, rfl⟩)
      (by decide +kernel) rfl
      (.single ⟨_, by decide, by
        intro inodeFP continued
        rcases continued with ⟨file, member, continuing, _⟩
        rw [List.mem_singleton.mp member] at continuing
        exact absurd rfl continuing, rfl⟩)
      DedupCore.secondNameClosed_unissued
    rcases survives.2 2 [102] 0 _ restored with ⟨newer, versions, found⟩
    exact ⟨newer, _, versions, found⟩

namespace MinDedupCore

/-- User 1 stores a share, the server restarts, and user 2 stores another one. -/
def shadowed : MinDedupCore :=
  (empty.perform paddingHash (oneShareCall 1 (oneShareRound [102] 0 0 1 7) 7
    fun _ => false)).cleanupAllBufferNodes.reopen.perform paddingHash
      (oneShareCall 2 (oneShareRound [103] 0 0 1 8) 8 fun _ => false)

end MinDedupCore

/-- The buffer of user 2 has the name of the container of user 1, and hides it. -/
theorem share_shadowed_after_restart :
    ∃ core later : MinDedupCore,
      ReflTransGen (MinDedupCore.Step paddingHash) .empty core ∧
      core.store.globalShareContainerName.drawn < 26 ^ fileNameValidLen ∧
      ReflTransGen (MinDedupCore.Step paddingHash)
        core.cleanupAllBufferNodes.reopen later ∧
      ¬∀ shareFP, core.store.shareIndex shareFP ≠ none →
        ∃ value share, later.store.shareIndex shareFP = some value ∧
          later.store.readShare later.bufferNodes value = some share ∧
          paddingHash share = shareFP := by
  refine ⟨_, MinDedupCore.shadowed, .single ⟨_, by decide, rfl⟩, by decide +kernel,
    .single ⟨_, by decide, rfl⟩, ?_⟩
  intro survives
  rcases survives (paddingHash [7]) (by decide +kernel) with
    ⟨value, share, listed, read, hashed⟩
  have entry : MinDedupCore.shadowed.store.shareIndex (paddingHash [7]) =
      some ⟨.first, 0, 1, 1, [⟨1, 1⟩]⟩ := by
    decide +kernel
  have hidden : MinDedupCore.shadowed.store.readShare MinDedupCore.shadowed.bufferNodes
      ⟨.first, 0, 1, 1, [⟨1, 1⟩]⟩ = some [8] := by
    decide +kernel
  rw [entry, Option.some.injEq] at listed
  rw [← listed, hidden, Option.some.injEq] at read
  rw [← read] at hashed
  exact absurd hashed (by decide)

end MetaDedup.Server
