import MetaDedup.Server.BackendStorer

/-! # The accounting of the cache

`usedCacheSize_` is to be the size of the stored files that are kept in the cache
directory, and `maxCacheSize_ - availCacheSize_` the size of the new files that have not
been stored. `storeNewFile` takes the size of a file it has stored off `usedCacheSize_`
instead of adding it, so the accounting holds only as long as the stored files are
empty. -/

namespace MetaDedup.Server

open Foundation Function Relation

universe u

namespace StorerRun

variable {κ : Type u} [DecidableEq κ] (size : κ → Nat)

/-- The files in the link of newly used files or in `cache_`. -/
def tracked (state : StorerRun κ) : Finset κ :=
  state.storer.cache.keys ∪
    (state.storer.newlyUsedFiles.map FileNode.shortFileName).toFinset

/-- The file is stored in the backend and present in the cache directory. -/
def Held (state : StorerRun κ) (name : κ) : Prop :=
  state.backend name = true ∧ state.cacheDir name = true

instance (state : StorerRun κ) (name : κ) : Decidable (state.Held name) := by
  unfold Held
  infer_instance

def newFilesSize (state : StorerRun κ) : Int :=
  ∑ name ∈ state.added with state.backend name = false, (size name : Int)

structure Accounted (state : StorerRun κ) : Prop where
  used : state.storer.usedCacheSize =
    ∑ name ∈ state.tracked with state.Held name, (size name : Int)
  avail : state.storer.availCacheSize = state.storer.maxCacheSize - state.newFilesSize size

/-- The steps that keep the accounting: a stored file is empty, a file found in the cache
directory is tracked or empty, a file that was copied back is not tracked and its size is
measured correctly, and the new files fit into the cache when it is updated. -/
def Guarded (state : StorerRun κ) : StorerStep κ → Prop
  | .linkStored => ∀ node, state.storing = some node → size node.shortFileName = 0
  | .linkExisting name => name ∈ state.tracked ∨ state.Held name ∧ size name = 0
  | .linkRestored name measured =>
      name ∉ state.tracked ∧ state.Held name ∧ measured = size name
  | .updateCache => state.newFilesSize size ≤ state.storer.maxCacheSize
  | _ => True

def Step (state next : StorerRun κ) : Prop :=
  ∃ step, state.Enabled step ∧ state.perform size step = some next

def GuardedStep (state next : StorerRun κ) : Prop :=
  ∃ step, state.Enabled step ∧ state.Guarded size step ∧
    state.perform size step = some next

/-! ## The used size -/

/-- Every tracked file is held and has its own size, and the sizes make up
`usedCacheSize_`. -/
structure UsedConsistent (state : StorerRun κ) : Prop where
  newlyUsed : ∀ node ∈ state.storer.newlyUsedFiles, node.fileSize = size node.shortFileName
  cache : state.storer.cache.Sized fun name => size name
  held : ∀ name ∈ state.tracked, state.Held name
  used : state.storer.usedCacheSize = ∑ name ∈ state.tracked, (size name : Int)

section Used

variable {size} {state next : StorerRun κ}

theorem UsedConsistent.accounted (consistent : state.UsedConsistent size) :
    state.storer.usedCacheSize =
      ∑ name ∈ state.tracked with state.Held name, (size name : Int) := by
  rw [Finset.filter_true_of_mem consistent.held]
  exact consistent.used

private theorem tracked_congr (newlyUsed : next.storer.newlyUsedFiles = state.storer.newlyUsedFiles)
    (cache : next.storer.cache = state.storer.cache) : next.tracked = state.tracked := by
  rw [tracked, tracked, newlyUsed, cache]

theorem UsedConsistent.mono (consistent : state.UsedConsistent size)
    (newlyUsed : next.storer.newlyUsedFiles = state.storer.newlyUsedFiles)
    (cache : next.storer.cache = state.storer.cache)
    (used : next.storer.usedCacheSize = state.storer.usedCacheSize)
    (held : ∀ name, state.Held name → next.Held name) : next.UsedConsistent size := by
  have same := tracked_congr newlyUsed cache
  refine ⟨?_, ?_, fun name member => ?_, ?_⟩
  · rw [newlyUsed]
    exact consistent.newlyUsed
  · rw [cache]
    exact consistent.cache
  · rw [same] at member
    exact held name (consistent.held name member)
  · rw [used, same]
    exact consistent.used

variable {node : FileNode κ}

theorem tracked_link
    (newlyUsed : next.storer.newlyUsedFiles = state.storer.newlyUsedFiles ++ [node])
    (cache : next.storer.cache = state.storer.cache) :
    next.tracked = insert node.shortFileName state.tracked := by
  rw [tracked, tracked, newlyUsed, cache, List.map_append, List.toFinset_append]
  ext name
  simp only [Finset.mem_union, Finset.mem_insert, List.map_cons, List.map_nil,
    List.toFinset_cons, List.toFinset_nil, Finset.notMem_empty, or_false]
  tauto

theorem UsedConsistent.link (consistent : state.UsedConsistent size)
    (newlyUsed : next.storer.newlyUsedFiles = state.storer.newlyUsedFiles ++ [node])
    (cache : next.storer.cache = state.storer.cache)
    (sized : node.fileSize = size node.shortFileName)
    (used : next.storer.usedCacheSize = state.storer.usedCacheSize +
      if node.shortFileName ∈ state.tracked then 0 else (size node.shortFileName : Int))
    (held : ∀ name, state.Held name → next.Held name)
    (linked : next.Held node.shortFileName) : next.UsedConsistent size := by
  have inserted := tracked_link newlyUsed cache
  refine ⟨fun other member => ?_, ?_, fun name member => ?_, ?_⟩
  · rw [newlyUsed] at member
    rcases List.mem_append.mp member with former | last
    · exact consistent.newlyUsed other former
    · rw [List.mem_singleton.mp last]
      exact sized
  · rw [cache]
    exact consistent.cache
  · rw [inserted] at member
    rcases Finset.mem_insert.mp member with rfl | former
    · exact linked
    · exact held name (consistent.held name former)
  · rw [used, inserted, consistent.used]
    by_cases known : node.shortFileName ∈ state.tracked
    · rw [if_pos known, Finset.insert_eq_of_mem known, add_zero]
    · rw [if_neg known, Finset.sum_insert known, add_comm]

theorem UsedConsistent.sum_held_link (consistent : state.UsedConsistent size)
    (newlyUsed : next.storer.newlyUsedFiles = state.storer.newlyUsedFiles ++ [node])
    (cache : next.storer.cache = state.storer.cache)
    (held : ∀ name, state.Held name → next.Held name)
    (linked : next.Held node.shortFileName) (unknown : node.shortFileName ∉ state.tracked) :
    ∑ name ∈ next.tracked with next.Held name, (size name : Int) =
      size node.shortFileName + state.storer.usedCacheSize := by
  have inserted := tracked_link newlyUsed cache
  have all : ∀ name ∈ next.tracked, next.Held name := by
    intro name member
    rw [inserted] at member
    rcases Finset.mem_insert.mp member with rfl | former
    · exact linked
    · exact held name (consistent.held name former)
  rw [Finset.filter_true_of_mem all, inserted, Finset.sum_insert unknown, consistent.used]

theorem touchNewlyUsed_keys (storer : BackendStorer κ) :
    storer.touchNewlyUsed.keys =
      storer.cache.keys ∪ (storer.newlyUsedFiles.map FileNode.shortFileName).toFinset := by
  rw [BackendStorer.touchNewlyUsed]
  generalize storer.cache = cache
  induction storer.newlyUsedFiles generalizing cache with
  | nil => simp
  | cons node rest induction =>
      rw [List.foldl_cons, induction, RecencyList.keys_touch, List.map_cons,
        List.toFinset_cons, Finset.insert_union, Finset.union_insert]

theorem touchNewlyUsed_sized {storer : BackendStorer κ}
    (sized : ∀ node ∈ storer.newlyUsedFiles, node.fileSize = size node.shortFileName)
    (cache : storer.cache.Sized fun name => size name) :
    storer.touchNewlyUsed.Sized fun name => size name := by
  rw [BackendStorer.touchNewlyUsed]
  generalize storer.cache = list at cache
  generalize storer.newlyUsedFiles = nodes at sized
  induction nodes generalizing list with
  | nil => exact cache
  | cons node rest induction =>
      rw [List.foldl_cons, sized node List.mem_cons_self]
      exact induction _ (cache.touch _)
        fun other member => sized other (List.mem_cons_of_mem _ member)

theorem UsedConsistent.total (consistent : state.UsedConsistent size) :
    state.storer.touchNewlyUsed.total = state.storer.usedCacheSize := by
  rw [RecencyList.total_eq_sum
    (touchNewlyUsed_sized consistent.newlyUsed consistent.cache), touchNewlyUsed_keys,
    consistent.used, tracked]

/-- `updateCache` returns when something can be left in the cache, and leaves a consistent
state. -/
theorem UsedConsistent.updateCache (consistent : state.UsedConsistent size)
    (room : 0 ≤ state.storer.availCacheSize) :
    ∃ next, state.perform size .updateCache = some next ∧ next.UsedConsistent size := by
  have enough : state.storer.usedCacheSize - state.storer.touchNewlyUsed.total ≤
      state.storer.availCacheSize := by
    rw [consistent.total]
    omega
  rcases RecencyList.evict_returns enough with ⟨left, evicted, kept, returned, result⟩
  refine ⟨_, by rw [perform, BackendStorer.updateCache, returned]; rfl, ?_⟩
  have sized := touchNewlyUsed_sized consistent.newlyUsed consistent.cache
  have keptSized : kept.Sized fun name => size name :=
    fun entry member => sized entry (result.entries member)
  refine ⟨fun node member => (nomatch member), keptSized, ?_, ?_⟩
  · intro name member
    have keptName : name ∈ kept.keys := by simpa [tracked] using member
    have former : name ∈ state.tracked := by
      rw [tracked, ← touchNewlyUsed_keys]
      exact result.keys_subset keptName
    have held := consistent.held name former
    refine ⟨held.1, ?_⟩
    simpa using ⟨held.2, result.notMem keptName⟩
  · have difference := result.used
    rw [consistent.total] at difference
    have total := RecencyList.total_eq_sum keptSized
    simp only [tracked, List.map_nil, List.toFinset_nil, Finset.union_empty]
    rw [← total]
    omega

end Used

/-! ## The available size -/

/-- The new files that are on their way to the backend. -/
def pending (state : StorerRun κ) : List (FileNode κ) :=
  state.adding ++ state.storer.newlyStoredFiles ++ state.storing.toList

/-- The files on their way are the new files that are not stored, and their sizes are
taken off `availCacheSize_`. -/
structure AvailConsistent (state : StorerRun κ) : Prop where
  nodup : (state.pending.map FileNode.shortFileName).Nodup
  sized : ∀ node ∈ state.pending, node.fileSize = size node.shortFileName
  mem_iff : ∀ name, name ∈ state.pending.map FileNode.shortFileName ↔
    name ∈ state.added ∧ state.backend name = false
  avail : state.storer.availCacheSize =
    state.storer.maxCacheSize - (state.pending.map FileNode.fileSize).sum

section Avail

variable {size} {state next : StorerRun κ}

theorem AvailConsistent.sum_pending (consistent : state.AvailConsistent size) :
    (state.pending.map FileNode.fileSize).sum = state.newFilesSize size := by
  have names : (state.added.filter fun name => state.backend name = false) =
      (state.pending.map FileNode.shortFileName).toFinset := by
    ext name
    rw [Finset.mem_filter, List.mem_toFinset, consistent.mem_iff]
  rw [newFilesSize, names, List.sum_toFinset _ consistent.nodup, List.map_map]
  exact congrArg List.sum (List.map_congr_left consistent.sized)

theorem AvailConsistent.accounted (consistent : state.AvailConsistent size) :
    state.storer.availCacheSize = state.storer.maxCacheSize - state.newFilesSize size := by
  rw [← consistent.sum_pending]
  exact consistent.avail

omit [DecidableEq κ] in
theorem AvailConsistent.perm (consistent : state.AvailConsistent size)
    (moved : state.pending.Perm next.pending) (added : next.added = state.added)
    (backend : next.backend = state.backend)
    (avail : next.storer.availCacheSize = state.storer.availCacheSize)
    (max : next.storer.maxCacheSize = state.storer.maxCacheSize) :
    next.AvailConsistent size := by
  refine ⟨?_, fun node member => ?_, fun name => ?_, ?_⟩
  · exact (moved.map _).nodup_iff.mp consistent.nodup
  · exact consistent.sized node (moved.mem_iff.mpr member)
  · rw [← (moved.map _).mem_iff, added, backend]
    exact consistent.mem_iff name
  · rw [avail, max, ← (moved.map _).sum_eq]
    exact consistent.avail

theorem AvailConsistent.reserve (consistent : state.AvailConsistent size) {name : κ}
    (isNew : state.backend name = false) (distinct : name ∉ state.added)
    (pending : next.pending = ⟨name, size name⟩ :: state.pending)
    (added : next.added = insert name state.added) (backend : next.backend = state.backend)
    (avail : next.storer.availCacheSize = state.storer.availCacheSize - size name)
    (max : next.storer.maxCacheSize = state.storer.maxCacheSize) :
    next.AvailConsistent size := by
  have absent : name ∉ state.pending.map FileNode.shortFileName :=
    fun member => distinct ((consistent.mem_iff name).mp member).1
  refine ⟨?_, fun node member => ?_, fun other => ?_, ?_⟩
  · rw [pending, List.map_cons]
    exact List.nodup_cons.mpr ⟨absent, consistent.nodup⟩
  · rw [pending] at member
    rcases List.mem_cons.mp member with rfl | former
    · rfl
    · exact consistent.sized node former
  · rw [pending, List.map_cons, List.mem_cons, consistent.mem_iff, added, backend,
      Finset.mem_insert]
    constructor
    · rintro (rfl | former)
      · exact ⟨.inl rfl, isNew⟩
      · exact ⟨.inr former.1, former.2⟩
    · rintro ⟨rfl | former, unstored⟩
      · exact .inl rfl
      · exact .inr ⟨former, unstored⟩
  · rw [avail, max, pending, List.map_cons, List.sum_cons, consistent.avail]
    dsimp only
    omega

variable {node : FileNode κ}

theorem AvailConsistent.stored (consistent : state.AvailConsistent size)
    (pending : state.pending = next.pending ++ [node]) (added : next.added = state.added)
    (backend : next.backend = update state.backend node.shortFileName true)
    (avail : next.storer.availCacheSize = state.storer.availCacheSize + node.fileSize)
    (max : next.storer.maxCacheSize = state.storer.maxCacheSize) :
    next.AvailConsistent size := by
  rcases consistent with ⟨nodup, sized, mem_iff, total⟩
  rw [pending, List.map_append] at nodup total
  rw [pending] at sized
  have parts := List.nodup_append.mp nodup
  have absent : node.shortFileName ∉ next.pending.map FileNode.shortFileName :=
    fun member => parts.2.2 _ member _ (List.mem_singleton.mpr rfl) rfl
  refine ⟨parts.1, fun other member => sized other (List.mem_append_left _ member),
    fun name => ?_, ?_⟩
  · rw [added, backend]
    by_cases own : name = node.shortFileName
    · subst own
      simp [absent]
    · rw [update_of_ne own, ← mem_iff, pending, List.map_append, List.mem_append]
      simp [own]
  · rw [avail, max, total, List.sum_append, List.map_singleton, List.sum_singleton]
    omega

private theorem pending_link (calling : node ∈ state.adding) :
    state.pending.Perm (state.adding.erase node ++
      (state.storer.newlyStoredFiles ++ [node]) ++ state.storing.toList) := by
  have taken : (state.adding ++ state.storer.newlyStoredFiles).Perm
      (node :: (state.adding.erase node ++ state.storer.newlyStoredFiles)) :=
    (List.perm_cons_erase calling).append_right _
  have linked : (node :: (state.adding.erase node ++ state.storer.newlyStoredFiles)).Perm
      (state.adding.erase node ++ (state.storer.newlyStoredFiles ++ [node])) := by
    rw [← List.append_assoc]
    exact (List.perm_append_singleton node _).symm
  exact (taken.trans linked).append_right _

omit [DecidableEq κ] in
private theorem pending_take {rest : List (FileNode κ)}
    (idle : state.storing = none) (listed : state.storer.newlyStoredFiles = node :: rest) :
    state.pending.Perm (state.adding ++ rest ++ [node]) := by
  rw [pending, idle, listed, Option.toList_none, List.append_nil, List.append_assoc]
  exact (List.perm_append_singleton node rest).symm.append_left _

theorem AvailConsistent.updateCache (consistent : state.AvailConsistent size)
    (performed : state.perform size .updateCache = some next) :
    next.AvailConsistent size := by
  rw [perform] at performed
  rcases Option.map_eq_some_iff.mp performed with ⟨updated, returned, rfl⟩
  rw [BackendStorer.updateCache] at returned
  rcases Option.map_eq_some_iff.mp returned with ⟨evicted, _, rfl⟩
  exact consistent.perm (.refl _) rfl rfl rfl rfl

end Avail

/-! ## Steps and runs -/

structure Consistent (state : StorerRun κ) : Prop where
  used : state.UsedConsistent size
  avail : state.AvailConsistent size

section Run

variable {size} {state next start : StorerRun κ}

theorem Consistent.accounted (consistent : state.Consistent size) : state.Accounted size :=
  ⟨consistent.used.accounted, consistent.avail.accounted⟩

private theorem new_consistent (maxCacheSize : Int) (cacheDir backend : κ → Bool) :
    (new maxCacheSize cacheDir backend).Consistent size where
  used :=
    { newlyUsed := fun _ member => nomatch member
      cache := fun _ member => nomatch member
      held := fun name member => absurd member (Finset.notMem_empty name)
      used := rfl }
  avail :=
    { nodup := List.nodup_nil
      sized := fun _ member => nomatch member
      mem_iff := fun name => by simp [new, pending, BackendStorer.new]
      avail := by simp [new, pending, BackendStorer.new] }

theorem held_update_backend {name : κ} (state : StorerRun κ) (other : κ)
    (held : state.Held other) :
    update state.backend name true other = true ∧ state.cacheDir other = true := by
  refine ⟨?_, held.2⟩
  by_cases own : other = name
  · rw [own, update_self]
  · rw [update_of_ne own]
    exact held.1

private theorem held_update_cacheDir {name : κ} (state : StorerRun κ) (other : κ)
    (held : state.Held other) :
    state.backend other = true ∧ update state.cacheDir name true other = true := by
  refine ⟨held.1, ?_⟩
  by_cases own : other = name
  · rw [own, update_self]
  · rw [update_of_ne own]
    exact held.2

private theorem perform_takeNewlyStored {node : FileNode κ} {rest : List (FileNode κ)}
    (listed : state.storer.newlyStoredFiles = node :: rest) :
    state.perform size .takeNewlyStored =
      some
        { state with
          storer := { state.storer with newlyStoredFiles := rest }
          storing := some node } := by
  rw [perform, listed]

theorem perform_linkStored {node : FileNode κ} (busy : state.storing = some node) :
    state.perform size .linkStored =
      some
        { state with
          storer := state.storer.linkStored node
          storing := none
          backend := update state.backend node.shortFileName true } := by
  rw [perform, busy]

/-- A guarded step can be taken, and leaves a consistent state. -/
theorem Consistent.step (consistent : state.Consistent size) {step : StorerStep κ}
    (enabled : state.Enabled step) (guarded : state.Guarded size step) :
    ∃ next, state.perform size step = some next ∧ next.Consistent size := by
  rcases consistent with ⟨used, avail⟩
  cases step with
  | writeFile name =>
      exact ⟨_, rfl, used.mono rfl rfl rfl (held_update_cacheDir state),
        avail.perm (.refl _) rfl rfl rfl rfl⟩
  | reserve name =>
      rcases enabled with ⟨_, isNew, distinct⟩
      exact ⟨_, rfl, used.mono rfl rfl rfl fun _ => id,
        avail.reserve isNew distinct rfl rfl rfl rfl rfl⟩
  | linkNewlyStored node =>
      exact ⟨_, rfl, used.mono rfl rfl rfl fun _ => id,
        avail.perm (pending_link enabled) rfl rfl rfl rfl⟩
  | takeNewlyStored =>
      rcases enabled with ⟨idle, nonempty⟩
      cases listed : state.storer.newlyStoredFiles with
      | nil => exact absurd listed nonempty
      | cons node rest =>
          exact ⟨_, perform_takeNewlyStored listed, used.mono rfl rfl rfl fun _ => id,
            avail.perm (pending_take idle listed) rfl rfl rfl rfl⟩
  | linkStored =>
      rcases enabled with ⟨node, busy, present⟩
      have empty := guarded node busy
      have onWay : state.pending = state.adding ++ state.storer.newlyStoredFiles ++ [node] := by
        rw [pending, busy]
        rfl
      have sized := avail.sized node (by rw [onWay]; simp)
      refine ⟨_, perform_linkStored busy, used.link rfl rfl sized ?_ (held_update_backend state)
        ⟨update_self _ _ _, present⟩, avail.stored ?_ rfl rfl rfl rfl⟩
      · rw [BackendStorer.linkStored, sized, empty]
        simp
      · rw [onWay, pending]
        simp [BackendStorer.linkStored]
  | checkFileExistence name =>
      exact ⟨_, rfl, used.mono rfl rfl rfl fun _ => id, avail.perm (.refl _) rfl rfl rfl rfl⟩
  | linkExisting name =>
      have held : state.Held name := guarded.elim (used.held name) And.left
      refine ⟨_, rfl, used.link rfl rfl rfl ?_ (fun _ => id) held,
        avail.perm (.refl _) rfl rfl rfl rfl⟩
      rcases guarded with known | ⟨_, empty⟩
      · rw [if_pos known, add_zero]
        rfl
      · dsimp only
        rw [empty]
        simp [BackendStorer.linkExisting]
  | backendRestoreOldFile name =>
      exact ⟨_, rfl, used.mono rfl rfl rfl (held_update_cacheDir state),
        avail.perm (.refl _) rfl rfl rfl rfl⟩
  | linkRestored name measured =>
      rcases guarded with ⟨unknown, held, rfl⟩
      refine ⟨_, rfl, used.link rfl rfl rfl ?_ (fun _ => id) held,
        avail.perm (.refl _) rfl rfl rfl rfl⟩
      rw [if_neg unknown]
      rfl
  | updateCache =>
      have room : 0 ≤ state.storer.availCacheSize := by
        rw [avail.accounted]
        exact Int.sub_nonneg_of_le guarded
      rcases used.updateCache room with ⟨next, performed, consistent⟩
      exact ⟨next, performed, consistent, avail.updateCache performed⟩

private theorem consistent_of_run {maxCacheSize : Int} {cacheDir backend : κ → Bool}
    (run : ReflTransGen (GuardedStep size) (new maxCacheSize cacheDir backend)
      state) : state.Consistent size := by
  induction run with
  | refl => exact new_consistent maxCacheSize cacheDir backend
  | tail _ taken consistent =>
      rcases taken with ⟨step, enabled, guarded, performed⟩
      rcases consistent.step enabled guarded with ⟨next, returned, kept⟩
      cases performed.symm.trans returned
      exact kept

theorem Consistent.guarded_of_linkStored (consistent : state.Consistent size)
    (enabled : state.Enabled .linkStored)
    (performed : state.perform size .linkStored = some next)
    (accounted : next.Accounted size) : state.Guarded size .linkStored := by
  rcases enabled with ⟨node, busy, present⟩
  intro other same
  cases busy.symm.trans same
  rw [perform_linkStored busy] at performed
  cases performed
  have onWay : node ∈ state.pending := by
    rw [pending, busy]
    simp
  have unstored := ((consistent.avail.mem_iff _).mp (List.mem_map_of_mem onWay)).2
  have unknown : node.shortFileName ∉ state.tracked := by
    intro member
    have stored := (consistent.used.held _ member).1
    cases unstored.symm.trans stored
  have used := accounted.used.trans (consistent.used.sum_held_link rfl rfl
    (held_update_backend state) ⟨update_self _ _ _, present⟩ unknown)
  have sized := consistent.avail.sized node onWay
  rw [BackendStorer.linkStored] at used
  dsimp only at used
  omega

/-- `updateCache` evicts from an empty `cache_` exactly when the new files do not fit into
the cache. -/
theorem Consistent.updateCache_eq_none_iff (consistent : state.Consistent size) :
    state.perform size .updateCache = none ↔ ¬ state.Guarded size .updateCache := by
  have total := consistent.used.total
  have avail := consistent.avail.accounted
  constructor
  · intro failed guarded
    have room : 0 ≤ state.storer.availCacheSize := by
      rw [avail]
      exact Int.sub_nonneg_of_le guarded
    rcases consistent.used.updateCache room with ⟨next, performed, _⟩
    cases failed.symm.trans performed
  · intro large
    have short : state.storer.maxCacheSize < state.newFilesSize size := not_le.mp large
    have nonneg : ∀ entry ∈ state.storer.touchNewlyUsed.entries, 0 ≤ entry.2 := by
      intro entry member
      rw [touchNewlyUsed_sized consistent.used.newlyUsed consistent.used.cache entry member]
      exact Int.natCast_nonneg _
    rw [perform, BackendStorer.updateCache, RecencyList.evict_eq_none nonneg (by omega)]
    rfl

end Run

/-- In every run that only stores empty files, finds a file in the cache directory only
while it is tracked, copies a file back only while it is not tracked, and updates the cache
only while the new files fit into it, the accounting holds after every step and the cache
is never empty when a file is to be evicted. Storing a file that is not empty breaks the
accounting, and updating the cache when the new files do not fit into it evicts from an
empty cache. -/
theorem cache_accounting (size : κ → Nat) (maxCacheSize : Int) (cacheDir backend : κ → Bool)
    (state : StorerRun κ)
    (run : ReflTransGen (GuardedStep size) (new maxCacheSize cacheDir backend)
      state) :
    state.Accounted size ∧
      (∀ step, state.Enabled step → state.Guarded size step →
        ∃ next, state.perform size step = some next ∧ next.Accounted size) ∧
      (∀ next, state.Enabled .linkStored → state.perform size .linkStored = some next →
        (next.Accounted size ↔ state.Guarded size .linkStored)) ∧
      (state.perform size .updateCache = none ↔ ¬ state.Guarded size .updateCache) := by
  have consistent := consistent_of_run run
  refine ⟨consistent.accounted, ?_, ?_, consistent.updateCache_eq_none_iff⟩
  · intro step enabled guarded
    rcases consistent.step enabled guarded with ⟨next, performed, kept⟩
    exact ⟨next, performed, kept.accounted⟩
  · intro next enabled performed
    refine ⟨consistent.guarded_of_linkStored enabled performed, fun guarded => ?_⟩
    rcases consistent.step enabled guarded with ⟨reached, returned, kept⟩
    cases performed.symm.trans returned
    exact kept.accounted

/-- A file of ten bytes is copied back. -/
theorem cache_accounting_restored :
    ∃ state : StorerRun Nat,
      ReflTransGen (GuardedStep fun _ => 10)
        (new 100 (fun _ => false) fun _ => true) state ∧
      state.storer.usedCacheSize = 10 ∧ state.Accounted fun _ => 10 := by
  let start : StorerRun Nat := new 100 (fun _ => false) fun _ => true
  let checked : StorerRun Nat := { start with opening := [.missing 0] }
  let copied : StorerRun Nat :=
    { checked with
      cacheDir := update checked.cacheDir 0 true
      opening := [.restored 0] }
  let linked : StorerRun Nat :=
    { copied with storer := copied.storer.linkRestored ⟨0, 10⟩, opening := [] }
  have run : ReflTransGen (GuardedStep fun _ => 10) start linked :=
    .tail (.tail (.tail .refl
      (show GuardedStep _ start checked from
        ⟨.checkFileExistence 0, trivial, trivial, rfl⟩))
      (show GuardedStep _ checked copied from
        ⟨.backendRestoreOldFile 0, ⟨.head _, rfl⟩, trivial, rfl⟩))
      (show GuardedStep _ copied linked from
        ⟨.linkRestored 0 10, .head _, ⟨Finset.notMem_empty 0, ⟨rfl, rfl⟩, rfl⟩, rfl⟩)
  exact ⟨linked, run, rfl, (cache_accounting _ _ _ _ linked run).1⟩

/-- A new file of ten bytes is stored, and `usedCacheSize_` is -10. A new file that is
larger than the cache makes `updateCache` evict from an empty `cache_`. -/
theorem stored_file_breaks_accounting :
    (∃ state : StorerRun Nat,
      ReflTransGen (Step fun _ => 10)
        (new 100 (fun _ => false) fun _ => false) state ∧
      state.storer.usedCacheSize = -10 ∧ state.tracked = {0} ∧ state.Held 0 ∧
      ¬ state.Accounted fun _ => 10) ∧
    ∃ state : StorerRun Nat,
      ReflTransGen (Step fun _ => 10)
        (new 5 (fun _ => false) fun _ => false) state ∧
      state.Enabled .updateCache ∧ state.perform (fun _ => 10) .updateCache = none := by
  let written (maxCacheSize : Int) : StorerRun Nat :=
    new maxCacheSize (update (fun _ => false) 0 true) fun _ => false
  let reserved (maxCacheSize : Int) : StorerRun Nat :=
    { written maxCacheSize with
      storer := (BackendStorer.new maxCacheSize).reserve 10
      adding := [⟨0, 10⟩]
      added := {0} }
  have added : ∀ maxCacheSize, ReflTransGen (Step fun _ => 10)
      (new maxCacheSize (fun _ => false) fun _ => false) (reserved maxCacheSize) :=
    fun maxCacheSize => .tail (.tail .refl
      (show Step _ _ (written maxCacheSize) from ⟨.writeFile 0, ⟨rfl, rfl⟩, rfl⟩))
      (show Step _ (written maxCacheSize) (reserved maxCacheSize) from
        ⟨.reserve 0, ⟨rfl, rfl, Finset.notMem_empty 0⟩, rfl⟩)
  let linked : StorerRun Nat :=
    { reserved 100 with
      storer := (reserved 100).storer.linkNewlyStored ⟨0, 10⟩
      adding := [] }
  let taken : StorerRun Nat :=
    { linked with
      storer := { linked.storer with newlyStoredFiles := [] }
      storing := some ⟨0, 10⟩ }
  let stored : StorerRun Nat :=
    { taken with
      storer := taken.storer.linkStored ⟨0, 10⟩
      storing := none
      backend := update taken.backend 0 true }
  have run : ReflTransGen (Step fun _ => 10) (reserved 100) stored :=
    .tail (.tail (.tail .refl
      (show Step _ (reserved 100) linked from ⟨.linkNewlyStored ⟨0, 10⟩, .head _, rfl⟩))
      (show Step _ linked taken from
        ⟨.takeNewlyStored, ⟨rfl, List.cons_ne_nil _ _⟩, rfl⟩))
      (show Step _ taken stored from ⟨.linkStored, ⟨⟨0, 10⟩, rfl, rfl⟩, rfl⟩)
  refine ⟨⟨stored, (added 100).trans run, rfl, rfl, ⟨rfl, rfl⟩, fun accounted => ?_⟩,
    ⟨reserved 5, added 5, .inr (by decide), by decide⟩⟩
  have used := accounted.used
  revert used
  decide

end StorerRun

end MetaDedup.Server
