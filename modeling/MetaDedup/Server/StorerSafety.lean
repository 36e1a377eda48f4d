import MetaDedup.Server.CacheAccounting

/-! # No file is lost

`updateCache` deletes files from the cache directory without a look at the backend. It
knows of no file but those that `storeNewFile` has been through with, as long as `openOldFile`
is not called for a file before. Whether these are on the backend depends on the backend:
only a directory of the same machine gets a copy. -/

namespace MetaDedup.Server

/-- `backendType_`, and the `backendIP_` of an `IPSERVER`. -/
inductive Backend where
  | ipServer (backendIP : String)
  | amazon
  | google
  | msAzure
  | rackspace

/-- `backendStoreNewFile_` and `backendRestoreOldFile_` copy a file. They return 1 for the
other backends as well: `IPCopyFile_` is empty, and so are the branches of the clouds. -/
def Backend.copies : Backend → Bool
  | .ipServer backendIP => backendIP == "127.0.0.1"
  | _ => false

namespace StorerRun

open Foundation Function Relation

variable {κ : Type u} [DecidableEq κ] {size : κ → Nat} {state next later : StorerRun κ}
variable {storage : Backend}

/-- The run can go on with the step. A copy that is not made needs no source. -/
def EnabledOn (storage : Backend) (state : StorerRun κ) : StorerStep κ → Prop
  | .linkStored =>
      ∃ node, state.storing = some node ∧
        (storage.copies = true → state.cacheDir node.shortFileName = true)
  | .backendRestoreOldFile name =>
      .missing name ∈ state.opening ∧ (storage.copies = true → state.backend name = true)
  | step => state.Enabled step

/-- The state after a step, without the copies that the backend does not make. -/
def performOn (storage : Backend) (size : κ → Nat) (state : StorerRun κ)
    (step : StorerStep κ) : Option (StorerRun κ) :=
  (state.perform size step).map fun next =>
    match step with
    | .linkStored => { next with backend := if storage.copies then next.backend else state.backend }
    | .backendRestoreOldFile _ =>
        { next with cacheDir := if storage.copies then next.cacheDir else state.cacheDir }
    | _ => next

/-- A step that puts no file among the newly used ones before it has been stored. -/
def StoredStep (storage : Backend) (size : κ → Nat) (state next : StorerRun κ) : Prop :=
  ∃ step, state.EnabledOn storage step ∧
    (∀ name, step = .linkExisting name → state.backend name = true) ∧
    state.performOn storage size step = some next

omit [DecidableEq κ] in
private theorem enabled_of_copies (copies : storage.copies = true) {step : StorerStep κ}
    (enabled : state.EnabledOn storage step) : state.Enabled step := by
  cases step with
  | linkStored =>
      rcases enabled with ⟨node, storing, source⟩
      exact ⟨node, storing, source copies⟩
  | backendRestoreOldFile name => exact ⟨enabled.1, enabled.2 copies⟩
  | _ => exact enabled

private theorem performOn_of_copies (copies : storage.copies = true) (step : StorerStep κ) :
    state.performOn storage size step = state.perform size step := by
  cases step <;> simp [performOn, copies]

def Present (state : StorerRun κ) (name : κ) : Prop :=
  state.cacheDir name = true ∨ state.backend name = true

/-- The files that the cache knows, and those that have been copied back, are stored. -/
structure BackedUp (state : StorerRun κ) : Prop where
  known : ∀ name ∈ state.tracked, state.backend name = true
  restored : ∀ name, .restored name ∈ state.opening → state.backend name = true

/-- No file is lost in a step. -/
structure Keeps (state next : StorerRun κ) : Prop where
  backedUp : next.BackedUp
  present : ∀ name, state.Present name → next.Present name

/-- A step that deletes nothing. -/
theorem BackedUp.keeps (backed : state.BackedUp)
    (cacheDir : ∀ name, state.cacheDir name = true → next.cacheDir name = true)
    (backend : ∀ name, state.backend name = true → next.backend name = true)
    (known : ∀ name ∈ next.tracked, name ∈ state.tracked ∨ next.backend name = true)
    (restored : ∀ name, .restored name ∈ next.opening →
      .restored name ∈ state.opening ∨ next.backend name = true) : state.Keeps next where
  backedUp :=
    { known := fun name member =>
        (known name member).elim (fun old => backend name (backed.known name old)) id
      restored := fun name member =>
        (restored name member).elim (fun old => backend name (backed.restored name old)) id }
  present := fun name => Or.imp (cacheDir name) (backend name)

private theorem known_of_link {node : FileNode κ}
    (linked : next.storer.newlyUsedFiles = state.storer.newlyUsedFiles ++ [node])
    (cache : next.storer.cache = state.storer.cache)
    (stored : next.backend node.shortFileName = true) :
    ∀ name ∈ next.tracked, name ∈ state.tracked ∨ next.backend name = true := by
  intro name member
  rw [tracked_link linked cache] at member
  rcases Finset.mem_insert.mp member with rfl | old
  · exact .inr stored
  · exact .inl old

theorem BackedUp.updateCache (backed : state.BackedUp)
    (updated : state.perform size .updateCache = some next) : state.Keeps next := by
  rcases Option.map_eq_some_iff.mp updated with ⟨⟨storer, deleted⟩, updates, rfl⟩
  rcases Option.map_eq_some_iff.mp updates with ⟨⟨left, evicted, kept⟩, returned, same⟩
  have keys := RecencyList.evictEntries_keys returned
  have known : ∀ name ∈ evicted ++ kept.entries.map Prod.fst, state.backend name = true := by
    intro name member
    apply backed.known
    rw [StorerRun.tracked, ← touchNewlyUsed_keys, RecencyList.keys, List.mem_toFinset, keys]
    exact member
  cases same
  refine ⟨⟨fun name member => known name ?_, backed.restored⟩, fun name present => ?_⟩
  · simpa [StorerRun.tracked, RecencyList.keys] using Or.inr member
  · by_cases gone : name ∈ evicted
    · exact .inr (known name (List.mem_append_left _ gone))
    · simpa [Present, gone] using present

theorem BackedUp.step (copies : storage.copies = true) (backed : state.BackedUp)
    (stored : StoredStep storage size state next) : state.Keeps next := by
  rcases stored with ⟨step, enabledOn, guarded, performed⟩
  have enabled := enabled_of_copies copies enabledOn
  rw [performOn_of_copies copies] at performed
  cases step with
  | updateCache => exact backed.updateCache performed
  | writeFile name =>
      cases performed
      exact backed.keeps (fun other => by by_cases own : other = name <;> simp [own])
        (fun _ => id) (fun _ => .inl) fun _ => .inl
  | reserve name =>
      cases performed
      exact backed.keeps (fun _ => id) (fun _ => id) (fun _ => .inl) fun _ => .inl
  | linkNewlyStored node =>
      cases performed
      exact backed.keeps (fun _ => id) (fun _ => id) (fun _ => .inl) fun _ => .inl
  | takeNewlyStored =>
      rw [perform] at performed
      split at performed <;> cases performed <;>
        exact backed.keeps (fun _ => id) (fun _ => id) (fun _ => .inl) fun _ => .inl
  | linkStored =>
      rw [perform] at performed
      split at performed
      next =>
        cases performed
        exact backed.keeps (fun _ => id) (fun _ => id) (fun _ => .inl) fun _ => .inl
      next node _ =>
        cases performed
        exact backed.keeps (fun _ => id)
          (fun other => by by_cases own : other = node.shortFileName <;> simp [own])
          (known_of_link rfl rfl (update_self _ _ _)) fun _ => .inl
  | checkFileExistence name =>
      cases performed
      refine backed.keeps (fun _ => id) (fun _ => id) (fun _ => .inl) fun other member => ?_
      rcases List.mem_cons.mp member with same | old
      · split at same <;> cases same
      · exact .inl old
  | linkExisting name =>
      cases performed
      exact backed.keeps (fun _ => id) (fun _ => id)
        (known_of_link rfl rfl (guarded name rfl))
        fun _ member => .inl (List.mem_of_mem_erase member)
  | backendRestoreOldFile name =>
      cases performed
      refine backed.keeps (fun other => ?_) (fun _ => id) (fun _ => .inl) fun other member => ?_
      · by_cases own : other = name <;> simp [own]
      · rcases List.mem_cons.mp member with same | old
        · cases same
          exact .inr enabled.2
        · exact .inl (List.mem_of_mem_erase old)
  | linkRestored name measured =>
      cases performed
      exact backed.keeps (fun _ => id) (fun _ => id)
        (known_of_link rfl rfl (backed.restored name enabled))
        fun _ member => .inl (List.mem_of_mem_erase member)

private theorem backedUp_run (copies : storage.copies = true) {cacheDir backend : κ → Bool}
    {maxCacheSize : Int}
    (run : ReflTransGen (StoredStep storage size) (new maxCacheSize cacheDir backend)
      state) : state.BackedUp := by
  induction run with
  | refl =>
      constructor <;>
        simp [StorerRun.tracked, new, BackendStorer.new, RecencyList.keys, RecencyList.empty]
  | tail _ stored backed => exact (backed.step copies stored).backedUp

/-- With a backend that copies, a file that is in the cache directory or on the backend stays
in one of them, however the storer's threads go on. -/
theorem files_never_lost (copies : storage.copies = true) {cacheDir backend : κ → Bool}
    {maxCacheSize : Int}
    (run : ReflTransGen (StoredStep storage size) (new maxCacheSize cacheDir backend)
      state)
    (continued : ReflTransGen (StoredStep storage size) state later) (name : κ)
    (present : state.Present name) : later.Present name := by
  induction continued with
  | refl => exact present
  | tail before stored present =>
      exact ((backedUp_run copies (run.trans before)).step copies stored).present name present

/-- In a cache of 5 bytes a file of 4 bytes is stored, and then evicted for one of 10. -/
theorem exists_evicting_run (storage : Backend) :
    ∃ (size : Nat → Nat) (written later : StorerRun Nat),
      ReflTransGen (StoredStep storage size) (new 5 (fun _ => false) fun _ => false)
        written ∧
      ReflTransGen (StoredStep storage size) written later ∧
      written.cacheDir 0 = true ∧ later.cacheDir 0 = false ∧
        later.backend 0 = storage.copies := by
  let size : Nat → Nat := fun name => if name = 0 then 4 else 10
  let written : StorerRun Nat :=
    new 5 (update (fun _ => false) 0 true) fun _ => false
  let reserved : StorerRun Nat :=
    { written with storer := written.storer.reserve 4, adding := [⟨0, 4⟩], added := {0} }
  let linked : StorerRun Nat :=
    { reserved with storer := reserved.storer.linkNewlyStored ⟨0, 4⟩, adding := [] }
  let taken : StorerRun Nat :=
    { linked with
      storer := { linked.storer with newlyStoredFiles := [] }
      storing := some ⟨0, 4⟩ }
  let stored : StorerRun Nat :=
    { taken with
      storer := taken.storer.linkStored ⟨0, 4⟩
      storing := none
      backend := if storage.copies then update taken.backend 0 true else taken.backend }
  let second : StorerRun Nat := { stored with cacheDir := update stored.cacheDir 1 true }
  let full : StorerRun Nat :=
    { second with
      storer := second.storer.reserve 10
      adding := [⟨1, 10⟩]
      added := {1, 0} }
  let evicted : StorerRun Nat :=
    { full with
      storer := { full.storer with usedCacheSize := -8, newlyUsedFiles := [] }
      cacheDir := fun name => full.cacheDir name && !([0] : List Nat).contains name }
  have unstored (name : Nat) (other : name ≠ 0) : stored.backend name = false := by
    by_cases copies : storage.copies = true <;> simp [stored, taken, linked, reserved, written,
      new, copies, other]
  refine ⟨size, written, evicted, .single ⟨.writeFile 0, ⟨rfl, rfl⟩, by simp, rfl⟩, ?_, rfl, rfl,
    ?_⟩
  · have storing : ReflTransGen (StoredStep storage size) written stored :=
      .tail (.tail (.tail (.single
        (show StoredStep _ _ written reserved from
          ⟨.reserve 0, ⟨rfl, rfl, Finset.notMem_empty 0⟩, by simp, rfl⟩))
        (show StoredStep _ _ reserved linked from
          ⟨.linkNewlyStored ⟨0, 4⟩, .head _, by simp, rfl⟩))
        (show StoredStep _ _ linked taken from
          ⟨.takeNewlyStored, ⟨rfl, List.cons_ne_nil _ _⟩, by simp, rfl⟩))
        (show StoredStep _ _ taken stored from
          ⟨.linkStored, ⟨⟨0, 4⟩, rfl, fun _ => rfl⟩, by simp, rfl⟩)
    exact .tail (.tail (.tail storing
      (show StoredStep _ _ stored second from
        ⟨.writeFile 1, ⟨rfl, unstored 1 one_ne_zero⟩, by simp, rfl⟩))
      (show StoredStep _ _ second full from
        ⟨.reserve 1, ⟨rfl, unstored 1 one_ne_zero, show 1 ∉ {0} by decide⟩, by simp, rfl⟩))
      (show StoredStep _ _ full evicted from
        ⟨.updateCache, .inl (List.cons_ne_nil _ _), by simp, rfl⟩)
  · by_cases copies : storage.copies = true <;>
      simp [evicted, full, second, stored, taken, linked, reserved, written, new, copies]

/-- The file that has been evicted is on the backend. -/
theorem files_never_lost_evicted :
    ∃ written later : StorerRun Nat,
      written.cacheDir 0 = true ∧ later.cacheDir 0 = false ∧ later.Present 0 := by
  rcases exists_evicting_run (.ipServer "127.0.0.1") with
    ⟨_, written, later, run, continued, held, evicted, _⟩
  exact ⟨written, later, held, evicted, files_never_lost rfl run continued 0 (.inl held)⟩

/-- With any other backend the same run loses the file. -/
theorem file_lost_of_not_copies (storage : Backend) (copies : storage.copies = false) :
    ∃ (size : Nat → Nat) (written later : StorerRun Nat),
      ReflTransGen (StoredStep storage size) (new 5 (fun _ => false) fun _ => false)
        written ∧
      ReflTransGen (StoredStep storage size) written later ∧
      written.Present 0 ∧ ¬later.Present 0 := by
  rcases exists_evicting_run storage with
    ⟨size, written, later, run, continued, held, evicted, same⟩
  refine ⟨size, written, later, run, continued, .inl held, ?_⟩
  simp [Present, evicted, same, copies]

end StorerRun

end MetaDedup.Server
