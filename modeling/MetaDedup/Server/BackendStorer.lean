import MetaDedup.Foundation.RecencyList

/-! # `BackendStorer`

The cache directory in front of the backend storage. A new file is first only in the
cache directory; `storeNewFile` copies it to the backend storage, and `updateCache` deletes
the files that were least recently used when the cache is full. `openOldFile` copies a
deleted file back.

Threads hold `fileStorerLock_` or `cacheUpdaterLock_` for a critical section at a time, so
a run is a sequence of critical sections and of the accesses to files between them, in any
order. File names are of an arbitrary type. -/

namespace MetaDedup.Server

open Foundation

universe u

structure FileNode (κ : Type u) where
  shortFileName : κ
  fileSize : Int
  deriving DecidableEq

/-- The fields of the class. The links of newly stored and newly used files are lists from
head to tail. -/
structure BackendStorer (κ : Type u) where
  maxCacheSize : Int
  availCacheSize : Int
  usedCacheSize : Int
  newlyStoredFiles : List (FileNode κ)
  newlyUsedFiles : List (FileNode κ)
  cache : RecencyList κ

namespace BackendStorer

variable {κ : Type u}

def new (maxCacheSize : Int) : BackendStorer κ where
  maxCacheSize := maxCacheSize
  availCacheSize := maxCacheSize
  usedCacheSize := 0
  newlyStoredFiles := []
  newlyUsedFiles := []
  cache := .empty

/-! ## Critical sections -/

/-- Step 2 of `addNewFile`. -/
def reserve (storer : BackendStorer κ) (fileSize : Int) : BackendStorer κ :=
  { storer with availCacheSize := storer.availCacheSize - fileSize }

/-- Step 5 of `addNewFile`. -/
def linkNewlyStored (storer : BackendStorer κ) (node : FileNode κ) : BackendStorer κ :=
  { storer with newlyStoredFiles := storer.newlyStoredFiles ++ [node] }

/-- `openOldFile` for a file that is in the cache directory. -/
def linkExisting (storer : BackendStorer κ) (node : FileNode κ) : BackendStorer κ :=
  { storer with newlyUsedFiles := storer.newlyUsedFiles ++ [node] }

/-- `openOldFile` for a file that it has copied back. -/
def linkRestored (storer : BackendStorer κ) (node : FileNode κ) : BackendStorer κ :=
  { storer with
    newlyUsedFiles := storer.newlyUsedFiles ++ [node]
    usedCacheSize := storer.usedCacheSize + node.fileSize }

/-- Step 3 of `storeNewFile`. -/
def linkStored (storer : BackendStorer κ) (node : FileNode κ) : BackendStorer κ :=
  { storer with
    newlyUsedFiles := storer.newlyUsedFiles ++ [node]
    availCacheSize := storer.availCacheSize + node.fileSize
    usedCacheSize := storer.usedCacheSize - node.fileSize }

variable [DecidableEq κ]

/-- Step 1 of `updateCache`: every newly used file is put to the end of `cache_`. -/
def touchNewlyUsed (storer : BackendStorer κ) : RecencyList κ :=
  storer.newlyUsedFiles.foldl
    (fun cache node => cache.touch node.shortFileName node.fileSize) storer.cache

/-- One pass of `updateCache`, and the files it deletes; `none` when it evicts from an
empty `cache_`. -/
def updateCache (storer : BackendStorer κ) : Option (BackendStorer κ × List κ) :=
  (storer.touchNewlyUsed.evict storer.availCacheSize storer.usedCacheSize).map fun evicted =>
    ({ storer with
        usedCacheSize := evicted.1
        newlyUsedFiles := []
        cache := evicted.2.2 },
      evicted.2.1)

end BackendStorer

/-! ## Runs -/

/-- A call of `openOldFile` that has not come to its critical section: it has found the
file in the cache directory, it has not found it there, or it has copied it back. -/
inductive OpenCall (κ : Type u) where
  | existing (name : κ)
  | missing (name : κ)
  | restored (name : κ)
  deriving DecidableEq

/-- The storer, the files in both places, and the calls that are under way. -/
structure StorerRun (κ : Type u) where
  storer : BackendStorer κ
  cacheDir : κ → Bool
  backend : κ → Bool
  /-- The calls of `addNewFile` between their critical sections. -/
  adding : List (FileNode κ)
  /-- The file that `storeNewFile` is working on. -/
  storing : Option (FileNode κ)
  opening : List (OpenCall κ)
  /-- The names `addNewFile` has been called with. -/
  added : Finset κ

inductive StorerStep (κ : Type u) where
  /-- A file is written into the cache directory, to be added. -/
  | writeFile (name : κ)
  | reserve (name : κ)
  | linkNewlyStored (node : FileNode κ)
  | takeNewlyStored
  /-- The file is copied to the backend storage, and the storer takes note of it. -/
  | linkStored
  | checkFileExistence (name : κ)
  | linkExisting (name : κ)
  | backendRestoreOldFile (name : κ)
  /-- `measured` is what `getOpenedFileSize_` returns. The file pointer it is given has
  not been set. -/
  | linkRestored (name : κ) (measured : Int)
  | updateCache

namespace StorerRun

variable {κ : Type u} [DecidableEq κ] (size : κ → Nat)

/-- The run can go on with the step. Names of new files are distinct, and a copy succeeds
when its source is there. -/
def Enabled (state : StorerRun κ) : StorerStep κ → Prop
  | .writeFile name => state.cacheDir name = false ∧ state.backend name = false
  | .reserve name =>
      state.cacheDir name = true ∧ state.backend name = false ∧ name ∉ state.added
  | .linkNewlyStored node => node ∈ state.adding
  | .takeNewlyStored => state.storing = none ∧ state.storer.newlyStoredFiles ≠ []
  | .linkStored => ∃ node, state.storing = some node ∧ state.cacheDir node.shortFileName = true
  | .checkFileExistence _ => True
  | .linkExisting name => .existing name ∈ state.opening
  | .backendRestoreOldFile name => .missing name ∈ state.opening ∧ state.backend name = true
  | .linkRestored name _ => .restored name ∈ state.opening
  | .updateCache =>
      state.storer.newlyUsedFiles ≠ [] ∨
        state.storer.availCacheSize < state.storer.usedCacheSize

/-- The state after a step; `none` when `updateCache` evicts from an empty `cache_`. -/
def perform (state : StorerRun κ) : StorerStep κ → Option (StorerRun κ)
  | .writeFile name => some { state with cacheDir := Function.update state.cacheDir name true }
  | .reserve name =>
      some
        { state with
          storer := state.storer.reserve (size name)
          adding := ⟨name, size name⟩ :: state.adding
          added := insert name state.added }
  | .linkNewlyStored node =>
      some
        { state with
          storer := state.storer.linkNewlyStored node
          adding := state.adding.erase node }
  | .takeNewlyStored =>
      match state.storer.newlyStoredFiles with
      | [] => some state
      | node :: rest =>
          some
            { state with
              storer := { state.storer with newlyStoredFiles := rest }
              storing := some node }
  | .linkStored =>
      match state.storing with
      | none => some state
      | some node =>
          some
            { state with
              storer := state.storer.linkStored node
              storing := none
              backend := Function.update state.backend node.shortFileName true }
  | .checkFileExistence name =>
      some
        { state with
          opening := (if state.cacheDir name then .existing name else .missing name) ::
            state.opening }
  | .linkExisting name =>
      some
        { state with
          storer := state.storer.linkExisting ⟨name, size name⟩
          opening := state.opening.erase (.existing name) }
  | .backendRestoreOldFile name =>
      some
        { state with
          cacheDir := Function.update state.cacheDir name true
          opening := .restored name :: state.opening.erase (.missing name) }
  | .linkRestored name measured =>
      some
        { state with
          storer := state.storer.linkRestored ⟨name, measured⟩
          opening := state.opening.erase (.restored name) }
  | .updateCache =>
      state.storer.updateCache.map fun updated =>
        { state with
          storer := updated.1
          cacheDir := fun name => state.cacheDir name && !updated.2.contains name }

/-- A new object, over directories that may already hold files. -/
def new (maxCacheSize : Int) (cacheDir backend : κ → Bool) : StorerRun κ where
  storer := .new maxCacheSize
  cacheDir := cacheDir
  backend := backend
  adding := []
  storing := none
  opening := []
  added := ∅

end StorerRun

end MetaDedup.Server
