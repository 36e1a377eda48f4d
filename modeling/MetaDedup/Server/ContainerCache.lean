import MetaDedup.Foundation.RecentOrder
import MetaDedup.Server.RestoreShares

/-! # The container cache of a restoration

`restoreShareFile` keeps the containers it has read in the slots of an array and the
order of their use in another one, which it permutes in place. A container is read over
what the slot held before, and its name is set afterwards. This module models both
arrays, shows that they always hold what the most recently used containers hold, and
that the shares are those of containers read afresh. -/

namespace MetaDedup.Server

open Foundation Wire

/-- `shareContainerCacheNode_t`. The buffer has room for `CONTAINER_BUFFER_SIZE` bytes. -/
structure ShareContainerCacheNode where
  shareContainerName : InternalFileName
  shareContainer : Buffer Byte

/-- The cache of `restoreShareFile`. Both arrays are allocated without being set. -/
structure ContainerCache where
  shareContainerCache : Buffer ShareContainerCacheNode
  shareContainerCacheIndex : Buffer Nat
  numOfCachedShareContainers : Nat

namespace ContainerCache

/-! ## The operations -/

/-- The node number `j` in the order of use. -/
def node (cache : ContainerCache) (j : Nat) : ShareContainerCacheNode :=
  cache.shareContainerCache (cache.shareContainerCacheIndex j)

/-- The loop that looks for a container, from position `j` on. -/
def search (cache : ContainerCache) (shareContainerName : InternalFileName) :
    (passes j : Nat) → Nat
  | 0, j => j
  | passes + 1, j =>
      if j < cache.numOfCachedShareContainers ∧
          shareContainerName ≠ (cache.node j).shareContainerName then
        search cache shareContainerName passes (j + 1)
      else j

/-- Move the container found at position `j` to the beginning of the cache. -/
def moveFound (cache : ContainerCache) (j : Nat) : ContainerCache :=
  if 0 < j then
    { cache with
      shareContainerCacheIndex := cache.shareContainerCacheIndex.putFront j
        (cache.shareContainerCacheIndex j) }
  else cache

/-- Move the slot for a new container to the beginning of the cache: the next slot as
long as there is one, then the slot that was used longest ago. -/
def moveEvicted (cache : ContainerCache) : ContainerCache :=
  if cache.numOfCachedShareContainers < numOfCachedContainers then
    { cache with
      shareContainerCacheIndex := cache.shareContainerCacheIndex.putFront
        cache.numOfCachedShareContainers cache.numOfCachedShareContainers
      numOfCachedShareContainers := cache.numOfCachedShareContainers + 1 }
  else
    { cache with
      shareContainerCacheIndex := cache.shareContainerCacheIndex.putFront
        (numOfCachedContainers - 1)
        (cache.shareContainerCacheIndex (numOfCachedContainers - 1)) }

def setFirst (cache : ContainerCache) (first : ShareContainerCacheNode) : ContainerCache :=
  { cache with
    shareContainerCache := Function.update cache.shareContainerCache
      (cache.shareContainerCacheIndex 0) first }

def readInto (cache : ContainerCache) (bytes : List Byte) : ContainerCache :=
  cache.setFirst
    { cache.node 0 with shareContainer := (cache.node 0).shareContainer.write 0 bytes }

def setName (cache : ContainerCache) (shareContainerName : InternalFileName) :
    ContainerCache :=
  cache.setFirst { cache.node 0 with shareContainerName }

/-- Read a container into the first node: a buffer that has it is copied, otherwise up to
`CONTAINER_BUFFER_SIZE` bytes are read from its file. -/
def readContainer (store : ShareStore) (buffers : List ShareContainerBuffer)
    (cache : ContainerCache) (shareContainerName : InternalFileName) :
    Except ContainerCache ContainerCache :=
  match ShareStore.readShareContainerFromBuffer buffers shareContainerName with
  | some shareContainerBuffer => .ok (cache.readInto shareContainerBuffer)
  | none =>
      match store.shareContainers shareContainerName with
      | none => .error cache
      | some file =>
          let cache := cache.readInto (file.take containerBufferSize)
          if (file.take containerBufferSize).length = 0 then .error cache else .ok cache

def access (store : ShareStore) (buffers : List ShareContainerBuffer)
    (cache : ContainerCache) (shareContainerName : InternalFileName) :
    Except ContainerCache ContainerCache :=
  let j := cache.search shareContainerName cache.numOfCachedShareContainers 0
  if j < cache.numOfCachedShareContainers then .ok (cache.moveFound j)
  else do
    let cache ← cache.moveEvicted.readContainer store buffers shareContainerName
    .ok (cache.setName shareContainerName)

def order (cache : ContainerCache) : List Nat :=
  cache.shareContainerCacheIndex.slice 0 cache.numOfCachedShareContainers

def slotName (cache : ContainerCache) (slot : Nat) : InternalFileName :=
  (cache.shareContainerCache slot).shareContainerName

def names (cache : ContainerCache) : List InternalFileName :=
  cache.order.map cache.slotName

@[simp]
theorem order_length (cache : ContainerCache) :
    cache.order.length = cache.numOfCachedShareContainers := by
  simp [order]

@[simp]
theorem names_length (cache : ContainerCache) :
    cache.names.length = cache.numOfCachedShareContainers := by
  simp [names]

theorem order_get {cache : ContainerCache} {j : Nat} (inside : j < cache.order.length) :
    cache.order[j] = cache.shareContainerCacheIndex j := by
  simp [order, Buffer.slice]

theorem names_get {cache : ContainerCache} {j : Nat} (inside : j < cache.names.length) :
    cache.names[j] = (cache.node j).shareContainerName := by
  simp only [names, List.getElem_map, order_get]
  rfl

private theorem search_eq (cache : ContainerCache) (name : InternalFileName) (passes j : Nat)
    (enough : j + passes = cache.numOfCachedShareContainers) :
    cache.search name passes j = j + (cache.names.drop j).idxOf name := by
  induction passes generalizing j with
  | zero =>
      rw [List.drop_of_length_le (by rw [names_length]; omega)]
      rfl
  | succ passes induction =>
      have inside : j < cache.names.length := by rw [names_length]; omega
      rw [search, List.drop_eq_getElem_cons inside, names_get, List.idxOf_cons]
      by_cases same : (cache.node j).shareContainerName = name
      · rw [if_neg (fun both => both.2 same.symm), same]
        simp
      · rw [if_pos ⟨by omega, Ne.symm same⟩, induction (j + 1) (by omega),
          Bool.cond_eq_ite, if_neg (by simpa using same)]
        omega

/-! ## What the cache holds -/

/-- The cache after the containers `used` have been brought to its beginning, one after
the other. -/
structure MostRecent (store : ShareStore) (buffers : List ShareContainerBuffer)
    (used : List InternalFileName) (cache : ContainerCache) : Prop where
  /-- The index is a permutation of the slots in use. -/
  slots : cache.order.Perm (List.range cache.numOfCachedShareContainers)
  /-- It has the containers that were used last, the last one first. -/
  names : cache.names = (recent used).take numOfCachedContainers
  /-- Every slot in use starts with the content of the container it names. -/
  contents : ∀ slot ∈ cache.order, ∃ container,
    store.readShareContainer buffers (cache.slotName slot) = some container ∧
      (cache.shareContainerCache slot).shareContainer.slice 0 container.length = container

variable {store : ShareStore} {buffers : List ShareContainerBuffer}
  {used : List InternalFileName} {cache : ContainerCache}

theorem MostRecent.empty (unused : cache.numOfCachedShareContainers = 0) :
    MostRecent store buffers [] cache := by
  have none : cache.order = [] := by rw [order, unused]; rfl
  constructor
  · rw [none, unused]
    exact .nil
  · rw [ContainerCache.names, none]
    rfl
  · intro slot member
    rw [none] at member
    cases member

namespace MostRecent

private theorem distinct (recents : MostRecent store buffers used cache) : cache.names.Nodup := by
  rw [recents.names]
  exact (recent_nodup used).sublist (List.take_sublist _ _)

private theorem count_le (recents : MostRecent store buffers used cache) :
    cache.numOfCachedShareContainers ≤ numOfCachedContainers := by
  rw [← names_length, recents.names]
  exact List.length_take_le _ _

private theorem first {name : InternalFileName}
    (recents : MostRecent store buffers (used ++ [name]) cache) :
    ∃ container, store.readShareContainer buffers name = some container ∧
      (cache.node 0).shareContainer.slice 0 container.length = container := by
  have front := recents.names
  rw [recent_concat, numOfCachedContainers, List.take_succ_cons] at front
  have inside : 0 < cache.names.length := by rw [front]; exact Nat.succ_pos _
  have member : cache.shareContainerCacheIndex 0 ∈ cache.order := by
    have listed : 0 < cache.order.length := by
      rw [order_length, ← names_length]
      exact inside
    rw [← order_get listed]
    exact List.getElem_mem listed
  have named : cache.slotName (cache.shareContainerCacheIndex 0) = name := by
    have first := names_get inside
    simp only [front, List.getElem_cons_zero] at first
    exact first.symm
  rcases recents.contents _ member with ⟨container, read, held⟩
  exact ⟨container, named ▸ read, held⟩

end MostRecent

/-! ## A container that is cached -/

variable {name : InternalFileName}

private theorem moveFound_order {j : Nat} (inside : j < cache.numOfCachedShareContainers) :
    (cache.moveFound j).order =
      cache.shareContainerCacheIndex j :: cache.order.eraseIdx j := by
  rw [moveFound]
  split
  · exact Buffer.slice_putFront _ _ inside
  · have zero : j = 0 := by omega
    have listed : 0 < cache.order.length := by rw [order_length]; omega
    rw [zero, ← order_get listed]
    rw [List.eraseIdx_zero, ← List.drop_one]
    exact List.drop_eq_getElem_cons listed

private theorem moveFound_shareContainerCache (j : Nat) :
    (cache.moveFound j).shareContainerCache = cache.shareContainerCache := by
  rw [moveFound]
  split <;> rfl

private theorem moveFound_count (j : Nat) :
    (cache.moveFound j).numOfCachedShareContainers = cache.numOfCachedShareContainers := by
  rw [moveFound]
  split <;> rfl

theorem MostRecent.moveFound (recents : MostRecent store buffers used cache)
    (cached : name ∈ cache.names) :
    MostRecent store buffers (used ++ [name]) (cache.moveFound (cache.names.idxOf name)) := by
  have bounded := List.idxOf_lt_length_iff.mpr cached
  have named : (cache.node (cache.names.idxOf name)).shareContainerName = name := by
    rw [← names_get bounded]
    exact List.getElem_idxOf bounded
  have inside : cache.names.idxOf name < cache.numOfCachedShareContainers := by
    rwa [names_length] at bounded
  have listed : cache.names.idxOf name < cache.order.length := by rwa [order_length]
  have order := moveFound_order inside
  have same : (cache.moveFound (cache.names.idxOf name)).slotName = cache.slotName := by
    funext slot
    rw [slotName, moveFound_shareContainerCache, slotName]
  have moved : (cache.moveFound (cache.names.idxOf name)).order.Perm cache.order := by
    rw [order, ← order_get listed]
    exact List.getElem_cons_eraseIdx_perm listed
  constructor
  · rw [moveFound_count]
    exact moved.trans recents.slots
  · have hit : cache.names[cache.names.idxOf name]? = some name :=
      List.getElem?_eq_some_iff.mpr ⟨bounded, List.getElem_idxOf bounded⟩
    have used := take_recent_hit (recents.names ▸ hit)
    rw [used, ← recents.names, ContainerCache.names, order, same, List.map_cons,
      ← List.eraseIdx_map]
    exact congrArg (List.cons · _) named
  · intro slot member
    rw [same, moveFound_shareContainerCache]
    exact recents.contents slot (moved.subset member)

/-! ## A container that is not cached -/

variable {container : List Byte}

private theorem moveEvicted_shareContainerCache :
    cache.moveEvicted.shareContainerCache = cache.shareContainerCache := by
  rw [moveEvicted]
  split <;> rfl

/-- The slot for a new container comes before the slots that stay. -/
theorem MostRecent.moveEvicted_order (recents : MostRecent store buffers used cache) :
    cache.moveEvicted.order =
        cache.moveEvicted.shareContainerCacheIndex 0 ::
          cache.order.take (numOfCachedContainers - 1) ∧
      cache.moveEvicted.order.Perm
        (List.range cache.moveEvicted.numOfCachedShareContainers) := by
  have bounded := recents.count_le
  rw [moveEvicted]
  split
  · rename_i room
    have grown := Buffer.slice_putFront_grow cache.shareContainerCacheIndex
      cache.numOfCachedShareContainers cache.numOfCachedShareContainers
    constructor
    · rw [List.take_of_length_le (by rw [order_length]; omega)]
      exact grown
    · rw [order, grown, List.range_succ]
      exact (recents.slots.cons _).trans (List.perm_append_singleton _ _).symm
  · rename_i full
    have count : cache.numOfCachedShareContainers = numOfCachedContainers := by omega
    have inside : numOfCachedContainers - 1 < cache.numOfCachedShareContainers := by
      rw [count]
      decide
    have listed : numOfCachedContainers - 1 < cache.order.length := by rwa [order_length]
    have moved := Buffer.slice_putFront cache.shareContainerCacheIndex
      (cache.shareContainerCacheIndex (numOfCachedContainers - 1)) inside
    constructor
    · have last : cache.order.eraseIdx (numOfCachedContainers - 1) =
          cache.order.take (numOfCachedContainers - 1) := by
        rw [List.eraseIdx_eq_take_drop_succ, List.drop_of_length_le, List.append_nil]
        rw [order_length, count]
        decide
      rw [← last]
      exact moved
    · rw [order, moved, ← order_get listed]
      exact (List.getElem_cons_eraseIdx_perm listed).trans recents.slots

private theorem readInto_setName (bytes : List Byte) (name : InternalFileName) :
    (cache.readInto bytes).setName name =
      cache.setFirst ⟨name, (cache.node 0).shareContainer.write 0 bytes⟩ := by
  simp [readInto, setName, setFirst, node]

theorem MostRecent.setFirst (recents : MostRecent store buffers used cache)
    (missing : name ∉ cache.names)
    (read : store.readShareContainer buffers name = some container)
    {first : ShareContainerCacheNode} (named : first.shareContainerName = name)
    (held : first.shareContainer.slice 0 container.length = container) :
    MostRecent store buffers (used ++ [name]) (cache.moveEvicted.setFirst first) := by
  rcases recents.moveEvicted_order with ⟨order, slots⟩
  have nodup : cache.moveEvicted.order.Nodup := slots.nodup_iff.mpr List.nodup_range
  rw [order] at nodup
  have other : ∀ slot ∈ cache.order.take (numOfCachedContainers - 1),
      (cache.moveEvicted.setFirst first).shareContainerCache slot =
        cache.shareContainerCache slot := by
    intro slot kept
    have different : slot ≠ cache.moveEvicted.shareContainerCacheIndex 0 :=
      fun same => (List.nodup_cons.mp nodup).1 (same ▸ kept)
    exact (Function.update_of_ne different first _).trans
      (congrFun moveEvicted_shareContainerCache slot)
  have front : (cache.moveEvicted.setFirst first).shareContainerCache
      (cache.moveEvicted.shareContainerCacheIndex 0) = first :=
    Function.update_self ..
  constructor
  · exact slots
  · have kept : (cache.order.take (numOfCachedContainers - 1)).map
        (cache.moveEvicted.setFirst first).slotName =
          cache.names.take (numOfCachedContainers - 1) := by
      rw [ContainerCache.names, ← List.map_take]
      apply List.map_congr_left
      intro slot listed
      rw [slotName, other slot listed, slotName]
    have miss := take_recent_miss (recents.names ▸ missing : name ∉ (recent used).take 4)
    rw [numOfCachedContainers, miss]
    have listed : (cache.moveEvicted.setFirst first).order = _ := order
    rw [ContainerCache.names, listed, List.map_cons, kept, recents.names, slotName, front,
      named]
    rfl
  · intro slot member
    have listed : slot ∈ cache.moveEvicted.order := member
    rw [order] at listed
    rcases List.mem_cons.mp listed with same | kept
    · rw [same, slotName, front, named]
      exact ⟨container, read, held⟩
    · rw [slotName, other slot kept]
      exact recents.contents slot (List.mem_of_mem_take kept)

/-! ## Access -/

private theorem readContainer_eq (read : store.readShareContainer buffers name = some container)
    (nonempty : container ≠ []) (fits : container.length ≤ containerBufferSize) :
    cache.readContainer store buffers name = .ok (cache.readInto container) := by
  rw [ShareStore.readShareContainer] at read
  rw [readContainer]
  cases buffered : ShareStore.readShareContainerFromBuffer buffers name with
  | some bytes =>
      rw [buffered, Option.some_or] at read
      cases read
      rfl
  | none =>
      rw [buffered, Option.none_or] at read
      have whole : container.take containerBufferSize = container :=
        List.take_of_length_le fits
      have some : ¬container.length = 0 := fun zero => nonempty (List.length_eq_zero_iff.mp zero)
      simp only [read, whole, if_neg some]

theorem MostRecent.access (recents : MostRecent store buffers used cache)
    (read : store.readShareContainer buffers name = some container)
    (nonempty : container ≠ []) (fits : container.length ≤ containerBufferSize) :
    ∃ next, cache.access store buffers name = .ok next ∧
      MostRecent store buffers (used ++ [name]) next := by
  have found := search_eq cache name cache.numOfCachedShareContainers 0 (Nat.zero_add _)
  rw [Nat.zero_add, List.drop_zero] at found
  rw [ContainerCache.access, found]
  by_cases cached : name ∈ cache.names
  · have inside := List.idxOf_lt_length_iff.mpr cached
    rw [names_length] at inside
    exact ⟨_, if_pos inside, recents.moveFound cached⟩
  · have outside := List.idxOf_eq_length cached
    rw [names_length] at outside
    rw [outside, if_neg (Nat.lt_irrefl _), readContainer_eq read nonempty fits]
    refine ⟨_, rfl, ?_⟩
    rw [readInto_setName]
    have held := Buffer.slice_write (cache.moveEvicted.node 0).shareContainer 0 container
    exact recents.setFirst cached read rfl held

end ContainerCache

/-! ## The restoration -/

structure CachedRestoration where
  cache : ContainerCache
  stream : ShareStream

/-- Before the first entry. `memory` is the allocated cache. -/
def CachedRestoration.start (memory : ContainerCache) (shareFileBuffer : Buffer Byte)
    (head : FileRecipeHead) : CachedRestoration where
  cache := { memory with numOfCachedShareContainers := 0 }
  stream := .start shareFileBuffer head

namespace ShareStore

variable (store : ShareStore) (buffers : List ShareContainerBuffer) (socket : Nat → Bool)

def restoreCachedShare (restoration : CachedRestoration) (entry : FileRecipeEntry) :
    Except CachedRestoration CachedRestoration :=
  match store.shareIndex entry.shareFP with
  | none => .error restoration
  | some value =>
      match restoration.cache.access store buffers value.shareContainerName with
      | .error cache => .error { restoration with cache }
      | .ok cache =>
          match restoration.stream.makeRoom socket value.shareSize with
          | .error stream => .error ⟨cache, stream⟩
          | .ok stream =>
              .ok ⟨cache, stream.putShare entry
                ((cache.node 0).shareContainer.slice value.shareContainerOffset
                  value.shareSize)⟩

def restoreCached (memory : ContainerCache) (shareFileBuffer : Buffer Byte)
    (head : FileRecipeHead) (entries : List FileRecipeEntry) :
    Except CachedRestoration CachedRestoration := do
  let restoration ← entries.foldlM (store.restoreCachedShare buffers socket)
    (.start memory shareFileBuffer head)
  match restoration.stream.finish socket with
  | .error stream => .error { restoration with stream }
  | .ok stream => .ok { restoration with stream }

/-- One pass of a loop without a cache: the share is read from its container. -/
def restoreShareAfresh (stream : ShareStream) (entry : FileRecipeEntry) :
    Except ShareStream ShareStream :=
  match store.shareIndex entry.shareFP with
  | none => .error stream
  | some value =>
      match store.readShare buffers value with
      | none => .error stream
      | some share => do
          let stream ← stream.makeRoom socket value.shareSize
          .ok (stream.putShare entry share)

/-- The messages a restoration sends if every share's container is read afresh. -/
def restoreAfresh (shareFileBuffer : Buffer Byte) (head : FileRecipeHead)
    (entries : List FileRecipeEntry) : Except ShareStream ShareStream := do
  let stream ← entries.foldlM (store.restoreShareAfresh buffers socket)
    (.start shareFileBuffer head)
  stream.finish socket

/-- Every index entry lies inside an existing container that is not empty and has at most
`CONTAINER_BUFFER_SIZE` bytes. -/
def Housed : Prop :=
  ∀ shareFP value, store.shareIndex shareFP = some value →
    ∃ container, store.readShareContainer buffers value.shareContainerName = some container ∧
      container ≠ [] ∧ container.length ≤ containerBufferSize ∧
      value.shareContainerOffset + value.shareSize ≤ container.length

def usedContainers (entries : List FileRecipeEntry) : List InternalFileName :=
  entries.filterMap fun entry =>
    (store.shareIndex entry.shareFP).map ShareIndexValue.shareContainerName

private theorem usedContainers_cons (entry : FileRecipeEntry) (entries : List FileRecipeEntry) :
    store.usedContainers (entry :: entries) =
      store.usedContainers [entry] ++ store.usedContainers entries :=
  List.filterMap_append (l := [entry])

variable {store buffers}

variable {value : ShareIndexValue} {container : List Byte}

theorem readShare_eq {node : Buffer Byte}
    (read : store.readShareContainer buffers value.shareContainerName = some container)
    (inside : value.shareContainerOffset + value.shareSize ≤ container.length)
    (held : node.slice 0 container.length = container) :
    store.readShare buffers value =
      some (node.slice value.shareContainerOffset value.shareSize) := by
  rw [readShare, read, Option.bind_some, region, if_pos inside]
  have split := Buffer.slice_add node 0 value.shareContainerOffset
    (container.length - value.shareContainerOffset)
  rw [Nat.add_sub_cancel' (by omega), held, Nat.zero_add] at split
  have skipped : container.drop value.shareContainerOffset =
      node.slice value.shareContainerOffset
        (container.length - value.shareContainerOffset) := by
    have dropped := congrArg (List.drop value.shareContainerOffset) split
    rwa [List.drop_left' (Buffer.slice_length ..)] at dropped
  rw [skipped, Buffer.slice_take _ _ (by omega)]

variable {used : List InternalFileName} {restoration : CachedRestoration}

/-- One pass with the cache does to the stream what the pass without it does, and the
cache has the containers that were used last. -/
theorem Housed.restoreCachedShare (housed : store.Housed buffers)
    (recents : restoration.cache.MostRecent store buffers used) (entry : FileRecipeEntry) :
    Loop.project CachedRestoration.stream
        (store.restoreCachedShare buffers socket restoration entry) =
      store.restoreShareAfresh buffers socket restoration.stream entry ∧
    ((store.shareIndex entry.shareFP = none ∧
        store.restoreCachedShare buffers socket restoration entry = .error restoration) ∨
      (Loop.outcome (store.restoreCachedShare buffers socket restoration entry)).cache.MostRecent
        store buffers (used ++ store.usedContainers [entry])) := by
  rw [ShareStore.restoreCachedShare, restoreShareAfresh, usedContainers]
  cases found : store.shareIndex entry.shareFP with
  | none => exact ⟨rfl, .inl ⟨rfl, rfl⟩⟩
  | some value =>
      rcases housed entry.shareFP value found with ⟨container, read, nonempty, fits, inside⟩
      rcases recents.access read nonempty fits with ⟨next, accessed, recents⟩
      rcases recents.first with ⟨held, again, content⟩
      cases read.symm.trans again
      have names : [entry].filterMap (fun entry =>
          (store.shareIndex entry.shareFP).map ShareIndexValue.shareContainerName) =
            [value.shareContainerName] := by
        simp [found]
      rw [names]
      simp only [accessed, readShare_eq read inside content]
      cases room : restoration.stream.makeRoom socket value.shareSize with
      | error stream => exact ⟨rfl, .inr recents⟩
      | ok stream => exact ⟨rfl, .inr recents⟩

theorem Housed.restoreCached_stream (housed : store.Housed buffers)
    (memory : ContainerCache) (shareFileBuffer : Buffer Byte) (head : FileRecipeHead)
    (entries : List FileRecipeEntry) :
    Loop.project CachedRestoration.stream
        (store.restoreCached buffers socket memory shareFileBuffer head entries) =
      store.restoreAfresh buffers socket shareFileBuffer head entries := by
  rw [restoreCached, restoreAfresh]
  apply Loop.project_bind
  · apply Loop.foldlM_project CachedRestoration.stream _ _ fun restoration =>
      ∃ used, restoration.cache.MostRecent store buffers used
    · rintro entry restoration ⟨used, recents⟩
      have pass := housed.restoreCachedShare socket recents entry
      refine ⟨pass.1, ?_⟩
      rcases pass.2 with ⟨_, failed⟩ | next
      · rw [failed]
        exact ⟨used, recents⟩
      · exact ⟨_, next⟩
    · exact ⟨[], .empty rfl⟩
  · cases ended : (Loop.outcome _ : CachedRestoration).stream.finish socket with
    | error stream => rfl
    | ok stream => rfl

/-- After any number of entries the cache has the containers that were used last. A loop
that has ended early is where it was after the last entry it could restore or send. -/
theorem Housed.restoreCached_recent (housed : store.Housed buffers)
    (recents : restoration.cache.MostRecent store buffers used)
    (entries : List FileRecipeEntry) :
    ∃ processed, processed <+: entries ∧
      ((entries.foldlM (store.restoreCachedShare buffers socket) restoration).isOk = true →
        processed = entries) ∧
      (Loop.outcome
        (entries.foldlM (store.restoreCachedShare buffers socket) restoration)).cache.MostRecent
        store buffers (used ++ store.usedContainers processed) := by
  induction entries generalizing used restoration with
  | nil => exact ⟨[], List.prefix_rfl, fun _ => rfl, (List.append_nil used).symm ▸ recents⟩
  | cons entry rest induction =>
      rw [List.foldlM_cons]
      rcases (housed.restoreCachedShare socket recents entry).2 with ⟨_, failed⟩ | next
      · rw [failed]
        exact ⟨[], List.nil_prefix, fun ok => absurd ok Bool.false_ne_true,
          (List.append_nil used).symm ▸ recents⟩
      · cases made : store.restoreCachedShare buffers socket restoration entry with
        | error stopped =>
            rw [made] at next
            exact ⟨[entry], List.cons_prefix_cons.mpr ⟨rfl, List.nil_prefix⟩,
              fun ok => absurd ok Bool.false_ne_true, next⟩
        | ok passed =>
            rw [made] at next
            rcases induction next with ⟨processed, before, whole, final⟩
            refine ⟨entry :: processed, List.cons_prefix_cons.mpr ⟨rfl, before⟩, ?_, ?_⟩
            · intro ok
              rw [whole ok]
            · rw [usedContainers_cons, ← List.append_assoc]
              exact final

/-- The restoration of a recipe sends what it sends without a cache, and after any number
of its entries the index is a permutation of the slots in use, most recently used first,
the names in them differ and every slot holds the container it names. -/
structure TransparentCache (store : ShareStore) (buffers : List ShareContainerBuffer)
    (socket : Nat → Bool) (memory : ContainerCache) (shareFileBuffer : Buffer Byte)
    (head : FileRecipeHead) (entries : List FileRecipeEntry) : Prop where
  stream : Loop.project CachedRestoration.stream
      (store.restoreCached buffers socket memory shareFileBuffer head entries) =
    store.restoreAfresh buffers socket shareFileBuffer head entries
  /-- `reached` is what the loop makes of the first entries; it may have ended before the
  last of them. -/
  throughout : ∀ passed, passed <+: entries →
    ∀ reached, reached = passed.foldlM (store.restoreCachedShare buffers socket)
      (.start memory shareFileBuffer head) →
    ∃ processed, processed <+: passed ∧ (reached.isOk = true → processed = passed) ∧
      (Loop.outcome reached).cache.MostRecent store buffers
        (store.usedContainers processed) ∧
      (Loop.outcome reached).cache.names.Nodup

theorem container_cache_transparent (housed : store.Housed buffers) (memory : ContainerCache)
    (shareFileBuffer : Buffer Byte) (head : FileRecipeHead)
    (entries : List FileRecipeEntry) :
    TransparentCache store buffers socket memory shareFileBuffer head entries := by
  constructor
  · exact housed.restoreCached_stream socket memory shareFileBuffer head entries
  · intro passed _ reached run
    have empty : ContainerCache.MostRecent store buffers []
        (CachedRestoration.start memory shareFileBuffer head).cache := .empty rfl
    rcases housed.restoreCached_recent socket empty passed with
      ⟨processed, before, whole, recents⟩
    rw [← run, List.nil_append] at recents
    rw [← run] at whole
    exact ⟨processed, before, whole, recents, recents.distinct⟩

/-- A store with a share of two bytes for every fingerprint, in a container that the
first byte selects. -/
def scatteredStore : ShareStore where
  shareIndex := fun shareFP =>
    some ⟨InternalFileName.drawnName (shareFP.bytes.headD 0).toNat, 1, 2, 1, [⟨1, 1⟩]⟩
  shareContainers := fun _ => some [7, 8, 9]
  globalShareContainerName := .initial

theorem scatteredStore_housed : scatteredStore.Housed [] := by
  intro shareFP value indexed
  cases indexed
  exact ⟨[7, 8, 9], rfl, by decide, by decide, Nat.le_refl 3⟩

private theorem replicate_size (byte : Byte) : (List.replicate fpSize byte).length = fpSize :=
  List.length_replicate

def scatteredEntry (byte : Byte) : FileRecipeEntry where
  shareFP := ⟨List.replicate fpSize byte, replicate_size byte⟩
  secretID := byte.toNat
  secretSize := 4

def clearedContainerCache : ContainerCache where
  shareContainerCache := fun _ => ⟨[], fun _ => 0⟩
  shareContainerCacheIndex := fun _ => 0
  numOfCachedShareContainers := 0

/-- Five containers, one of which is evicted and used again. -/
theorem container_cache_transparent_evicted :
    scatteredStore.Housed [] ∧
      TransparentCache scatteredStore [] (fun _ => true) clearedContainerCache (fun _ => 0)
        ⟨1, 24, 6⟩ ([0, 1, 2, 3, 4, 0].map scatteredEntry) :=
  ⟨scatteredStore_housed,
    container_cache_transparent (fun _ => true) scatteredStore_housed clearedContainerCache
      (fun _ => 0) ⟨1, 24, 6⟩ ([0, 1, 2, 3, 4, 0].map scatteredEntry)⟩

/-! ## The cache as a list

The restoration of `Server.RestoreShares` has the cached containers in a list. It sends
the same messages. -/

private theorem loadShareContainer_of_read {name : InternalFileName}
    (read : store.readShareContainer buffers name = some container)
    (nonempty : container ≠ []) : store.loadShareContainer buffers name = some container := by
  rw [readShareContainer] at read
  rw [loadShareContainer]
  cases buffered : readShareContainerFromBuffer buffers name with
  | some bytes =>
      rw [buffered, Option.some_or] at read
      rw [read, Option.some_or]
  | none =>
      rw [buffered, Option.none_or] at read
      rw [read, Option.none_or, Option.filter_some, if_pos (by simpa using nonempty)]

private theorem cachedShare_eq (stale : Buffer Byte)
    (read : store.readShareContainer buffers value.shareContainerName = some container)
    (inside : value.shareContainerOffset + value.shareSize ≤ container.length) :
    store.readShare buffers value = some (cachedShare stale container value) := by
  apply readShare_eq read inside
  apply List.ext_getElem
  · rw [Buffer.slice_length]
  · intro position _ bounded
    simp [Buffer.slice, List.getD_eq_getElem?_getD, List.getElem?_eq_getElem bounded]

/-- The list of recently used containers stands for the cache in its arrays. -/
theorem Housed.restoreShares_stream (housed : store.Housed buffers) (stale : Buffer Byte)
    (memory : ContainerCache) (shareFileBuffer : Buffer Byte) (head : FileRecipeHead)
    (entries : List FileRecipeEntry) :
    Loop.project Restoration.stream
        (store.restoreShares buffers socket stale shareFileBuffer head entries) =
      Loop.project CachedRestoration.stream
        (store.restoreCached buffers socket memory shareFileBuffer head entries) := by
  rw [housed.restoreCached_stream, restoreShares, restoreAfresh]
  apply Loop.project_bind
  · apply Loop.foldlM_project Restoration.stream _ _ fun restoration =>
      RecentCache.Faithful (store.loadShareContainer buffers)
        restoration.shareContainerCache
    · intro entry restoration faithful
      rw [restoreShare, restoreShareAfresh]
      cases found : store.shareIndex entry.shareFP with
      | none => exact ⟨rfl, faithful⟩
      | some value =>
          rcases housed entry.shareFP value found with ⟨container, read, nonempty, _, inside⟩
          have loaded := loadShareContainer_of_read read nonempty
          rcases faithful.fetch numOfCachedContainers value.shareContainerName with
            ⟨missing, _⟩ | ⟨held, next, loads, fetched, kept⟩
          · cases loaded.symm.trans missing
          · cases loaded.symm.trans loads
            simp only [fetched, cachedShare_eq stale read inside]
            cases restoration.stream.makeRoom socket value.shareSize with
            | error stream => exact ⟨rfl, kept⟩
            | ok stream => exact ⟨rfl, kept⟩
    · exact .nil
  · rw [finishRestore]
    cases (Loop.outcome _ : Restoration).stream.finish socket with
    | error stream => rfl
    | ok stream => rfl

theorem restoreShares_stream_evicted :
    Loop.project Restoration.stream
        (scatteredStore.restoreShares [] (fun _ => true) (fun _ => 0) (fun _ => 0) ⟨1, 24, 6⟩
          ([0, 1, 2, 3, 4, 0].map scatteredEntry)) =
      Loop.project CachedRestoration.stream
        (scatteredStore.restoreCached [] (fun _ => true) clearedContainerCache (fun _ => 0)
          ⟨1, 24, 6⟩ ([0, 1, 2, 3, 4, 0].map scatteredEntry)) :=
  scatteredStore_housed.restoreShares_stream _ _ _ _ _ _

end ShareStore

end MetaDedup.Server
