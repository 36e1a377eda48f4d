import MetaDedup.Server.RestoreShares
import MetaDedup.Server.ShareIntegrity

/-! # Containers only grow

A container is in a live buffer, in a file, or lost with a node whose flush has failed.
Whatever the store does later, a container that can be loaded stays so and only gets
longer, and the index keeps the places of the shares. So a share that could be restored
is restored with the same bytes. -/

namespace MetaDedup.Server

open Foundation Function

namespace ShareStore

variable {generateHash : List Byte → Fingerprint}
variable {before store : ShareStore} {buffer : ShareContainerBuffer}
variable {buffers rest beforeBuffers : List ShareContainerBuffer}

/-! ## Loading a container -/

variable {name : InternalFileName} {shareFP : Fingerprint} {value : ShareIndexValue}

private theorem loadShareContainer_of_mem
    (distinct : (buffers.map ShareContainerBuffer.shareContainerName).Nodup)
    (member : buffer ∈ buffers) :
    store.loadShareContainer buffers buffer.shareContainerName =
      some buffer.shareContainerBuffer := by
  rw [loadShareContainer, readShareContainerFromBuffer_of_mem distinct member,
    Option.some_or]

theorem loadShareContainer_of_absent
    (absent : ∀ buffer ∈ buffers, buffer.shareContainerName ≠ name) :
    store.loadShareContainer buffers name =
      (store.shareContainers name).filter (· ≠ []) := by
  rw [loadShareContainer, readShareContainerFromBuffer_of_absent absent, Option.none_or]

theorem loadShareContainer_cons_of_ne (different : buffer.shareContainerName ≠ name) :
    store.loadShareContainer (buffer :: rest) name = store.loadShareContainer rest name := by
  simp [loadShareContainer, readShareContainerFromBuffer, different]

theorem loadShareContainer_cons_self :
    store.loadShareContainer (buffer :: rest) buffer.shareContainerName =
      some buffer.shareContainerBuffer := by
  simp [loadShareContainer, readShareContainerFromBuffer]

theorem loadShareContainer_perm {reordered : List ShareContainerBuffer}
    (distinct : (buffers.map ShareContainerBuffer.shareContainerName).Nodup)
    (permuted : reordered.Perm buffers) :
    store.loadShareContainer reordered = store.loadShareContainer buffers := by
  have distinct' := (permuted.map ShareContainerBuffer.shareContainerName).nodup_iff.mpr
    distinct
  funext name
  by_cases live : ∃ buffer ∈ buffers, buffer.shareContainerName = name
  · rcases live with ⟨buffer, member, rfl⟩
    rw [loadShareContainer_of_mem distinct' (permuted.mem_iff.mpr member),
      loadShareContainer_of_mem distinct member]
  · have absent : ∀ buffer ∈ buffers, buffer.shareContainerName ≠ name := by
      simpa using live
    rw [loadShareContainer_of_absent absent, loadShareContainer_of_absent]
    exact fun buffer member => absent buffer (permuted.mem_iff.mp member)

private theorem loadShareContainer_congr {other : ShareStore}
    (same : other.shareContainers name = store.shareContainers name) :
    other.loadShareContainer buffers name = store.loadShareContainer buffers name := by
  rw [loadShareContainer, loadShareContainer, same]

theorem writeContainer_shareContainers (name : InternalFileName) (bytes : List Byte) :
    (store.writeContainer name bytes).shareContainers name = some bytes :=
  update_self _ _ _

/-! ## Names and places -/

/-- Shares in the index have names handed out before. The share of an index value lies
within its container, if there still is one. -/
structure Placed (store : ShareStore) (buffers : List ShareContainerBuffer) : Prop
    extends Named store buffers where
  valueIssued : ∀ shareFP value, store.shareIndex shareFP = some value →
    store.globalShareContainerName.Issued value.shareContainerName
  inside : ∀ shareFP value, store.shareIndex shareFP = some value →
    ∀ container ∈ store.loadShareContainer buffers value.shareContainerName,
      value.shareContainerOffset + value.shareSize ≤ container.length

theorem placed_empty : empty.Placed [] where
  toNamed := named_empty
  valueIssued := fun _ _ found => nomatch found
  inside := fun _ _ found => nomatch found

namespace Placed

variable {name : InternalFileName} {container : List Byte}

private theorem loadIssued (placed : store.Placed buffers)
    (loads : store.loadShareContainer buffers name = some container) :
    store.globalShareContainerName.Issued name := by
  by_cases live : ∃ buffer ∈ buffers, buffer.shareContainerName = name
  · rcases live with ⟨buffer, member, rfl⟩
    exact placed.bufferIssued buffer member
  · have absent : ∀ buffer ∈ buffers, buffer.shareContainerName ≠ name := by
      simpa using live
    apply placed.fileIssued
    intro missing
    rw [loadShareContainer_of_absent absent, missing] at loads
    cases loads

private theorem perm (placed : store.Placed buffers) {reordered : List ShareContainerBuffer}
    (permuted : reordered.Perm buffers) : store.Placed reordered where
  toNamed := placed.toNamed.perm permuted
  valueIssued := placed.valueIssued
  inside := by
    rw [loadShareContainer_perm placed.distinct permuted]
    exact placed.inside

private theorem load_of_lose (placed : store.Placed (buffer :: rest))
    (loads : store.loadShareContainer rest name = some container) :
    store.loadShareContainer (buffer :: rest) name = some container := by
  have different : buffer.shareContainerName ≠ name := by
    rintro rfl
    rw [loadShareContainer_of_absent placed.toNamed.others_ne,
      placed.unfiled buffer List.mem_cons_self] at loads
    cases loads
  rw [loadShareContainer_cons_of_ne different, loads]

theorem lose (placed : store.Placed (buffer :: rest)) : store.Placed rest where
  toNamed := placed.toNamed.lose
  valueIssued := placed.valueIssued
  inside := fun shareFP value found container loads =>
    placed.inside shareFP value found container (placed.load_of_lose loads)

theorem flush_load_of_ne (different : buffer.shareContainerName ≠ name) :
    (store.flushContainer buffer).loadShareContainer rest name =
      store.loadShareContainer (buffer :: rest) name := by
  rw [loadShareContainer_cons_of_ne different]
  exact loadShareContainer_congr
    (flushContainer_shareContainers_of_ne store buffer different.symm)

private theorem flush_load (placed : store.Placed (buffer :: rest))
    (loads : store.loadShareContainer (buffer :: rest) name = some container)
    (nonempty : container ≠ []) :
    (store.flushContainer buffer).loadShareContainer rest name = some container := by
  by_cases own : buffer.shareContainerName = name
  · subst own
    cases loadShareContainer_cons_self.symm.trans loads
    rw [loadShareContainer_of_absent placed.toNamed.others_ne, flushContainer,
      if_pos (List.length_pos_iff.mpr nonempty), writeContainer_shareContainers]
    exact Option.filter_some_pos (by simpa using nonempty)
  · rw [flush_load_of_ne own, loads]

private theorem load_of_flush (placed : store.Placed (buffer :: rest))
    (loads : (store.flushContainer buffer).loadShareContainer rest name = some container) :
    store.loadShareContainer (buffer :: rest) name = some container := by
  by_cases own : buffer.shareContainerName = name
  · subst own
    rw [loadShareContainer_of_absent placed.toNamed.others_ne, flushContainer] at loads
    split at loads
    · rw [writeContainer_shareContainers, Option.filter_eq_some_iff] at loads
      rw [loadShareContainer_cons_self]
      exact loads.1
    · rw [placed.unfiled buffer List.mem_cons_self] at loads
      cases loads
  · rw [← flush_load_of_ne own, loads]

private theorem flush (placed : store.Placed (buffer :: rest)) :
    (store.flushContainer buffer).Placed rest where
  toNamed := placed.toNamed.flush
  valueIssued := by simpa using placed.valueIssued
  inside := by
    intro shareFP value found container loads
    rw [flushContainer_shareIndex] at found
    exact placed.inside shareFP value found container (placed.load_of_flush loads)

private theorem create (placed : store.Placed rest)
    (left : store.globalShareContainerName.drawn < 26 ^ fileNameValidLen) (userID : Int) :
    store.drawContainerName.2.Placed (⟨userID, store.drawContainerName.1, []⟩ :: rest) where
  toNamed := placed.toNamed.create left userID
  valueIssued := fun shareFP value found => (placed.valueIssued shareFP value found).draw
  inside := by
    intro shareFP value found container loads
    have different : store.drawContainerName.1 ≠ value.shareContainerName := by
      intro equal
      exact store.globalShareContainerName.draw_fresh left
        (equal ▸ placed.valueIssued shareFP value found)
    rw [loadShareContainer_cons_of_ne different] at loads
    exact placed.inside shareFP value found container loads

private theorem refer (placed : store.Placed buffers) {shareFP : Fingerprint}
    {value updated : ShareIndexValue} (found : store.shareIndex shareFP = some value)
    (same : updated.place = value.place) : (store.put shareFP updated).Placed buffers := by
  rcases ShareIndexValue.of_place_eq same with ⟨name, offset, size⟩
  constructor
  case toNamed => exact placed.toNamed.put (size ▸ placed.sized shareFP value found)
  case valueIssued =>
    intro other listed there
    rcases put_listed there with rfl | old
    · rw [name]
      exact placed.valueIssued shareFP value found
    · exact placed.valueIssued other listed old
  case inside =>
    intro other listed there
    rcases put_listed there with rfl | old
    · rw [name, offset, size]
      exact placed.inside shareFP value found
    · exact placed.inside other listed old

private theorem append_load (share : List Byte)
    (loads : store.loadShareContainer (buffer :: rest) name = some container) :
    ∃ appended, store.loadShareContainer
      ({ buffer with shareContainerBuffer := buffer.shareContainerBuffer ++ share } :: rest)
        name = some (container ++ appended) := by
  by_cases own : buffer.shareContainerName = name
  · subst own
    cases loadShareContainer_cons_self.symm.trans loads
    exact ⟨share, loadShareContainer_cons_self⟩
  · refine ⟨[], ?_⟩
    rw [loadShareContainer_cons_of_ne own] at loads
    rw [List.append_nil, ← loads]
    exact loadShareContainer_cons_of_ne own

private theorem addNewShare (placed : store.Placed (buffer :: rest)) {share : List Byte}
    (positive : 0 < share.length) (shareFP : Fingerprint) (userID : Int) :
    (store.addNewShare buffer shareFP userID share).1.Placed
      ((store.addNewShare buffer shareFP userID share).2 :: rest) := by
  let grown : ShareContainerBuffer :=
    { buffer with shareContainerBuffer := buffer.shareContainerBuffer ++ share }
  constructor
  case toNamed => exact placed.toNamed.addNewShare positive shareFP userID
  case valueIssued =>
    intro other listed there
    rcases put_listed there with rfl | old
    · exact placed.bufferIssued buffer List.mem_cons_self
    · exact placed.valueIssued other listed old
  case inside =>
    intro other listed there container loads
    change store.loadShareContainer (grown :: rest) listed.shareContainerName =
      some container at loads
    have whole : ∀ {name}, buffer.shareContainerName = name →
        store.loadShareContainer (grown :: rest) name = some container →
        container.length = buffer.shareContainerBuffer.length + share.length := by
      rintro name rfl loads
      rw [← List.length_append]
      exact congrArg List.length
        (Option.some.inj (loads.symm.trans (@loadShareContainer_cons_self store grown rest)))
    rcases put_listed there with rfl | old
    · exact Nat.le_of_eq (whole rfl loads).symm
    · by_cases same : buffer.shareContainerName = listed.shareContainerName
      · have within := placed.inside other listed old buffer.shareContainerBuffer
          (same ▸ loadShareContainer_cons_self)
        rw [whole same loads]
        exact Nat.le_add_right_of_le within
      · apply placed.inside other listed old
        rw [loadShareContainer_cons_of_ne same]
        rwa [@loadShareContainer_cons_of_ne store grown rest _ same] at loads

end Placed

/-! ## Growth -/

/-- What has become of an earlier store: the index has the places it had, and what could
be loaded is the beginning of what can be loaded now. -/
structure Grown (before : ShareStore) (beforeBuffers : List ShareContainerBuffer)
    (store : ShareStore) (buffers : List ShareContainerBuffer) : Prop where
  start : before.Placed beforeBuffers
  placed : store.Placed buffers
  kept : ∀ shareFP value, before.shareIndex shareFP = some value →
    ∃ current, store.shareIndex shareFP = some current ∧ current.place = value.place
  loads : ∀ name container, before.loadShareContainer beforeBuffers name = some container →
    container ≠ [] →
      ∃ appended, store.loadShareContainer buffers name = some (container ++ appended)

theorem Placed.grown (placed : store.Placed buffers) : store.Grown buffers store buffers where
  start := placed
  placed := placed
  kept := fun _ value found => ⟨value, found, rfl⟩
  loads := fun _ container loads _ => ⟨[], by rw [List.append_nil, loads]⟩

theorem Grown.kept_put (grown : before.Grown beforeBuffers store buffers)
    {updated : ShareIndexValue}
    (same : ∀ value, store.shareIndex shareFP = some value → updated.place = value.place)
    (other : Fingerprint) (value : ShareIndexValue)
    (found : before.shareIndex other = some value) :
    ∃ current, (store.put shareFP updated).shareIndex other = some current ∧
      current.place = value.place := by
  rcases grown.kept other value found with ⟨current, there, place⟩
  by_cases equal : other = shareFP
  · subst equal
    exact ⟨updated, update_self _ _ _, (same current there).trans place⟩
  · exact ⟨current, (update_of_ne equal _ _).trans there, place⟩

/-- Every operation of the store keeps the growth, for as long as names are left. -/
theorem grown_preserved (before : ShareStore) (beforeBuffers : List ShareContainerBuffer) :
    Preserved generateHash fun store buffers =>
      store.globalShareContainerName.drawn < 26 ^ fileNameValidLen →
        before.Grown beforeBuffers store buffers where
  perm := by
    intro store buffers reordered permuted holds left
    have grown := holds left
    refine ⟨grown.start, grown.placed.perm permuted, grown.kept, ?_⟩
    rw [loadShareContainer_perm grown.placed.distinct permuted]
    exact grown.loads
  refer := by
    intro store buffers shareFP value userID found holds left
    have grown := holds left
    have same := ShareIndexValue.place_addReference value userID
    refine ⟨grown.start, grown.placed.refer found same, grown.kept_put ?_, grown.loads⟩
    intro listed there
    rw [found, Option.some.injEq] at there
    rw [← there]
    exact same
  flush := by
    intro store buffer rest holds left
    rw [flushContainer_globalShareContainerName] at left
    have grown := holds left
    refine ⟨grown.start, grown.placed.flush, by simpa using grown.kept, ?_⟩
    intro name container loads nonempty
    rcases grown.loads name container loads nonempty with ⟨appended, current⟩
    exact ⟨appended, grown.placed.flush_load current
      (List.append_ne_nil_of_left_ne_nil nonempty appended)⟩
  create := by
    intro store rest userID holds left
    have earlier : store.globalShareContainerName.drawn < 26 ^ fileNameValidLen :=
      Nat.lt_of_succ_lt left
    have grown := holds earlier
    refine ⟨grown.start, grown.placed.create earlier userID, grown.kept, ?_⟩
    intro name container loads nonempty
    rcases grown.loads name container loads nonempty with ⟨appended, current⟩
    have different : store.drawContainerName.1 ≠ name := by
      rintro rfl
      exact store.globalShareContainerName.draw_fresh earlier (grown.placed.loadIssued current)
    refine ⟨appended, ?_⟩
    rw [loadShareContainer_cons_of_ne different]
    exact current
  addNewShare := by
    intro store buffer rest share userID absent positive _ holds left
    have grown := holds left
    refine ⟨grown.start, grown.placed.addNewShare positive _ userID, grown.kept_put ?_, ?_⟩
    · intro value there
      cases absent.symm.trans there
    · intro name container loads nonempty
      rcases grown.loads name container loads nonempty with ⟨appended, current⟩
      rcases Placed.append_load share current with ⟨more, longer⟩
      exact ⟨appended ++ more, by rw [← List.append_assoc]; exact longer⟩

/-! ## Restoring from a store that has grown -/

private theorem cachedShare_append (stale : Buffer Byte) {container : List Byte}
    (appended : List Byte)
    (inside : value.shareContainerOffset + value.shareSize ≤ container.length) :
    cachedShare stale (container ++ appended) value = cachedShare stale container value := by
  rw [cachedShare, cachedShare]
  apply Buffer.slice_congr
  intro position below
  rw [List.getD_eq_getElem?_getD, List.getD_eq_getElem?_getD,
    List.getElem?_append_left (by omega)]

/-- A pass of the loop that succeeds gives the same messages later. -/
theorem Grown.restoreShare (grown : before.Grown beforeBuffers store buffers)
    (socket : Nat → Bool) (stale : Buffer Byte) {early late : Restoration}
    (earlyFaithful : RecentCache.Faithful (before.loadShareContainer beforeBuffers)
      early.shareContainerCache)
    (lateFaithful : RecentCache.Faithful (store.loadShareContainer buffers)
      late.shareContainerCache)
    (same : late.stream = early.stream) {entry : FileRecipeEntry} {next : Restoration}
    (restores : before.restoreShare beforeBuffers socket stale early entry = .ok next) :
    ∃ lateNext, store.restoreShare buffers socket stale late entry = .ok lateNext ∧
      lateNext.stream = next.stream ∧
      RecentCache.Faithful (before.loadShareContainer beforeBuffers)
        next.shareContainerCache ∧
      RecentCache.Faithful (store.loadShareContainer buffers)
        lateNext.shareContainerCache := by
  rw [ShareStore.restoreShare] at restores
  cases found : before.shareIndex entry.shareFP with
  | none =>
      rw [found] at restores
      cases restores
  | some value =>
      rw [found] at restores
      rcases grown.kept _ value found with ⟨current, there, place⟩
      rcases ShareIndexValue.of_place_eq place with ⟨name, offset, size⟩
      rcases earlyFaithful.fetch numOfCachedContainers value.shareContainerName with
        ⟨_, missing⟩ | ⟨container, cache, loads, fetched, faithful⟩
      · simp only [missing] at restores
        cases restores
      · have inside := grown.start.inside _ value found container loads
        have nonempty : container ≠ [] := by
          rintro rfl
          have positive := grown.start.sized _ value found
          rw [List.length_nil] at inside
          omega
        rcases grown.loads _ container loads nonempty with ⟨appended, lateLoads⟩
        rcases lateFaithful.fetch numOfCachedContainers value.shareContainerName with
          ⟨missing, _⟩ | ⟨longer, lateCache, loadsLonger, lateFetched, lateNextFaithful⟩
        · cases lateLoads.symm.trans missing
        · cases lateLoads.symm.trans loadsLonger
          have share : cachedShare stale (container ++ appended) current =
              cachedShare stale container value := by
            rw [← cachedShare_append stale appended inside, cachedShare, cachedShare, offset,
              size]
          rw [ShareStore.restoreShare, there]
          simp only [fetched] at restores
          simp only [name, lateFetched, size, same, share]
          cases room : early.stream.makeRoom socket value.shareSize with
          | error stream =>
              rw [room] at restores
              cases restores
          | ok stream =>
              rw [room] at restores
              cases restores
              exact ⟨_, rfl, rfl, faithful, lateNextFaithful⟩

theorem finishRestore_of_stream_eq {socket : Nat → Bool} {early late final : Restoration}
    (same : late.stream = early.stream) (finished : finishRestore socket early = .ok final) :
    ∃ lateFinal, finishRestore socket late = .ok lateFinal ∧
      lateFinal.stream = final.stream := by
  rw [finishRestore] at finished ⊢
  rw [same]
  cases ended : early.stream.finish socket with
  | error left =>
      rw [ended] at finished
      cases finished
  | ok left =>
      rw [ended] at finished
      cases finished
      exact ⟨_, rfl, rfl⟩

end ShareStore

end MetaDedup.Server
