import Mathlib.Data.List.Basic
import MetaDedup.Server.RecipeStore

/-! # Entering files into the inode index

Entering a version of a file puts it in front of the older ones. Everything else it
changes is directories, and it only adds to them. -/

namespace MetaDedup.Server

open Function

variable {generateHash : List Byte → Fingerprint}

def newestVersion (index : InodeIndex) (inodeFP : Fingerprint) : Option InodeFileEntry :=
  (index inodeFP).bind fun value => value.version 0

namespace InodeIndexValue

/-- The number of versions of a file. -/
def versions (value : InodeIndexValue) : Nat :=
  value.entries.countP fun entry => entry matches .file _

/-- The value holds everything an older one did, after newer versions and before new
children. -/
def Extends (current older : InodeIndexValue) : Prop :=
  ∃ (newer : List InodeFileEntry) (children : List Fingerprint),
    current.entries = newer.map .file ++ older.entries ++ children.map .dir ∧
    current.numOfChildren = newer.length + older.numOfChildren + children.length

theorem Extends.refl (value : InodeIndexValue) : value.Extends value :=
  ⟨[], [], by simp, by simp⟩

variable {current older : InodeIndexValue}

theorem Extends.trans {middle : InodeIndexValue}
    (later : current.Extends middle) (earlier : middle.Extends older) :
    current.Extends older := by
  rcases later with ⟨newer, children, entries, count⟩
  rcases earlier with ⟨newer', children', entries', count'⟩
  refine ⟨newer ++ newer', children' ++ children, ?_, ?_⟩
  · rw [entries, entries']
    simp only [List.map_append, List.append_assoc]
  · rw [count, count', List.length_append, List.length_append]
    omega

variable {place : InodeFileEntry}

theorem Extends.version (extends_ : current.Extends older)
    {age : Nat} (found : older.version age = some place)
    (counted : age < older.numOfChildren) :
    ∃ newer, current.versions = newer + older.versions ∧
      current.version (newer + age) = some place ∧ newer + age < current.numOfChildren := by
  rcases extends_ with ⟨newer, children, entries, count⟩
  refine ⟨newer.length, by simp [versions, entries, List.countP_map, Function.comp_def], ?_,
    by omega⟩
  have inside : age < older.entries.length := by
    by_contra outside
    rw [InodeIndexValue.version, List.getElem?_eq_none (by omega)] at found
    cases found
  rw [InodeIndexValue.version, entries, List.append_assoc,
    List.getElem?_append_right (by rw [List.length_map]; omega), List.length_map,
    Nat.add_sub_cancel_left, List.getElem?_append_left inside]
  exact found

theorem version_mem {value : InodeIndexValue} {age : Nat}
    (found : value.version age = some place) :
    .file place ∈ value.entries := by
  rw [InodeIndexValue.version] at found
  split at found
  · next entry located =>
      rw [Option.some.injEq] at found
      rw [← found]
      exact List.mem_of_getElem? located
  · cases found

end InodeIndexValue

/-- Every value of the older index is extended in the current one. -/
def InodeIndex.Extends (current older : InodeIndex) : Prop :=
  ∀ inodeFP value, older inodeFP = some value →
    ∃ updated, current inodeFP = some updated ∧ updated.Extends value

theorem InodeIndex.Extends.refl (index : InodeIndex) : InodeIndex.Extends index index :=
  fun _ value found => ⟨value, found, .refl value⟩

theorem InodeIndex.Extends.trans {current middle older : InodeIndex}
    (later : InodeIndex.Extends current middle)
    (earlier : InodeIndex.Extends middle older) : InodeIndex.Extends current older := by
  intro inodeFP value found
  rcases earlier inodeFP value found with ⟨between, foundBetween, first⟩
  rcases later inodeFP between foundBetween with ⟨updated, foundUpdated, second⟩
  exact ⟨updated, foundUpdated, second.trans first⟩

variable {index : InodeIndex}

theorem InodeIndex.extends_update {inodeFP : Fingerprint} {updated : InodeIndexValue}
    (grows : ∀ value, index inodeFP = some value → updated.Extends value) :
    InodeIndex.Extends (update index inodeFP (some updated)) index := by
  intro other value found
  by_cases equal : other = inodeFP
  · subst equal
    exact ⟨updated, update_self _ _ _, grows value found⟩
  · exact ⟨value, by rw [update_of_ne equal, found], .refl value⟩

/-! ## Directories -/

private theorem addChild_extends (userID : Int) (state : InodeIndex × Fingerprint)
    (dirName : List Byte) :
    InodeIndex.Extends (addChild generateHash userID state dirName).1 state.1 := by
  rw [addChild]
  cases found : state.1 (fileName2InodeFP generateHash dirName userID) with
  | none =>
      apply InodeIndex.extends_update
      intro value there
      cases found.symm.trans there
  | some value =>
      by_cases listed : .dir state.2 ∈ value.entries.take value.numOfChildren
      · simp only [if_pos listed]
        exact .refl _
      · simp only [if_neg listed]
        apply InodeIndex.extends_update
        intro older there
        cases found.symm.trans there
        exact ⟨[], [state.2], by simp, by simp⟩

private theorem addChild_newestVersion (userID : Int) (state : InodeIndex × Fingerprint)
    (dirName : List Byte) (inodeFP : Fingerprint) :
    newestVersion (addChild generateHash userID state dirName).1 inodeFP =
      newestVersion state.1 inodeFP := by
  by_cases other : inodeFP = fileName2InodeFP generateHash dirName userID
  · subst other
    rw [addChild]
    cases found : state.1 (fileName2InodeFP generateHash dirName userID) with
    | none => simp [newestVersion, found, InodeIndexValue.version]
    | some value =>
        by_cases listed : .dir state.2 ∈ value.entries.take value.numOfChildren
        · simp [newestVersion, listed]
        · simp only [if_neg listed, newestVersion, update_self, found,
            Option.bind_some, InodeIndexValue.version]
          cases value.entries <;> rfl
  · rw [addChild]
    cases state.1 (fileName2InodeFP generateHash dirName userID) with
    | none => simp [newestVersion, other]
    | some value =>
        by_cases listed : .dir state.2 ∈ value.entries.take value.numOfChildren
        · simp [listed]
        · simp [newestVersion, listed, other]

private theorem addChildren_extends (userID : Int) (directories : List (List Byte))
    (state : InodeIndex × Fingerprint) :
    InodeIndex.Extends (directories.foldl (addChild generateHash userID) state).1
      state.1 := by
  let keeps (reached : InodeIndex × Fingerprint) := InodeIndex.Extends reached.1 state.1
  refine List.foldlRecOn (motive := keeps) directories _ (.refl state.1) ?_
  intro reached extends_ dirName _
  exact (addChild_extends userID reached dirName).trans extends_

private theorem addChildren_newestVersion (userID : Int) (directories : List (List Byte))
    (state : InodeIndex × Fingerprint) (inodeFP : Fingerprint) :
    newestVersion (directories.foldl (addChild generateHash userID) state).1 inodeFP =
      newestVersion state.1 inodeFP := by
  let keeps (reached : InodeIndex × Fingerprint) :=
    newestVersion reached.1 inodeFP = newestVersion state.1 inodeFP
  refine List.foldlRecOn (motive := keeps) directories _ rfl ?_
  intro reached same dirName _
  exact (addChild_newestVersion userID reached dirName inodeFP).trans same

/-! ## Files -/

theorem addFileIntoInodeIndex_extends (index : InodeIndex) (fullFileName : List Byte)
    (userID : Int) (entry : InodeFileEntry) :
    InodeIndex.Extends
      (addFileIntoInodeIndex generateHash index fullFileName userID entry) index := by
  rw [addFileIntoInodeIndex]
  cases found : index (fileName2InodeFP generateHash fullFileName userID) with
  | some value =>
      apply InodeIndex.extends_update
      intro older there
      cases found.symm.trans there
      exact ⟨[entry], [], by simp, by simp [Nat.add_comm]⟩
  | none =>
      refine (addChildren_extends userID _ _).trans (InodeIndex.extends_update ?_)
      intro value there
      cases found.symm.trans there

theorem addFileIntoInodeIndex_newestVersion (index : InodeIndex)
    (fullFileName : List Byte) (userID : Int) (entry : InodeFileEntry)
    (inodeFP : Fingerprint) :
    newestVersion (addFileIntoInodeIndex generateHash index fullFileName userID entry)
      inodeFP =
    if inodeFP = fileName2InodeFP generateHash fullFileName userID then some entry
    else newestVersion index inodeFP := by
  rw [addFileIntoInodeIndex]
  cases found : index (fileName2InodeFP generateHash fullFileName userID) with
  | some value =>
      by_cases own : inodeFP = fileName2InodeFP generateHash fullFileName userID
      · simp [newestVersion, own, InodeIndexValue.version]
      · simp [newestVersion, own]
  | none =>
      simp only [addChildren_newestVersion]
      by_cases own : inodeFP = fileName2InodeFP generateHash fullFileName userID
      · simp [newestVersion, own, InodeIndexValue.version]
      · simp [newestVersion, own]

/-! ## Counts -/

def InodeIndex.Counted (index : InodeIndex) : Prop :=
  ∀ inodeFP value, index inodeFP = some value → 0 < value.numOfChildren

theorem InodeIndex.Counted.update (counted : index.Counted)
    (inodeFP : Fingerprint) {value : InodeIndexValue} (positive : 0 < value.numOfChildren) :
    InodeIndex.Counted (update index inodeFP (some value)) := by
  intro other updated found
  by_cases equal : other = inodeFP
  · rw [equal, update_self, Option.some.injEq] at found
    rw [← found]
    exact positive
  · rw [update_of_ne equal] at found
    exact counted other updated found

private theorem addChild_counted (userID : Int) {state : InodeIndex × Fingerprint}
    (counted : state.1.Counted) (dirName : List Byte) :
    (addChild generateHash userID state dirName).1.Counted := by
  rw [addChild]
  cases state.1 (fileName2InodeFP generateHash dirName userID) with
  | none => exact counted.update _ Nat.one_pos
  | some value =>
      by_cases listed : .dir state.2 ∈ value.entries.take value.numOfChildren
      · simp only [if_pos listed]
        exact counted
      · simp only [if_neg listed]
        exact counted.update _ (Nat.succ_pos _)

theorem addFileIntoInodeIndex_counted (counted : index.Counted)
    (fullFileName : List Byte) (userID : Int) (entry : InodeFileEntry) :
    (addFileIntoInodeIndex generateHash index fullFileName userID entry).Counted := by
  rw [addFileIntoInodeIndex]
  cases index (fileName2InodeFP generateHash fullFileName userID) with
  | some value => exact counted.update _ (Nat.succ_pos _)
  | none =>
      let keeps (reached : InodeIndex × Fingerprint) := reached.1.Counted
      refine List.foldlRecOn (motive := keeps) (dirNames fullFileName) _
        (counted.update _ Nat.one_pos) ?_
      intro reached reachedCounted dirName _
      exact addChild_counted userID reachedCounted dirName

/-! ## All versions -/

def InodeIndex.AllVersions (property : InodeFileEntry → Prop) (index : InodeIndex) : Prop :=
  ∀ inodeFP value place, index inodeFP = some value → .file place ∈ value.entries →
    property place

section AllVersions

variable {property : InodeFileEntry → Prop} {index : InodeIndex}

theorem InodeIndex.AllVersions.update (all : index.AllVersions property)
    (inodeFP : Fingerprint) {value : InodeIndexValue}
    (new : ∀ place, .file place ∈ value.entries → property place) :
    InodeIndex.AllVersions property (update index inodeFP (some value)) := by
  intro other updated place found listed
  by_cases equal : other = inodeFP
  · rw [equal, update_self, Option.some.injEq] at found
    rw [← found] at listed
    exact new place listed
  · rw [update_of_ne equal] at found
    exact all other updated place found listed

private theorem addChild_allVersions (userID : Int) {state : InodeIndex × Fingerprint}
    (all : state.1.AllVersions property) (dirName : List Byte) :
    (addChild generateHash userID state dirName).1.AllVersions property := by
  rw [addChild]
  cases found : state.1 (fileName2InodeFP generateHash dirName userID) with
  | none =>
      apply all.update
      intro place listed
      cases List.mem_singleton.mp listed
  | some value =>
      by_cases listed : .dir state.2 ∈ value.entries.take value.numOfChildren
      · simp only [if_pos listed]
        exact all
      · simp only [if_neg listed]
        apply all.update
        intro place member
        rcases List.mem_append.mp member with old | new
        · exact all _ value place found old
        · cases List.mem_singleton.mp new

theorem addFileIntoInodeIndex_allVersions (all : index.AllVersions property)
    (fullFileName : List Byte) (userID : Int) {entry : InodeFileEntry}
    (new : property entry) :
    (addFileIntoInodeIndex generateHash index fullFileName userID entry).AllVersions
      property := by
  rw [addFileIntoInodeIndex]
  cases found : index (fileName2InodeFP generateHash fullFileName userID) with
  | some value =>
      apply all.update
      intro place member
      rcases List.mem_cons.mp member with equal | old
      · cases equal
        exact new
      · exact all _ value place found old
  | none =>
      let keeps (reached : InodeIndex × Fingerprint) := reached.1.AllVersions property
      refine List.foldlRecOn (motive := keeps) (dirNames fullFileName) _
        (all.update _ ?_) ?_
      · intro place member
        cases List.mem_singleton.mp member
        exact new
      · intro reached reachedAll dirName _
        exact addChild_allVersions userID reachedAll dirName

end AllVersions

theorem findOldRecipeFile_eq (recipes : RecipeStore) (buffer : RecipeBuffer) :
    recipes.findOldRecipeFile buffer =
      newestVersion recipes.inodeIndex buffer.lastInodeFP := rfl

end MetaDedup.Server
