import MetaDedup.Foundation.SlidingWindow
import MetaDedup.Server.RecipeWindow

/-! # The bytes of a recipe in `restoreShareFile`

`DedupCore::restoreShareFile` reads a recipe through `recipeFileBuffer`, an array of
`RECIPE_BUFFER_SIZE` bytes that starts with anything `malloc` has left in it. The test for
a complete entry always compares with the size of the whole array, also when the end of
the file has filled only a part of it. What is done with an entry is a parameter: the loop
hands it the bytes of the entry, and it may end the loop. -/

namespace MetaDedup.Server.RecipeBytes

open Foundation
open Wire (recipeHeadAt recipeRecordAt)

/-- What the function prints when it cannot go on reading. -/
inductive ReadFailure
  | failToRead
  | incompleteInBuffer
  deriving DecidableEq

/-- Where the recipe is found: in the buffer of the user, or in a file. -/
inductive RecipeSource
  | buffered (recipe : List Byte)
  | file (recipe : List Byte)

def RecipeSource.bytes : RecipeSource → List Byte
  | .buffered recipe => recipe
  | .file recipe => recipe

def RecipeSource.recipeFileIsInBuffer : RecipeSource → Bool
  | .buffered _ => true
  | .file _ => false

/-- A recipe in the buffer of a user is not longer than the buffer. -/
def RecipeSource.Fits : RecipeSource → Prop
  | .buffered recipe => recipe.length ≤ recipeBufferSize
  | .file _ => True

def openRecipe (recipeFileBuffer : Buffer Byte) (recipeFileOffset : Nat) :
    RecipeSource → Except ReadFailure (SlidingWindow Byte)
  | .buffered recipe =>
      .ok
        { memory := recipeFileBuffer.write 0 recipe
          offset := recipeFileOffset
          unread := [] }
  | .file recipe =>
      match SlidingWindow.openAt recipeBufferSize recipeFileBuffer recipe recipeFileOffset with
      | none => .error .failToRead
      | some window => .ok window

/-- Make sure that a complete entry is in `recipeFileBuffer`. -/
def refill (recipeFileIsInBuffer : Bool) (window : SlidingWindow Byte) :
    Except ReadFailure (SlidingWindow Byte) :=
  if window.offset + fileRecipeEntrySize > recipeBufferSize then
    if recipeFileIsInBuffer then .error .incompleteInBuffer
    else
      match window.slide recipeBufferSize with
      | none => .error .failToRead
      | some next => .ok next
  else .ok window

section Loop

variable {σ : Type u} {ε : Type v} (process : σ → List Byte → Except ε σ)

/-- The loop over the shares, with `process` as the rest of its body. -/
def restoreEntries (recipeFileIsInBuffer : Bool) :
    Nat → SlidingWindow Byte → σ → Except (ReadFailure ⊕ ε) σ
  | 0, _, state => .ok state
  | count + 1, window, state =>
      match refill recipeFileIsInBuffer window with
      | .error failure => .error (.inl failure)
      | .ok window =>
          match process state (window.record fileRecipeEntrySize) with
          | .error stopped => .error (.inr stopped)
          | .ok state =>
              restoreEntries recipeFileIsInBuffer count (window.skip fileRecipeEntrySize) state

/-- Read the head of the recipe and then its entries. -/
def restoreRecipe (start : FileRecipeHead → σ) (recipeFileBuffer : Buffer Byte)
    (source : RecipeSource) (recipeFileOffset : Nat) : Except (ReadFailure ⊕ ε) σ :=
  match openRecipe recipeFileBuffer recipeFileOffset source with
  | .error failure => .error (.inl failure)
  | .ok window =>
      let head := recipeHeadAt (window.memory.advance recipeFileOffset)
      restoreEntries process source.recipeFileIsInBuffer head.numOfShares.toNat
        (window.skip fileRecipeHeadSize) (start head)

end Loop

/-! ## Direct reading -/

def headAt (recipe : List Byte) (offset : Nat) : FileRecipeHead :=
  recipeHeadAt (Buffer.ofList (recipe.drop offset) 0)

def entryBytes (recipe : List Byte) (offset index : Nat) : List Byte :=
  (recipe.drop (offset + fileRecipeHeadSize + fileRecipeEntrySize * index)).take
    fileRecipeEntrySize

def restoreDirectly {σ : Type u} {ε : Type v} (process : σ → List Byte → Except ε σ)
    (recipe : List Byte) (offset count : Nat) (state : σ) : Except ε σ :=
  (List.range count).foldlM (fun state index => process state (entryBytes recipe offset index))
    state

/-! ## The window -/

variable {source : RecipeSource}

variable {recipe : List Byte} {base : Nat} {window : SlidingWindow Byte}

/-- When the recipe goes on for an entry, the loop finds it in the array. The part that an
earlier short read has left as it was is never reached. -/
theorem refill_shows {recipeFileIsInBuffer : Bool}
    (shows_ : window.Shows recipeBufferSize recipe base)
    (buffered : recipeFileIsInBuffer = true → recipe.length ≤ base + recipeBufferSize)
    (holds : base + window.offset + fileRecipeEntrySize ≤ recipe.length) :
    ∃ next nextBase, refill recipeFileIsInBuffer window = .ok next ∧
      next.Shows recipeBufferSize recipe nextBase ∧
      nextBase + next.offset = base + window.offset ∧ base ≤ nextBase ∧
      next.offset + fileRecipeEntrySize ≤ recipeBufferSize := by
  unfold refill
  by_cases short : window.offset + fileRecipeEntrySize > recipeBufferSize
  · have notBuffered : recipeFileIsInBuffer = false := by
      rw [← Bool.not_eq_true]
      intro isInBuffer
      have bounded := buffered isInBuffer
      omega
    have taken : 0 < window.offset := by
      rw [fileRecipeEntrySize, recipeBufferSize] at short
      omega
    rcases shows_.slide taken (by omega) with ⟨next, slides, start, shown⟩
    rw [if_pos short, notBuffered, if_neg Bool.false_ne_true, slides]
    refine ⟨next, _, rfl, shown, by rw [start, Nat.add_zero], Nat.le_add_right _ _, ?_⟩
    rw [start, fileRecipeEntrySize, recipeBufferSize]
    decide
  · rw [if_neg short]
    exact ⟨window, base, rfl, shows_, rfl, le_rfl, not_lt.mp short⟩

private theorem restoreEntries_shows {σ : Type u} {ε : Type v}
    (process : σ → List Byte → Except ε σ)
    {recipeFileIsInBuffer : Bool} (count : Nat)
    (shows_ : window.Shows recipeBufferSize recipe base)
    (buffered : recipeFileIsInBuffer = true → recipe.length ≤ base + recipeBufferSize)
    (holds : base + window.offset + fileRecipeEntrySize * count ≤ recipe.length)
    (state : σ) :
    restoreEntries process recipeFileIsInBuffer count window state =
      ((List.range count).foldlM
        (fun state index => process state
          ((recipe.drop (base + window.offset + fileRecipeEntrySize * index)).take
            fileRecipeEntrySize)) state).mapError Sum.inr := by
  induction count generalizing window base state with
  | zero => rfl
  | succ count induction =>
      rw [Nat.mul_add, Nat.mul_one] at holds
      rcases refill_shows shows_ buffered (by omega) with
        ⟨next, nextBase, refills, shown, place, later, room⟩
      have first : next.record fileRecipeEntrySize =
          (recipe.drop (base + window.offset)).take fileRecipeEntrySize := by
        rw [shown.record room (by omega), place]
      rw [restoreEntries, refills, List.range_succ_eq_map, List.foldlM_cons]
      simp only [first, List.foldlM_map, Nat.mul_zero, Nat.add_zero]
      cases process state ((recipe.drop (base + window.offset)).take fileRecipeEntrySize) with
      | error stopped => rfl
      | ok continued =>
          have skipped : nextBase + (next.skip fileRecipeEntrySize).offset =
              base + window.offset + fileRecipeEntrySize := by
            rw [SlidingWindow.skip, ← Nat.add_assoc, place]
          have rest := induction (shown.skip room) (fun isInBuffer => by
            have bounded := buffered isInBuffer
            omega) (by omega) continued
          refine rest.trans ?_
          rw [skipped]
          simp only [Nat.succ_eq_add_one, Nat.mul_add, Nat.mul_one, Nat.add_assoc,
            Nat.add_comm fileRecipeEntrySize]
          rfl

private theorem openRecipe_shows {offset : Nat} (fits : source.Fits)
    (inside : offset ≤ recipeBufferSize) (nonempty : source.bytes ≠ [])
    (recipeFileBuffer : Buffer Byte) :
    ∃ window, openRecipe recipeFileBuffer offset source = .ok window ∧
      window.offset = offset ∧ window.Shows recipeBufferSize source.bytes 0 := by
  cases source with
  | file recipe =>
      have nonempty : recipe ≠ [] := nonempty
      rcases SlidingWindow.openAt_shows inside (by decide) recipeFileBuffer nonempty with
        ⟨window, opens, start, shown⟩
      refine ⟨window, ?_, start, shown⟩
      rw [openRecipe, opens]
  | buffered recipe =>
      refine ⟨_, rfl, rfl, inside, ?_, ?_⟩
      · intro position _ _ within
        rw [Nat.zero_add] at within ⊢
        have written : recipeFileBuffer.write 0 recipe (0 + position) = recipe[position] :=
          recipeFileBuffer.write_inside 0 within
        rw [Nat.zero_add] at written
        dsimp only [RecipeSource.bytes] at within ⊢
        rw [written, List.getElem?_eq_getElem within]
      · exact (List.drop_eq_nil_of_le (by rw [Nat.zero_add]; exact fits)).symm

private theorem recipeHeadAt_congr {left right : Buffer Byte}
    (same : left.slice 0 fileRecipeHeadSize = right.slice 0 fileRecipeHeadSize) :
    recipeHeadAt left = recipeHeadAt right := by
  have field : ∀ {place size : Nat}, place + size ≤ fileRecipeHeadSize →
      left.readInt place size = right.readInt place size := by
    intro place size inside
    apply Buffer.readInt_congr
    have part := Buffer.slice_sub same inside
    rwa [Nat.zero_add] at part
  rw [recipeHeadAt, recipeHeadAt, field (by decide), field (by decide), field (by decide)]

private theorem recipeHeadAt_shows (shows_ : window.Shows recipeBufferSize recipe base)
    (room : window.offset + fileRecipeHeadSize ≤ recipeBufferSize)
    (holds : base + window.offset + fileRecipeHeadSize ≤ recipe.length) :
    recipeHeadAt (window.memory.advance window.offset) =
      headAt recipe (base + window.offset) := by
  apply recipeHeadAt_congr
  rw [Buffer.slice_advance, Nat.add_zero]
  refine (shows_.record room holds).trans (Buffer.slice_getD _ 0 ?_).symm
  rw [List.length_drop]
  omega

section Directly

variable {σ : Type u} {ε : Type v} (process : σ → List Byte → Except ε σ)
variable (start : FileRecipeHead → σ) (recipeFileBuffer : Buffer Byte)

theorem restoreRecipe_shows {source : RecipeSource} {offset : Nat} (fits : source.Fits)
    (headInside : offset + fileRecipeHeadSize ≤ recipeBufferSize)
    (holds : offset + fileRecipeHeadSize +
      fileRecipeEntrySize * (headAt source.bytes offset).numOfShares.toNat ≤
        source.bytes.length) :
    restoreRecipe process start recipeFileBuffer source offset =
      (restoreDirectly process source.bytes offset
        (headAt source.bytes offset).numOfShares.toNat
        (start (headAt source.bytes offset))).mapError Sum.inr := by
  have nonempty : source.bytes ≠ [] := by
    intro none_left
    rw [none_left, List.length_nil, fileRecipeHeadSize] at holds
    omega
  have inside : offset ≤ recipeBufferSize := by omega
  rcases openRecipe_shows fits inside nonempty recipeFileBuffer with
    ⟨window, opens, place, shown⟩
  have head : recipeHeadAt (window.memory.advance offset) = headAt source.bytes offset := by
    have read := recipeHeadAt_shows shown (by rw [place]; exact headInside)
      (by rw [place, Nat.zero_add]; omega)
    rwa [place, Nat.zero_add] at read
  have skipped : 0 + (window.skip fileRecipeHeadSize).offset =
      offset + fileRecipeHeadSize := by
    rw [SlidingWindow.skip, place, Nat.zero_add]
  have buffered : source.recipeFileIsInBuffer = true →
      source.bytes.length ≤ 0 + recipeBufferSize := by
    intro isInBuffer
    cases source with
    | file recipe => cases isInBuffer
    | buffered recipe =>
        rw [Nat.zero_add]
        exact fits
  rw [restoreRecipe, opens]
  simp only [head]
  rw [restoreEntries_shows process _ (shown.skip (by rw [place]; exact headInside)) buffered
    (by rw [skipped]; exact holds), skipped]
  rfl

/-- Reading a recipe through the window is reading it directly: the `i`-th entry that is
processed is the one that lies `i` entries behind the head, whatever the array held before
and however often it is refilled, and reading never fails. -/
theorem restoreRecipe_eq_directly (source : RecipeSource) (offset : Nat)
    (fits : source.Fits) (headInside : offset + fileRecipeHeadSize ≤ recipeBufferSize)
    (holds : offset + fileRecipeHeadSize +
      fileRecipeEntrySize * (headAt source.bytes offset).numOfShares.toNat ≤
        source.bytes.length) :
    restoreRecipe process start recipeFileBuffer source offset =
        (restoreDirectly process source.bytes offset
          (headAt source.bytes offset).numOfShares.toNat
          (start (headAt source.bytes offset))).mapError Sum.inr ∧
      ∀ failure, restoreRecipe process start recipeFileBuffer source offset ≠
        .error (.inl failure) := by
  have direct := restoreRecipe_shows process start recipeFileBuffer fits headInside holds
  refine ⟨direct, ?_⟩
  intro failure failed
  rw [direct] at failed
  cases restored : restoreDirectly process source.bytes offset
      (headAt source.bytes offset).numOfShares.toNat
      (start (headAt source.bytes offset)) with
  | error stopped =>
      rw [restored] at failed
      cases failed
  | ok state =>
      rw [restored] at failed
      cases failed

end Directly

/-- A file with two entries; the bytes of the entries are collected. -/
theorem restoreRecipe_two_entries :
    let recipe : List Byte := List.replicate 16 0 ++ [2, 0, 0, 0] ++ List.replicate 44 7 ++
      List.replicate 40 8
    restoreRecipe (fun entries entry => .ok (entry :: entries) :
          List (List Byte) → List Byte → Except Unit (List (List Byte)))
        (fun _ => []) (fun _ => 9) (.file recipe) 0 =
      .ok [List.replicate 40 8, List.replicate 40 7] := by
  intro recipe
  have direct := restoreRecipe_eq_directly
    (fun entries entry => .ok (entry :: entries) :
      List (List Byte) → List Byte → Except Unit (List (List Byte)))
    (fun _ => []) (fun _ => 9) (.file recipe) 0 trivial (by decide) (by decide)
  rw [direct.1]
  rfl

/-! ## Recipes of records

A recipe that was written as a head and records is restored to the shares of the records,
as the model of the recipe files by cells has it. -/

open Wire (RecipeRecord)

structure RecipeSource.Stores (source : RecipeSource) (offset : Nat) (head : FileRecipeHead)
    (records : List RecipeRecord) : Prop where
  fits : source.Fits
  headInside : offset + fileRecipeHeadSize ≤ recipeBufferSize
  headRead : headAt source.bytes offset = head
  count : head.numOfShares = records.length
  whole : offset + fileRecipeHeadSize + fileRecipeEntrySize * records.length ≤
    source.bytes.length
  record : ∀ (index : Nat) (inside : index < records.length),
    entryBytes source.bytes offset index = records[index].bytes

/-- The rest of the loop body: restore the share of the entry. -/
def restoreEntry (core : DedupCore) (socket : Nat → Bool) (memory : RestoreMemory)
    (restoration : Restoration) (entry : List Byte) : Except Restoration Restoration :=
  core.shares.restoreShare core.containers socket memory.shareContainerCache restoration
    (recipeRecordAt (Buffer.ofList entry 0))

private theorem recipeRecordAt_bytes (record : RecipeRecord) :
    recipeRecordAt (Buffer.ofList record.bytes 0) = record.entry := by
  apply Wire.recipeRecordAt_of_slice
  have whole := Buffer.slice_getD record.bytes 0 (Nat.le_of_eq record.bytes_length.symm)
  rw [List.take_of_length_le (Nat.le_of_eq record.bytes_length)] at whole
  exact whole

/-- The bytes of the recipe and the cells of the model lead to the same restoration. -/
theorem restoreRecipe_eq_restoreWindow {core : DedupCore}
    {userID : Int} {place : InodeFileEntry} {head : FileRecipeHead}
    {records : List RecipeRecord}
    (stored : source.Stores place.recipeFileOffset head records)
    (cells : core.StoresRecipe userID place head (records.map RecipeRecord.entry))
    (stray : List RecipeCell → FileRecipeHead)
    (strayEntry : List RecipeCell → FileRecipeEntry) (socket : Nat → Bool)
    (memory : RestoreMemory) :
    ∃ (window : RecipeWindow) (restored : Except Restoration Restoration),
      core.openRecipe userID place = some window ∧
      restoreRecipe (restoreEntry core socket memory)
          (fun head => ⟨[], .start memory.shareFileBuffer head⟩)
          memory.recipeFileBuffer source place.recipeFileOffset =
        restored.mapError Sum.inr ∧
      core.restoreWindow stray strayEntry socket memory window =
        restored.bind (ShareStore.finishRestore socket) := by
  rcases cells.restoreWindow socket memory with ⟨window, opens, restores⟩
  refine ⟨window, _, opens, ?_, restores⟩
  have count : (headAt source.bytes place.recipeFileOffset).numOfShares.toNat =
      records.length := by
    rw [stored.headRead, stored.count, Int.toNat_natCast]
  have direct := restoreRecipe_shows (restoreEntry core socket memory)
    (fun head => ⟨[], .start memory.shareFileBuffer head⟩) memory.recipeFileBuffer
    stored.fits stored.headInside (by rw [count]; exact stored.whole)
  rw [direct, count, stored.headRead, restoreDirectly]
  congr 1
  rw [List.foldlM_map]
  apply Loop.foldlM_range_getElem
  intro index inside restoration
  rw [restoreEntry, stored.record index inside, recipeRecordAt_bytes]

def twoRecords : List RecipeRecord :=
  [⟨⟨_, zeros_size⟩, 0, 0⟩, ⟨⟨_, ones_size⟩, 0, 0⟩]

/-- A core with two shares and a recipe of both. -/
def twoRecordCore : DedupCore where
  shares := twoShareCore.store
  recipes :=
    { inodeIndex := fun _ => none
      recipeFiles := fun _ =>
        some (headCells ⟨0, 0, 2⟩ ++ entriesCells (twoRecords.map RecipeRecord.entry))
      globalRecipeFileName := .initial }
  bufferNodes := []

theorem restoreRecipe_eq_restoreWindow_twoRecords :
    let source : RecipeSource := .file (List.replicate 16 0 ++ [2] ++ List.replicate 47 0 ++
      List.replicate 32 1 ++ List.replicate 8 0)
    ∃ (window : RecipeWindow) (restored : Except Restoration Restoration),
      twoRecordCore.openRecipe 0 ⟨.first, 0⟩ = some window ∧
      restoreRecipe (restoreEntry twoRecordCore (fun _ => true) clearedRestoreMemory)
          (fun head => ⟨[], .start clearedRestoreMemory.shareFileBuffer head⟩)
          clearedRestoreMemory.recipeFileBuffer source 0 = restored.mapError Sum.inr ∧
      twoRecordCore.restoreWindow (fun _ => ⟨0, 0, 0⟩) (fun _ => ⟨⟨_, zeros_size⟩, 0, 0⟩)
          (fun _ => true) clearedRestoreMemory window =
        restored.bind (ShareStore.finishRestore fun _ => true) := by
  intro source
  have stored : source.Stores 0 ⟨0, 0, 2⟩ twoRecords :=
    ⟨trivial, by decide, by decide, rfl, by decide, by decide +kernel⟩
  have cells : twoRecordCore.StoresRecipe 0 ⟨.first, 0⟩ ⟨0, 0, 2⟩
      (twoRecords.map RecipeRecord.entry) := by
    refine ⟨⟨_, [], rfl, ?_⟩, rfl, by decide, ?_⟩
    · rw [List.append_nil]
      rfl
    · intro _ buffered
      cases buffered
  exact restoreRecipe_eq_restoreWindow stored cells _ _ _ _

end MetaDedup.Server.RecipeBytes
