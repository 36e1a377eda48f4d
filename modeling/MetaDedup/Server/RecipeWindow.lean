import MetaDedup.Server.RecipeCells
import MetaDedup.Server.RecipeFiles

/-! # Restoring a file from `DedupCore`

`restoreShareFile` of `DedupCore` finds the recipe of a version of a file through the
inode index. A recipe that is still in the buffer of the user is read there. A recipe
file is read in pieces of the size of a recipe buffer, and the part of an entry that is
left at the end of a piece is moved to the front of the next one. -/

namespace MetaDedup.Server

open Foundation

/-- The piece of a recipe file that is in memory, the place in it, and what follows in the
file. -/
structure RecipeWindow where
  recipeFileIsInBuffer : Bool
  recipeFileBuffer : List RecipeCell
  recipeFileBufferOffset : Nat
  unread : List RecipeCell

namespace RecipeWindow

def refill (window : RecipeWindow) : Option RecipeWindow :=
  let offset := window.recipeFileBufferOffset
  if offset + fileRecipeEntrySize > recipeBufferSize then
    if window.recipeFileIsInBuffer then none
    else if window.unread.take offset = [] then none
    else
      some
        { window with
          recipeFileBuffer := window.recipeFileBuffer.drop offset ++ window.unread.take offset
          recipeFileBufferOffset := 0
          unread := window.unread.drop offset }
  else some window

/-- The entry at the current place. Bytes that are not an entry are read as some entry all
the same; `strayEntry` says as which. -/
def entry (strayEntry : List RecipeCell → FileRecipeEntry) (window : RecipeWindow) :
    FileRecipeEntry :=
  let cells := window.recipeFileBuffer.drop window.recipeFileBufferOffset
  match cells.head? with
  | some (.entry entry) =>
      if cells.take fileRecipeEntrySize = entryCells entry then entry
      else strayEntry (cells.take fileRecipeEntrySize)
  | _ => strayEntry (cells.take fileRecipeEntrySize)

def skip (window : RecipeWindow) (size : Nat) : RecipeWindow :=
  { window with recipeFileBufferOffset := window.recipeFileBufferOffset + size }

end RecipeWindow

namespace DedupCore

variable (generateHash : List Byte → Fingerprint)
variable (stray : List RecipeCell → FileRecipeHead)
variable (strayEntry : List RecipeCell → FileRecipeEntry)
variable (core : DedupCore) (socket : Nat → Bool) (memory : RestoreMemory)

/-- Where the inode index has the recipe of a version of a file, counted back from the
newest. -/
def findRecipe (userID : Int) (fullFileName : List Byte) (age : Nat) :
    Option InodeFileEntry := do
  let name ← formatFullFileName fullFileName
  let value ← core.recipes.inodeIndex (fileName2InodeFP generateHash name userID)
  if age ≥ value.numOfChildren then none else value.version age

/-- Read the recipe file, from the buffer of the user if it is there. Reading an empty
file fails. -/
def openRecipe (userID : Int) (place : InodeFileEntry) : Option RecipeWindow :=
  match core.readRecipeFileFromBuffer userID place.recipeFileName with
  | some cells => some ⟨true, cells, place.recipeFileOffset, []⟩
  | none =>
      ((core.recipes.recipeFiles place.recipeFileName).filter (· ≠ [])).map fun cells =>
        ⟨false, cells.take recipeBufferSize, place.recipeFileOffset,
          cells.drop recipeBufferSize⟩

def restoreEntries : Nat → RecipeWindow → Restoration → Except Restoration Restoration
  | 0, _, restoration => .ok restoration
  | count + 1, window, restoration =>
      match window.refill with
      | none => .error restoration
      | some window =>
          (core.shares.restoreShare core.containers socket memory.shareContainerCache
            restoration (window.entry strayEntry)).bind
            (restoreEntries count (window.skip fileRecipeEntrySize))

def restoreWindow (window : RecipeWindow) : Except Restoration Restoration :=
  let head := readRecipeHead stray window.recipeFileBuffer window.recipeFileBufferOffset
  (core.restoreEntries strayEntry socket memory head.numOfShares.toNat
    (window.skip fileRecipeHeadSize) ⟨[], .start memory.shareFileBuffer head⟩).bind
    (ShareStore.finishRestore socket)

/-- The return value and the messages that are sent. -/
def restoreShareFile (userID : Int) (fullFileName : List Byte) (age : Nat) :
    Bool × List (List Byte) :=
  match (core.findRecipe generateHash userID fullFileName age).bind
      (core.openRecipe userID) with
  | none => (false, [])
  | some window =>
      match core.restoreWindow stray strayEntry socket memory window with
      | .error restoration => (false, restoration.stream.sent)
      | .ok restoration => (true, restoration.stream.sent)

end DedupCore

/-! ## Reading through the window -/

namespace RecipeWindow

/-- What lies ahead of the current place, in memory and in the file. -/
def ahead (window : RecipeWindow) : List RecipeCell :=
  window.recipeFileBuffer.drop window.recipeFileBufferOffset ++ window.unread

/-- The memory is full as long as there is something to read. -/
structure Filled (window : RecipeWindow) : Prop where
  fits : window.recipeFileBuffer.length ≤ recipeBufferSize
  inside : window.recipeFileBufferOffset ≤ recipeBufferSize
  full : window.unread ≠ [] → window.recipeFileBuffer.length = recipeBufferSize
  buffered : window.recipeFileIsInBuffer = true → window.unread = []

variable {window : RecipeWindow} (filled : window.Filled)
include filled

theorem Filled.refill (whole : fileRecipeEntrySize ≤ window.ahead.length) :
    ∃ next, window.refill = some next ∧ next.Filled ∧ next.ahead = window.ahead ∧
      next.recipeFileBufferOffset + fileRecipeEntrySize ≤ next.recipeFileBuffer.length := by
  have fits := filled.fits
  have inside := filled.inside
  rw [ahead, List.length_append, List.length_drop] at whole
  rw [RecipeWindow.refill]
  by_cases short : window.recipeFileBufferOffset + fileRecipeEntrySize > recipeBufferSize
  · have some_unread : window.unread ≠ [] := by
      intro none_unread
      rw [none_unread, List.length_nil] at whole
      rw [fileRecipeEntrySize] at whole short
      omega
    have size := filled.full some_unread
    have not_buffered : window.recipeFileIsInBuffer = false := by
      rw [← Bool.not_eq_true]
      exact fun buffered => some_unread (filled.buffered buffered)
    have positive : 0 < window.recipeFileBufferOffset := by
      rw [fileRecipeEntrySize, recipeBufferSize] at short
      omega
    have some_read : window.unread.take window.recipeFileBufferOffset ≠ [] := by
      rw [ne_eq, List.take_eq_nil_iff]
      rintro (zero | none_unread)
      · omega
      · exact some_unread none_unread
    rw [if_pos short, not_buffered, if_neg Bool.false_ne_true, if_neg some_read]
    refine ⟨_, rfl, ⟨?_, ?_, ?_, ?_⟩, ?_, ?_⟩
    · simp only [List.length_append, List.length_drop, List.length_take]
      omega
    · exact Nat.zero_le _
    · intro more
      have longer : window.recipeFileBufferOffset < window.unread.length := by
        by_contra shorter
        exact more (List.drop_eq_nil_of_le (by omega))
      simp only [List.length_append, List.length_drop, List.length_take]
      omega
    · intro buffered
      cases buffered
    · simp only [ahead, List.drop_zero, List.append_assoc, List.take_append_drop]
    · simp only [List.length_append, List.length_drop, List.length_take, Nat.zero_add]
      rw [fileRecipeEntrySize] at short whole ⊢
      rw [recipeBufferSize] at short inside size
      omega
  · rw [if_neg short]
    refine ⟨window, rfl, filled, rfl, ?_⟩
    by_cases none_unread : window.unread = []
    · rw [none_unread, List.length_nil] at whole
      rw [fileRecipeEntrySize] at whole ⊢
      omega
    · rw [filled.full none_unread]
      omega

theorem Filled.skip {size : Nat}
    (room : window.recipeFileBufferOffset + size ≤ recipeBufferSize) :
    (window.skip size).Filled :=
  ⟨filled.fits, room, filled.full, filled.buffered⟩

omit filled

theorem skip_ahead {size : Nat} {cells rest : List RecipeCell}
    (room : window.recipeFileBufferOffset + size ≤ window.recipeFileBuffer.length)
    (holds : window.ahead = cells ++ rest) (length : cells.length = size) :
    (window.skip size).ahead = rest := by
  have whole : (window.skip size).ahead = window.ahead.drop size := by
    rw [ahead, ahead, List.drop_append_of_le_length, List.drop_drop]
    · rfl
    · rw [List.length_drop]
      omega
  rw [whole, holds, List.drop_left' length]

private theorem entry_of_ahead {strayEntry : List RecipeCell → FileRecipeEntry}
    {entry : FileRecipeEntry} {rest : List RecipeCell}
    (room : window.recipeFileBufferOffset + fileRecipeEntrySize ≤
      window.recipeFileBuffer.length)
    (holds : window.ahead = entryCells entry ++ rest) :
    window.entry strayEntry = entry := by
  have taken : (window.recipeFileBuffer.drop window.recipeFileBufferOffset).take
      fileRecipeEntrySize = entryCells entry := by
    have whole := congrArg (List.take fileRecipeEntrySize) holds
    rw [ahead, List.take_append_of_le_length (by rw [List.length_drop]; omega),
      List.take_left' (entryCells_length entry)] at whole
    exact whole
  have first : (window.recipeFileBuffer.drop window.recipeFileBufferOffset).head? =
      some (.entry entry) := by
    have whole := congrArg List.head? taken
    rw [List.head?_take, if_neg (by decide)] at whole
    exact whole
  rw [RecipeWindow.entry]
  simp only [first, taken, if_true]

end RecipeWindow

namespace DedupCore

variable {stray : List RecipeCell → FileRecipeHead}
variable {strayEntry : List RecipeCell → FileRecipeEntry}
variable {core : DedupCore} (socket : Nat → Bool) (memory : RestoreMemory)

variable {entries : List FileRecipeEntry}

private theorem restoreEntries_of_ahead {rest : List RecipeCell}
    {window : RecipeWindow} (filled : window.Filled)
    (holds : window.ahead = entriesCells entries ++ rest) (restoration : Restoration) :
    core.restoreEntries strayEntry socket memory entries.length window restoration =
      entries.foldlM
        (core.shares.restoreShare core.containers socket memory.shareContainerCache)
        restoration := by
  induction entries generalizing window restoration with
  | nil => rfl
  | cons entry entries induction =>
      have split : entriesCells (entry :: entries) ++ rest =
          entryCells entry ++ (entriesCells entries ++ rest) := by
        rw [entriesCells, List.flatMap_cons, List.append_assoc]
        rfl
      rw [split] at holds
      have whole : fileRecipeEntrySize ≤ window.ahead.length := by
        rw [holds, List.length_append, entryCells_length]
        omega
      rcases filled.refill whole with ⟨next, refills, nextFilled, same, room⟩
      rw [← same] at holds
      rw [List.length_cons, restoreEntries, refills, List.foldlM_cons]
      simp only [RecipeWindow.entry_of_ahead room holds]
      cases core.shares.restoreShare core.containers socket memory.shareContainerCache
        restoration entry with
      | error stopped => rfl
      | ok continued =>
          exact induction (nextFilled.skip (Nat.le_trans room nextFilled.fits))
            (RecipeWindow.skip_ahead room holds (entryCells_length entry)) continued

/-- The recipe at a place. Its head has been put into a recipe buffer, so it lies within
the size of one. -/
structure StoresRecipe (core : DedupCore) (userID : Int) (place : InodeFileEntry)
    (head : FileRecipeHead) (entries : List FileRecipeEntry) : Prop where
  cells : ∃ cells rest, core.readRecipeFile userID place.recipeFileName = some cells ∧
    cells.drop place.recipeFileOffset = headCells head ++ (entriesCells entries ++ rest)
  count : head.numOfShares = entries.length
  headInside : place.recipeFileOffset + fileRecipeHeadSize ≤ recipeBufferSize
  bufferInside : ∀ cells,
    core.readRecipeFileFromBuffer userID place.recipeFileName = some cells →
      cells.length ≤ recipeBufferSize

variable {userID : Int} {place : InodeFileEntry} {head : FileRecipeHead}

theorem StoresRecipe.openRecipe (stores : core.StoresRecipe userID place head entries) :
    ∃ window rest, core.openRecipe userID place = some window ∧ window.Filled ∧
      window.recipeFileBufferOffset = place.recipeFileOffset ∧
      window.ahead = headCells head ++ (entriesCells entries ++ rest) := by
  rcases stores.cells with ⟨cells, rest, found, located⟩
  have inside := stores.headInside
  rw [fileRecipeHeadSize] at inside
  rw [readRecipeFile] at found
  rw [DedupCore.openRecipe]
  cases buffered : core.readRecipeFileFromBuffer userID place.recipeFileName with
  | some inBuffer =>
      rw [buffered, Option.some_or, Option.some.injEq] at found
      subst found
      refine ⟨_, rest, rfl, ⟨stores.bufferInside _ buffered, ?_, ?_, fun _ => rfl⟩, rfl, ?_⟩
      · exact Nat.le_of_add_right_le inside
      · exact fun more => absurd rfl more
      · rw [RecipeWindow.ahead, List.append_nil, located]
  | none =>
      rw [buffered, Option.none_or] at found
      refine ⟨_, rest, by rw [found]; rfl, ⟨?_, ?_, ?_, ?_⟩, rfl, ?_⟩
      · exact List.length_take_le _ _
      · exact Nat.le_of_add_right_le inside
      · intro more
        have longer : recipeBufferSize < cells.length := by
          by_contra shorter
          exact more (List.drop_eq_nil_of_le (by omega))
        exact List.length_take_of_le (Nat.le_of_lt longer)
      · intro isInBuffer
        cases isInBuffer
      · have short : place.recipeFileOffset ≤ (cells.take recipeBufferSize).length := by
          have size := congrArg List.length located
          rw [List.length_drop, List.length_append, headCells_length,
            fileRecipeHeadSize] at size
          rw [List.length_take]
          omega
        have split := congrArg (List.drop place.recipeFileOffset)
          (List.take_append_drop recipeBufferSize cells)
        rw [List.drop_append_of_le_length short, located] at split
        exact split

theorem StoresRecipe.restoreWindow (stores : core.StoresRecipe userID place head entries) :
    ∃ window, core.openRecipe userID place = some window ∧
      core.restoreWindow stray strayEntry socket memory window =
        core.shares.restoreShares core.containers socket memory.shareContainerCache
          memory.shareFileBuffer head entries := by
  rcases stores.openRecipe with ⟨window, rest, opens, filled, offset, holds⟩
  have inside := stores.headInside
  rw [← offset] at inside
  have room : window.recipeFileBufferOffset + fileRecipeHeadSize ≤
      window.recipeFileBuffer.length := by
    by_cases none_unread : window.unread = []
    · have size := congrArg List.length holds
      rw [RecipeWindow.ahead, none_unread, List.append_nil, List.length_drop,
        List.length_append, headCells_length, fileRecipeHeadSize] at size
      rw [fileRecipeHeadSize]
      omega
    · rw [filled.full none_unread]
      exact inside
  have located : window.recipeFileBuffer.drop window.recipeFileBufferOffset =
      headCells head ++ (window.recipeFileBuffer.drop window.recipeFileBufferOffset).drop
        fileRecipeHeadSize := by
    have whole := congrArg (List.take fileRecipeHeadSize) holds
    rw [RecipeWindow.ahead,
      List.take_append_of_le_length (by rw [List.length_drop]; omega),
      List.take_left' (headCells_length head)] at whole
    rw [← whole, List.take_append_drop]
  refine ⟨window, opens, ?_⟩
  have read : readRecipeHead stray window.recipeFileBuffer window.recipeFileBufferOffset =
      head := readRecipeHead_of_drop located
  rw [DedupCore.restoreWindow, read]
  simp only [stores.count, Int.toNat_natCast]
  rw [restoreEntries_of_ahead socket memory (filled.skip inside)
    (RecipeWindow.skip_ahead room holds (headCells_length head))]
  rfl

theorem restoreShareFile_of_stores {generateHash : List Byte → Fingerprint}
    {fullFileName : List Byte} {age : Nat}
    (found : core.findRecipe generateHash userID fullFileName age = some place)
    (stores : core.StoresRecipe userID place head entries) :
    core.restoreShareFile generateHash stray strayEntry socket memory userID fullFileName
        age =
      match core.shares.restoreShares core.containers socket memory.shareContainerCache
          memory.shareFileBuffer head entries with
      | .error restoration => (false, restoration.stream.sent)
      | .ok restoration => (true, restoration.stream.sent) := by
  rcases stores.restoreWindow socket memory with ⟨window, opens, restores⟩
  rw [restoreShareFile, found, Option.bind_some, opens, ← restores]

end DedupCore

end MetaDedup.Server
