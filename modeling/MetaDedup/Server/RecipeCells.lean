import MetaDedup.Server.DedupCore

/-! # Recipes in buffers and files

How a recipe lies in a sequence of cells, and what writing to it does. -/

namespace MetaDedup.Server

def entriesCells (entries : List FileRecipeEntry) : List RecipeCell :=
  entries.flatMap entryCells

/-- A recipe with these entries lies at `offset`. -/
def HoldsRecipe (cells : List RecipeCell) (offset : Nat)
    (entries : List FileRecipeEntry) : Prop :=
  ∃ head rest, cells.drop offset = headCells head ++ (entriesCells entries ++ rest) ∧
    head.numOfShares = entries.length

/-- A recipe with these entries lies at `offset`, and nothing after it. -/
def EndsWithRecipe (cells : List RecipeCell) (offset : Nat)
    (entries : List FileRecipeEntry) : Prop :=
  ∃ head, cells.drop offset = headCells head ++ entriesCells entries ∧
    head.numOfShares = entries.length

theorem headCells_length (head : FileRecipeHead) :
    (headCells head).length = fileRecipeHeadSize := by
  simp [headCells, fileRecipeHeadSize]

theorem entryCells_length (entry : FileRecipeEntry) :
    (entryCells entry).length = fileRecipeEntrySize := by
  simp [entryCells, fileRecipeEntrySize]

theorem headCells_ne_nil (head : FileRecipeHead) : headCells head ≠ [] :=
  List.cons_ne_nil _ _

@[simp] theorem entriesCells_nil : entriesCells [] = [] := rfl

theorem entriesCells_append (earlier later : List FileRecipeEntry) :
    entriesCells (earlier ++ later) = entriesCells earlier ++ entriesCells later :=
  List.flatMap_append

theorem entriesCells_length (entries : List FileRecipeEntry) :
    (entriesCells entries).length = fileRecipeEntrySize * entries.length := by
  induction entries with
  | nil => rfl
  | cons entry rest induction =>
      rw [entriesCells, List.flatMap_cons, List.length_append, entryCells_length]
      change fileRecipeEntrySize + (entriesCells rest).length = _
      rw [induction, List.length_cons]
      ring

private theorem entriesCells_eq_nil {entries : List FileRecipeEntry} :
    entriesCells entries = [] ↔ entries = [] := by
  constructor
  · intro emptied
    have size := entriesCells_length entries
    rw [emptied] at size
    rw [← List.length_eq_zero_iff]
    simp only [List.length_nil, fileRecipeEntrySize] at size
    omega
  · intro emptied
    rw [emptied]
    rfl

/-! ## Reading -/

theorem readRecipeHead_of_drop {stray : List RecipeCell → FileRecipeHead}
    {cells rest : List RecipeCell} {offset : Nat} {head : FileRecipeHead}
    (located : cells.drop offset = headCells head ++ rest) :
    readRecipeHead stray cells offset = head := by
  have whole : (headCells head ++ rest).take fileRecipeHeadSize = headCells head := by
    rw [← headCells_length head, List.take_left]
  rw [readRecipeHead, located, whole]
  simp [headCells]

theorem readRecipeEntries_entriesCells (entries : List FileRecipeEntry)
    (rest : List RecipeCell) :
    DedupCore.readRecipeEntries (entriesCells entries ++ rest) entries.length =
      some entries := by
  induction entries with
  | nil => rfl
  | cons entry later induction =>
      have split : entriesCells (entry :: later) ++ rest =
          entryCells entry ++ (entriesCells later ++ rest) := by
        simp [entriesCells, List.append_assoc]
      have first : (entryCells entry ++ (entriesCells later ++ rest)).take
          fileRecipeEntrySize = entryCells entry := by
        rw [← entryCells_length entry, List.take_left]
      have next : (entryCells entry ++ (entriesCells later ++ rest)).drop
          fileRecipeEntrySize = entriesCells later ++ rest := by
        rw [← entryCells_length entry, List.drop_left]
      rw [split, List.length_cons, DedupCore.readRecipeEntries, first, next, induction]
      simp [entryCells]

/-! ## Placement -/

variable {cells : List RecipeCell} {offset : Nat} {entries : List FileRecipeEntry}

namespace HoldsRecipe

variable (holds : HoldsRecipe cells offset entries)
include holds

private theorem append (more : List RecipeCell) :
    HoldsRecipe (cells ++ more) offset entries := by
  rcases holds with ⟨head, rest, located, count⟩
  have inside : offset ≤ cells.length := by
    by_contra outside
    rw [List.drop_eq_nil_of_le (by omega)] at located
    exact headCells_ne_nil head (List.append_eq_nil_iff.mp located.symm).1
  refine ⟨head, rest ++ more, ?_, count⟩
  rw [List.drop_append_of_le_length inside, located]
  simp only [List.append_assoc]

theorem of_isPrefix {grown : List RecipeCell}
    (extends_ : cells <+: grown) : HoldsRecipe grown offset entries := by
  rcases extends_ with ⟨more, rfl⟩
  exact holds.append more

theorem nonempty : cells ≠ [] := by
  intro emptied
  rcases holds with ⟨head, rest, located, _⟩
  rw [emptied, List.drop_nil] at located
  exact headCells_ne_nil head (List.append_eq_nil_iff.mp located.symm).1

end HoldsRecipe

namespace EndsWithRecipe

theorem holds (ends : EndsWithRecipe cells offset entries) :
    HoldsRecipe cells offset entries := by
  rcases ends with ⟨head, located, count⟩
  exact ⟨head, [], by rw [located, List.append_nil], count⟩

theorem of_eq {before : List RecipeCell} {head : FileRecipeHead}
    (whole : cells = before ++ (headCells head ++ entriesCells entries))
    (size : before.length = offset) (count : head.numOfShares = entries.length) :
    EndsWithRecipe cells offset entries :=
  ⟨head, by rw [whole, ← size, List.drop_left], count⟩

variable (ends : EndsWithRecipe cells offset entries)
include ends

theorem split :
    ∃ before head, cells = before ++ (headCells head ++ entriesCells entries) ∧
      before.length = offset ∧ head.numOfShares = entries.length := by
  rcases ends with ⟨head, located, count⟩
  have inside : offset ≤ cells.length := by
    by_contra outside
    rw [List.drop_eq_nil_of_le (by omega)] at located
    exact headCells_ne_nil head (List.append_eq_nil_iff.mp located.symm).1
  refine ⟨cells.take offset, head, ?_, ?_, count⟩
  · rw [← located, List.take_append_drop]
  · rw [List.length_take, Nat.min_eq_left inside]

theorem length :
    cells.length = offset + fileRecipeHeadSize + fileRecipeEntrySize * entries.length := by
  rcases ends.split with ⟨before, head, whole, size, _⟩
  rw [whole, List.length_append, List.length_append, headCells_length,
    entriesCells_length, size]
  omega

theorem readRecipeHead (stray : List RecipeCell → FileRecipeHead) :
    (readRecipeHead stray cells offset).numOfShares = entries.length := by
  rcases ends with ⟨head, located, count⟩
  rw [readRecipeHead_of_drop located, count]

end EndsWithRecipe

/-! ## Writing -/

variable {buffer : List RecipeCell}

private theorem overwrite_middle (before old after : List RecipeCell) {data : List RecipeCell}
    (same : data.length = old.length) :
    overwrite (before ++ (old ++ after)) before.length data = before ++ (data ++ after) := by
  have noHole : before.length - (before ++ (old ++ after)).length = 0 := by
    rw [List.length_append]
    omega
  rw [overwrite, noHole, List.take_left, same, ← List.drop_drop, List.drop_left,
    List.drop_left]
  simp

private theorem overwrite_end (cells data : List RecipeCell) :
    overwrite cells cells.length data = cells ++ data := by
  simp [overwrite]

theorem overwrite_head {before : List RecipeCell} {old : FileRecipeHead}
    (whole : cells = before ++ (headCells old ++ entriesCells entries))
    (size : before.length = offset) (head : FileRecipeHead) :
    overwrite cells offset (headCells head) =
      before ++ (headCells head ++ entriesCells entries) := by
  rw [whole, ← size]
  exact overwrite_middle _ _ _ (by rw [headCells_length, headCells_length])

theorem EndsWithRecipe.extend (ends : EndsWithRecipe cells offset entries)
    (stray : List RecipeCell → FileRecipeHead) {more : List FileRecipeEntry} {coming : Int}
    (count : coming = more.length) :
    let head := MetaDedup.Server.readRecipeHead stray cells offset
    let headed := overwrite cells offset
      (headCells { head with numOfShares := head.numOfShares + coming })
    EndsWithRecipe (headed ++ entriesCells more) offset (entries ++ more) ∧
      (headed ++ entriesCells more).take offset = cells.take offset := by
  intro head headed
  have announced : head.numOfShares = entries.length := ends.readRecipeHead stray
  rcases ends.split with ⟨before, old, whole, size, _⟩
  have written : headed = before ++
      (headCells { head with numOfShares := head.numOfShares + coming } ++
        entriesCells entries) := overwrite_head whole size _
  have grown : headed ++ entriesCells more = before ++
      (headCells { head with numOfShares := head.numOfShares + coming } ++
        entriesCells (entries ++ more)) := by
    rw [written, entriesCells_append]
    simp only [List.append_assoc]
  constructor
  · exact .of_eq grown size (by simp [announced, count])
  · rw [grown, whole, ← size, List.take_left, List.take_left]

theorem appendEntries_endsWithRecipe (stray : List RecipeCell → FileRecipeHead)
    {file : List RecipeCell} {stored rest : List FileRecipeEntry}
    (fileEnds : EndsWithRecipe file offset stored) (bufferEnds : EndsWithRecipe buffer 0 rest)
    (nonempty : rest ≠ []) :
    ∃ appended, RecipeStore.appendEntries stray file offset buffer = some appended ∧
      EndsWithRecipe appended offset (stored ++ rest) ∧
      appended.take offset = file.take offset := by
  have fileSize := fileEnds.length
  have added := bufferEnds.readRecipeHead stray
  rcases fileEnds.split with ⟨before, head, whole, size, count⟩
  have headRead : readRecipeHead stray file offset = head :=
    readRecipeHead_of_drop (by rw [whole, ← size, List.drop_left])
  have dropped : buffer.drop fileRecipeHeadSize = entriesCells rest := by
    rcases bufferEnds with ⟨bufferHead, located, _⟩
    rw [List.drop_zero] at located
    rw [located, ← headCells_length bufferHead, List.drop_left]
  have something : entriesCells rest ≠ [] := fun emptied =>
    nonempty (entriesCells_eq_nil.mp emptied)
  -- The entries in the file end where the file ends.
  have forward : (0 : Int) ≤ (offset : Int) + fileRecipeHeadSize +
      fileRecipeEntrySize * head.numOfShares := by
    rw [count]
    omega
  have position : ((offset : Int) + fileRecipeHeadSize +
      fileRecipeEntrySize * head.numOfShares).toNat = file.length := by
    rw [count, fileSize]
    omega
  have grown : overwrite file file.length (entriesCells rest) =
      before ++ (headCells head ++ entriesCells (stored ++ rest)) := by
    rw [overwrite_end, whole, entriesCells_append]
    simp only [List.append_assoc]
  let total : FileRecipeHead := { head with numOfShares := head.numOfShares + rest.length }
  refine ⟨before ++ (headCells total ++ entriesCells (stored ++ rest)), ?_, ?_, ?_⟩
  · rw [RecipeStore.appendEntries, if_neg (by omega), dropped, if_neg something]
    simp only [headRead, if_pos forward, position, added, overwrite_head grown size]
    rfl
  · exact .of_eq rfl size (by simp [total, count])
  · rw [whole, ← size, List.take_left, List.take_left]

theorem appendEntries_nothing (stray : List RecipeCell → FileRecipeHead)
    (file : List RecipeCell) (bufferEnds : EndsWithRecipe buffer 0 []) :
    RecipeStore.appendEntries stray file offset buffer = none := by
  have nothing : buffer.drop fileRecipeHeadSize = [] := by
    rw [List.drop_eq_nil_iff, bufferEnds.length]
    simp
  rw [RecipeStore.appendEntries, nothing]
  simp

end MetaDedup.Server
