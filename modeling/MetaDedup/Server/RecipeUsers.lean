import MetaDedup.Server.RecipeMoves

/-! # The recipes of all users

Every recipe file name is handed out to one user. What the server does for one user
stays within that user's files and inode keys, so the recipes of the others are kept. -/

namespace MetaDedup.Server

open Foundation InternalFileName Function

def inodeKey (generateHash : List Byte → Fingerprint) (userID : Int) (name : List Byte) :
    Fingerprint :=
  fileName2InodeFP generateHash name userID

def Owned (owner : InternalFileName → Int) (recipes : RecipeStore) (userID : Int)
    (name : InternalFileName) : Prop :=
  recipes.globalRecipeFileName.Issued name ∧ owner name = userID

/-- At most recipe files of these names have been written. -/
structure WritesWithin (owned : InternalFileName → Prop) (recipes recipes' : RecipeStore) :
    Prop where
  global : recipes'.globalRecipeFileName = recipes.globalRecipeFileName
  index : recipes'.inodeIndex = recipes.inodeIndex
  elsewhere : ∀ name, ¬owned name → recipes'.recipeFiles name = recipes.recipeFiles name

theorem WritesWithin.refl (owned : InternalFileName → Prop) (recipes : RecipeStore) :
    WritesWithin owned recipes recipes :=
  ⟨rfl, rfl, fun _ _ => rfl⟩

theorem WritesWithin.write {owned : InternalFileName → Prop} (recipes : RecipeStore)
    {name : InternalFileName} (mine : owned name) (cells : List RecipeCell) :
    WritesWithin owned recipes (recipes.writeRecipeFile name cells) where
  global := rfl
  index := rfl
  elsewhere := by
    intro other foreign
    have different : other ≠ name := by
      intro equal
      exact foreign (equal ▸ mine)
    exact update_of_ne different _ _

/-- The recipes of all users are in order. `files` are the files that may be uploaded,
each with its user. -/
structure Bookkeeping (generateHash : List Byte → Fingerprint)
    (files : Set (List Byte × Int)) (owner : InternalFileName → Int) (recipes : RecipeStore)
    (buffers : Int → Option RecipeBuffer) (history : Int → List Upload) : Prop where
  users : ∀ userID, UserRecipes (inodeKey generateHash userID) (Owned owner recipes userID)
    recipes (buffers userID) (history userID)
  listed : ∀ userID name, newestUpload (history userID) name ≠ none → (name, userID) ∈ files
  filed : ∀ name, recipes.recipeFiles name ≠ none →
    recipes.globalRecipeFileName.Issued name
  counted : InodeIndex.Counted recipes.inodeIndex

namespace Bookkeeping

variable {generateHash : List Byte → Fingerprint} {stray : List RecipeCell → FileRecipeHead}
variable {files : Set (List Byte × Int)} {owner : InternalFileName → Int}
variable {recipes recipes' : RecipeStore} {buffers : Int → Option RecipeBuffer}
variable {history : Int → List Upload} {userID : Int} {own : RecipeBuffer}

variable {buffer' : Option RecipeBuffer}

section

variable (books : Bookkeeping generateHash files owner recipes buffers history)
include books

/-- The server works for one user, within what that user owns. -/
theorem act {uploads' : List Upload}
    (changed : UserRecipes (inodeKey generateHash userID) (Owned owner recipes userID)
      recipes' buffer' uploads')
    (global : recipes'.globalRecipeFileName = recipes.globalRecipeFileName)
    (within : ∀ name, ¬Owned owner recipes userID name →
      recipes'.recipeFiles name = recipes.recipeFiles name)
    (index : ∀ other name, other ≠ userID → newestUpload (history other) name ≠ none →
      newestVersion recipes'.inodeIndex (inodeKey generateHash other name) =
        newestVersion recipes.inodeIndex (inodeKey generateHash other name))
    (listed : ∀ name, newestUpload uploads' name ≠ none → (name, userID) ∈ files)
    (counted : InodeIndex.Counted recipes'.inodeIndex) :
    Bookkeeping generateHash files owner recipes' (update buffers userID buffer')
      (update history userID uploads') := by
  have sameOwned : Owned owner recipes' = Owned owner recipes := by
    funext other name
    rw [Owned, Owned, global]
  refine ⟨?_, ?_, ?_, counted⟩
  · intro other
    rw [sameOwned]
    by_cases equal : other = userID
    · subst equal
      rw [update_self, update_self]
      exact changed
    · rw [update_of_ne equal, update_of_ne equal]
      refine (books.users other).frame (fun name => index other name equal) ?_
        fun _ mine => mine
      intro name mine
      have foreign : ¬Owned owner recipes userID name := fun claimed =>
        equal (mine.2.symm.trans claimed.2)
      rw [RecipeStore.fileCells, RecipeStore.fileCells, within name foreign]
  · intro other name
    by_cases equal : other = userID
    · subst equal
      rw [update_self]
      exact listed name
    · rw [update_of_ne equal]
      exact books.listed other name
  · intro name filed
    rw [global]
    by_cases mine : Owned owner recipes userID name
    · exact mine.1
    · rw [within name mine] at filed
      exact books.filed name filed

theorem move
    (changed : UserRecipes (inodeKey generateHash userID) (Owned owner recipes userID)
      recipes' buffer' (history userID))
    (within : WritesWithin (Owned owner recipes userID) recipes recipes') :
    Bookkeeping generateHash files owner recipes' (update buffers userID buffer')
      history := by
  have acted := books.act changed within.global within.elsewhere
    (fun _ _ _ _ => by rw [within.index]) (books.listed userID)
    (by rw [within.index]; exact books.counted)
  rw [update_eq_self] at acted
  exact acted

/-- Hand out the next recipe file name to a user without a buffer. -/
theorem create
    (own : RecipeBuffer) (left : recipes.globalRecipeFileName.drawn < 26 ^ fileNameValidLen)
    (absent : buffers userID = none)
    (named : own.recipeFileName = recipes.drawRecipeFileName.1)
    (emptied : own.recipeFileBuffer = []) :
    Bookkeeping generateHash files
      (update owner recipes.drawRecipeFileName.1 userID)
      recipes.drawRecipeFileName.2 (update buffers userID (some own)) history := by
  have unissued := recipes.globalRecipeFileName.draw_fresh left
  have grown : ∀ other name, Owned owner recipes other name →
      Owned (update owner recipes.drawRecipeFileName.1 userID)
        recipes.drawRecipeFileName.2 other name := by
    intro other name mine
    have different : name ≠ recipes.drawRecipeFileName.1 := by
      intro equal
      exact unissued (equal ▸ mine.1)
    exact ⟨mine.1.draw, by rw [update_of_ne different, mine.2]⟩
  refine ⟨?_, books.listed, fun name filed => (books.filed name filed).draw, books.counted⟩
  intro other
  by_cases equal : other = userID
  · subst equal
    rw [update_self]
    have user := books.users other
    rw [absent] at user
    refine user.create rfl rfl (grown other) ?_ ?_ emptied
    · rw [named]
      exact ⟨recipes.globalRecipeFileName.issued_draw_self, update_self _ _ _⟩
    · rw [named]
      by_contra filed
      exact unissued (books.filed _ filed)
  · rw [update_of_ne equal]
    exact (books.users other).frame (fun _ _ => rfl) (fun _ _ => rfl) (grown other)

end

/-! ## Emptying a buffer -/

variable {key : List Byte → Fingerprint} {uploads : List Upload} {last : Upload}
variable {place : InodeFileEntry} {stored rest : List FileRecipeEntry}

private theorem flushRecipeBuffer_own (mine : OwnBuffer key recipes uploads own)
    (unfiled : recipes.fileCells own.recipeFileName = []) :
    recipes.flushRecipeBuffer stray own =
      .ok (recipes.writeRecipeFile own.recipeFileName own.recipeFileBuffer) := by
  rcases mine with ⟨name, head, rest, _, inode, newest, located, _⟩
  have nonempty : own.recipeFileBuffer ≠ [] := by
    intro emptied
    rw [emptied, List.drop_nil] at located
    exact headCells_ne_nil head (List.append_eq_nil_iff.mp located.symm).1
  rw [RecipeStore.flushRecipeBuffer, if_neg nonempty]
  by_cases start : own.lastRecipeHeadPos = 0
  · rw [if_pos start, findOldRecipeFile_eq, inode, newest]
    simp only [unfiled, start]
    rfl
  · rw [if_neg start]

theorem findOldRecipeFile_continues
    (continues : UserRecipes.Continues key recipes uploads own last place stored rest) :
    recipes.findOldRecipeFile own = some place := by
  rw [findOldRecipeFile_eq, continues.buffer.2.2.1, continues.newest]

private theorem flushRecipeBuffer_continues
    (continues : UserRecipes.Continues key recipes uploads own last place stored rest) :
    recipes.flushRecipeBuffer stray own =
      (RecipeStore.appendEntries stray (recipes.fileCells place.recipeFileName)
        place.recipeFileOffset own.recipeFileBuffer).elim (.error recipes) fun appended =>
        .ok (recipes.writeRecipeFile place.recipeFileName appended) := by
  have nonempty := continues.buffer.2.2.2.1.holds.nonempty
  rw [RecipeStore.flushRecipeBuffer, if_neg nonempty, if_pos continues.buffer.2.1,
    findOldRecipeFile_continues continues]
  simp only [if_neg continues.file.holds.nonempty]
  cases RecipeStore.appendEntries stray (recipes.fileCells place.recipeFileName)
    place.recipeFileOffset own.recipeFileBuffer <;> rfl

section

variable (books : Bookkeeping generateHash files owner recipes buffers history)
include books

theorem flush
    (stray : List RecipeCell → FileRecipeHead) (buffered : buffers userID = some own) :
    Bookkeeping generateHash files owner
        (Loop.outcome (recipes.flushRecipeBuffer stray own))
        (update buffers userID none) history ∧
      WritesWithin (Owned owner recipes userID) recipes
        (Loop.outcome (recipes.flushRecipeBuffer stray own)) := by
  have user := books.users userID
  rw [buffered] at user
  rcases user.bufferOwned own rfl with ⟨mine, unfiled⟩
  rcases user.bufferKind with emptied | ownBuffer | ⟨last, place, stored, rest, continues⟩
  · have kept := WritesWithin.refl (Owned owner recipes userID) recipes
    rw [RecipeStore.flushRecipeBuffer, if_pos emptied]
    exact ⟨books.move (user.free (user.unrecorded emptied) (.inl emptied)) kept, kept⟩
  · have written := WritesWithin.write recipes mine own.recipeFileBuffer
    rw [flushRecipeBuffer_own ownBuffer unfiled]
    exact ⟨books.move (user.store ownBuffer) written, written⟩
  · rw [flushRecipeBuffer_continues continues]
    by_cases nothing : rest = []
    · have kept := WritesWithin.refl (Owned owner recipes userID) recipes
      have headOnly := continues.buffer.2.2.2.1
      rw [nothing] at headOnly
      rw [appendEntries_nothing stray _ headOnly]
      exact ⟨books.move (user.free continues.buffer.2.2.2.2 (.inr headOnly)) kept, kept⟩
    · rcases appendEntries_endsWithRecipe stray continues.file continues.buffer.2.2.2.1
        nothing with ⟨appended, result, ends, front⟩
      rcases user.placed last.name (uploaded_of_inProgress continues.current) with
        ⟨place', newest, placeMine⟩
      rw [continues.newest, Option.some.injEq] at newest
      rw [← newest] at placeMine
      have written := WritesWithin.write recipes placeMine appended
      rw [result]
      exact ⟨books.move (user.append continues ends front (by simp)) written, written⟩

private theorem storeNewRecipeFile (buffered : buffers userID = some own)
    (mine : OwnBuffer (inodeKey generateHash userID) recipes (history userID) own)
    {room : RecipeStore × RecipeBuffer} (stored : recipes.storeNewRecipeFile own = .ok room)
    (left : room.1.globalRecipeFileName.drawn < 26 ^ fileNameValidLen) :
    ∃ owner', Bookkeeping generateHash files owner' room.1
      (update buffers userID (some room.2)) history := by
  have user := books.users userID
  rw [buffered] at user
  have written := books.move (user.store mine)
    (.write recipes (user.bufferOwned own rfl).1 own.recipeFileBuffer)
  rw [RecipeStore.storeNewRecipeFile] at stored
  split at stored
  · cases stored
  · cases stored
    let fresh : RecipeBuffer :=
      { own with
        recipeFileName := (recipes.writeRecipeFile own.recipeFileName
          own.recipeFileBuffer).drawRecipeFileName.1
        recipeFileBuffer := []
        lastRecipeHeadPos := 0 }
    have created := written.create fresh (Nat.lt_of_succ_lt left)
      (update_self _ _ _) rfl rfl
    rw [update_idem] at created
    exact ⟨_, created⟩

/-- Append a continuation to its recipe file and go on under the same name. -/
theorem appendOldRecipeFile (buffered : buffers userID = some own)
    (continues : UserRecipes.Continues (inodeKey generateHash userID) recipes
      (history userID) own last place stored rest)
    {room : RecipeStore × RecipeBuffer}
    (result : recipes.appendOldRecipeFile stray own = .ok room) :
    Bookkeeping generateHash files owner room.1
        (update buffers userID (some room.2)) history ∧
      room.1.inodeIndex = recipes.inodeIndex ∧ room.2.recipeFileBuffer = [] ∧
      EndsWithRecipe (room.1.fileCells place.recipeFileName) place.recipeFileOffset
        last.entries := by
  have user := books.users userID
  rw [buffered] at user
  rw [RecipeStore.appendOldRecipeFile, findOldRecipeFile_continues continues] at result
  simp only [if_neg continues.file.holds.nonempty] at result
  by_cases nothing : rest = []
  · have headOnly := continues.buffer.2.2.2.1
    rw [nothing] at headOnly
    rw [appendEntries_nothing stray _ headOnly] at result
    cases result
  · rcases appendEntries_endsWithRecipe stray continues.file continues.buffer.2.2.2.1
      nothing with ⟨appended, found, ends, front⟩
    rcases user.placed last.name (uploaded_of_inProgress continues.current) with
      ⟨place', newest, placeMine⟩
    rw [continues.newest, Option.some.injEq] at newest
    rw [← newest] at placeMine
    rw [found] at result
    simp only [Except.ok.injEq] at result
    subst result
    refine ⟨books.move (user.append continues ends front ?_)
      (.write recipes placeMine appended), rfl, rfl, ?_⟩
    · intro other member
      cases member
      exact ⟨rfl, rfl⟩
    · rw [fileCells_writeRecipeFile, continues.whole]
      exact ends

end

/-! ## Making room for a round -/

variable {name : List Byte} {file : FileShareMD} {room : RecipeStore × RecipeBuffer}

private theorem not_continuesOldRecipe {owned : InternalFileName → Prop}
    (user : UserRecipes key owned recipes (some own) uploads)
    (mine : OwnBuffer key recipes uploads own) (valid : ValidRound uploads name file) :
    ¬RecipeStore.ContinuesOldRecipe stray own file := by
  intro continues
  rcases mine with ⟨file', head, more, uploaded, _, there, located, counted⟩
  have count := continues.2
  rw [readRecipeHead_of_drop located] at count
  cases current : inProgress uploads with
  | none =>
      rw [ValidRound, current] at valid
      rw [valid.2] at count
      omega
  | some last =>
      rw [ValidRound, current] at valid
      rcases user.placed last.name (uploaded_of_inProgress current) with ⟨place, newest, _⟩
      rcases user.whole_or_continues current newest with
        (⟨_, same, _, position, _, ends⟩ | ⟨_, emptied⟩) | ⟨_, _, _, same, continues⟩
      · cases same
        have announced := ends.readRecipeHead stray
        rw [← position, readRecipeHead_of_drop located] at announced
        rw [valid.2.2, announced] at count
        omega
      · rw [emptied own rfl, List.drop_nil] at located
        exact headCells_ne_nil head (List.append_eq_nil_iff.mp located.symm).1
      · cases same
        exact continues.buffer.2.2.2.2 file' _ uploaded there rfl

private theorem continuesOldRecipe
    (continues : UserRecipes.Continues key recipes uploads own last place stored rest)
    (valid : ValidRound uploads name file) :
    RecipeStore.ContinuesOldRecipe stray own file := by
  refine ⟨continues.buffer.2.1, ?_⟩
  have announced := continues.buffer.2.2.2.1.readRecipeHead stray
  have nonempty := List.length_pos_iff.mpr continues.begun
  rw [ValidRound, continues.current] at valid
  rw [continues.buffer.2.1, announced, valid.2.2, continues.whole, List.length_append]
  omega

theorem not_overflows_of_empty (emptied : own.recipeFileBuffer = [])
    (made : recipes.makeRoom stray own file = .ok room) :
    ¬RecipeStore.Overflows own file := by
  intro overflows
  rw [RecipeStore.makeRoom, if_pos overflows] at made
  split at made
  · rw [RecipeStore.appendOldRecipeFile] at made
    split at made
    · cases made
    · simp [emptied, RecipeStore.appendEntries] at made
  · simp [RecipeStore.storeNewRecipeFile, emptied] at made

theorem makeRoom (books : Bookkeeping generateHash files owner recipes buffers history)
    (buffered : buffers userID = some own) (valid : ValidRound (history userID) name file)
    (made : recipes.makeRoom stray own file = .ok room)
    (left : room.1.globalRecipeFileName.drawn < 26 ^ fileNameValidLen) :
    (∃ owner', Bookkeeping generateHash files owner' room.1
      (update buffers userID (some room.2)) history) ∧
    room.1.inodeIndex = recipes.inodeIndex ∧
    (¬RecipeStore.Overflows own file ∧ room = (recipes, own) ∨
      RecipeStore.Overflows own file ∧ room.2.recipeFileBuffer = []) := by
  have user := books.users userID
  rw [buffered] at user
  by_cases overflows : RecipeStore.Overflows own file
  · rcases user.bufferKind with emptied | mine | ⟨last, place, stored, rest, continues⟩
    · exact absurd overflows (not_overflows_of_empty emptied made)
    · rw [RecipeStore.makeRoom, if_pos overflows,
        if_neg (not_continuesOldRecipe user mine valid)] at made
      refine ⟨books.storeNewRecipeFile buffered mine made left, ?_, .inr ⟨overflows, ?_⟩⟩
      all_goals
        rw [RecipeStore.storeNewRecipeFile] at made
        split at made
        · cases made
        · cases made
          rfl
    · rw [RecipeStore.makeRoom, if_pos overflows,
        if_pos (continuesOldRecipe continues valid)] at made
      rcases books.appendOldRecipeFile buffered continues made with ⟨kept, index, emptied, _⟩
      exact ⟨⟨owner, kept⟩, index, .inr ⟨overflows, emptied⟩⟩
  · rw [RecipeStore.makeRoom, if_neg overflows, Except.ok.injEq] at made
    subst made
    refine ⟨⟨owner, ?_⟩, rfl, .inl ⟨overflows, rfl⟩⟩
    rw [← buffered, update_eq_self]
    exact books

end Bookkeeping

end MetaDedup.Server
