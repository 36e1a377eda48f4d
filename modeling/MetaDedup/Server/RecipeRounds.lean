import MetaDedup.Server.RecipeUsers

/-! # A round of an upload

A round makes room in the buffer, places its head and its entries, and moves the rest
of a finished recipe to the recipe file that holds the first part. -/

namespace MetaDedup.Server

open Foundation InternalFileName Function

namespace RecipeStore

variable (generateHash : List Byte → Fingerprint)
variable (stray : List RecipeCell → FileRecipeHead)

/-- Steps 3 and 4 of `secondStageDedup` in the recipe half. -/
def placeRound (recipes : RecipeStore) (buffer : RecipeBuffer) (fullFileName : List Byte)
    (userID : Int) (file : FileShareMD) : RecipeStore × RecipeBuffer :=
  let headed := recipes.placeHead generateHash stray buffer fullFileName userID file
  (headed.1, file.entries.foldl placeEntry headed.2)

theorem foldl_placeEntry (entries : List ShareMDEntry) (buffer : RecipeBuffer) :
    entries.foldl placeEntry buffer =
      { buffer with
        recipeFileBuffer := buffer.recipeFileBuffer ++
          entriesCells (entries.map ShareMDEntry.recipeEntry) } := by
  induction entries generalizing buffer with
  | nil => simp
  | cons entry rest induction =>
      rw [List.foldl_cons, induction, placeEntry]
      simp [entriesCells]

/-- The shares of a file that its recipe file holds when a round of it is placed. If
the buffer has no room for the round, all earlier ones are moved to the file first. -/
def storedShares (recipes : RecipeStore) (buffer : Option RecipeBuffer)
    (fullFileName : List Byte) (userID : Int) (file : FileShareMD) : Int :=
  if ∃ own ∈ buffer, Overflows own file then file.numOfPastSecrets
  else
    match newestVersion recipes.inodeIndex
        (fileName2InodeFP generateHash fullFileName userID) with
    | none => 0
    | some place =>
        let cells := recipes.fileCells place.recipeFileName
        if cells = [] then 0
        else (readRecipeHead stray cells place.recipeFileOffset).numOfShares

/-- When the last round of a file is placed, its recipe file holds nothing of it, or
more shares than the round brings. -/
def EndsWell (recipes : RecipeStore) (buffer : Option RecipeBuffer)
    (fullFileName : List Byte) (userID : Int) (file : FileShareMD) : Prop :=
  EndsHere file → 0 < file.numOfPastSecrets →
    recipes.storedShares generateHash stray buffer fullFileName userID file = 0 ∨
      file.numOfComingSecrets <
        recipes.storedShares generateHash stray buffer fullFileName userID file

instance (recipes : RecipeStore) (buffer : Option RecipeBuffer) (fullFileName : List Byte)
    (userID : Int) (file : FileShareMD) :
    Decidable (recipes.EndsWell generateHash stray buffer fullFileName userID file) :=
  inferInstanceAs (Decidable (_ → _ → _ ∨ _))

end RecipeStore

namespace Bookkeeping

variable {generateHash : List Byte → Fingerprint} {stray : List RecipeCell → FileRecipeHead}
variable {files : Set (List Byte × Int)} {owner : InternalFileName → Int}
variable {recipes : RecipeStore} {buffers : Int → Option RecipeBuffer}
variable {history : Int → List Upload} {userID : Int} {own : RecipeBuffer}
variable {name : List Byte} {file : FileShareMD}

/-- Different files have different inode keys. -/
def KeysApart (generateHash : List Byte → Fingerprint) (files : Set (List Byte × Int)) :
    Prop :=
  files.InjOn fun file => inodeKey generateHash file.2 file.1

theorem placeRound_newestVersion (first : file.numOfPastSecrets = 0)
    (inodeFP : Fingerprint) :
    newestVersion (recipes.placeRound generateHash stray own name userID file).1.inodeIndex
      inodeFP =
    if inodeFP = inodeKey generateHash userID name then
      some ⟨own.recipeFileName, own.recipeFileBuffer.length⟩
    else newestVersion recipes.inodeIndex inodeFP := by
  simp only [RecipeStore.placeRound, RecipeStore.placeHead, if_pos first]
  exact addFileIntoInodeIndex_newestVersion _ _ _ _ _

theorem placeRound_buffer_first (first : file.numOfPastSecrets = 0) :
    (recipes.placeRound generateHash stray own name userID file).2 =
      { own with
        recipeFileBuffer := own.recipeFileBuffer ++
          (headCells ⟨userID, file.fileSize, file.numOfComingSecrets⟩ ++
            entriesCells (roundEntries file))
        lastRecipeHeadPos := own.recipeFileBuffer.length
        lastInodeFP := inodeKey generateHash userID name } := by
  simp only [RecipeStore.placeRound, RecipeStore.placeHead, if_pos first,
    RecipeStore.foldl_placeEntry, RecipeStore.beginRecipe, List.append_assoc]
  rfl

private theorem beginRound (books : Bookkeeping generateHash files owner recipes buffers history)
    (buffered : buffers userID = some own) (apart : KeysApart generateHash files)
    (member : (name, userID) ∈ files) (valid : ValidRound (history userID) name file)
    (first : file.numOfPastSecrets = 0) :
    let placed := recipes.placeRound generateHash stray own name userID file
    Bookkeeping generateHash files owner placed.1
      (update buffers userID (some placed.2))
      (update history userID
        (extendUpload (history userID) name (roundEntries file))) := by
  intro placed
  have user := books.users userID
  rw [buffered] at user
  have index : ∀ inodeFP, newestVersion placed.1.inodeIndex inodeFP = _ :=
    placeRound_newestVersion first
  have elsewhere : ∀ other otherName, newestUpload (history other) otherName ≠ none →
      (otherName, other) ≠ (name, userID) →
      newestVersion placed.1.inodeIndex (inodeKey generateHash other otherName) =
        newestVersion recipes.inodeIndex (inodeKey generateHash other otherName) := by
    intro other otherName uploaded different
    rw [index, if_neg]
    intro equal
    exact different (apart (books.listed other otherName uploaded) member equal)
  have unbegun : ∀ last ∈ inProgress (history userID),
      last.name = name ∧ last.entries = [] := by
    intro last current
    rw [Option.mem_def] at current
    rw [ValidRound, current] at valid
    rcases valid with ⟨_, named, past⟩
    refine ⟨named, List.length_eq_zero_iff.mp ?_⟩
    omega
  have placedBuffer : placed.2 = _ := placeRound_buffer_first first
  have files' : placed.1.recipeFiles = recipes.recipeFiles := by
    simp only [placed, RecipeStore.placeRound, RecipeStore.placeHead, if_pos first]
  refine books.act (user.begin unbegun files' (by rw [index, if_pos rfl]) ?_
    (by rw [placedBuffer]) (by rw [placedBuffer]) (by rw [placedBuffer])
    (by rw [placedBuffer]) ?_) ?_ (fun _ _ => by rw [files']) ?_ ?_ ?_
  · intro other uploaded different
    exact elsewhere userID other uploaded fun equal => different (Prod.ext_iff.mp equal).1
  · rw [roundEntries, List.length_map]
    exact valid.1
  · simp only [placed, RecipeStore.placeRound, RecipeStore.placeHead, if_pos first]
  · intro other otherName different uploaded
    exact elsewhere other otherName uploaded fun equal => different (Prod.ext_iff.mp equal).2
  · intro other uploaded
    by_cases equal : other = name
    · rw [equal]
      exact member
    · rw [newestUpload_extendUpload_of_ne (fun last current => (unbegun last current).1)
        equal] at uploaded
      exact books.listed userID other uploaded
  · simp only [placed, RecipeStore.placeRound, RecipeStore.placeHead, if_pos first]
    exact addFileIntoInodeIndex_counted books.counted _ _ _

theorem placeRound_buffer_empty (later : file.numOfPastSecrets ≠ 0)
    (emptied : own.recipeFileBuffer = []) :
    recipes.placeRound generateHash stray own name userID file =
      (recipes,
        { own with
          recipeFileBuffer := headCells ⟨userID, file.fileSize, file.numOfComingSecrets⟩ ++
            entriesCells (roundEntries file)
          lastRecipeHeadPos := 0
          lastInodeFP := inodeKey generateHash userID name }) := by
  simp only [RecipeStore.placeRound, RecipeStore.placeHead, if_neg later, emptied,
    List.length_nil, if_pos, RecipeStore.foldl_placeEntry, RecipeStore.beginRecipe,
    List.nil_append]
  rfl

theorem placeRound_buffer_nonempty (later : file.numOfPastSecrets ≠ 0)
    (nonempty : own.recipeFileBuffer ≠ []) :
    let head := readRecipeHead stray own.recipeFileBuffer own.lastRecipeHeadPos
    recipes.placeRound generateHash stray own name userID file =
      (recipes,
        { own with
          recipeFileBuffer := overwrite own.recipeFileBuffer own.lastRecipeHeadPos
            (headCells { head with
              numOfShares := head.numOfShares + file.numOfComingSecrets }) ++
            entriesCells (roundEntries file) }) := by
  intro head
  have filled : ¬own.recipeFileBuffer.length = 0 := mt List.length_eq_zero_iff.mp nonempty
  simp only [RecipeStore.placeRound, RecipeStore.placeHead, if_neg later, if_neg filled,
    RecipeStore.foldl_placeEntry]
  rfl

theorem placeRound_recipes (later : file.numOfPastSecrets ≠ 0) :
    (recipes.placeRound generateHash stray own name userID file).1 = recipes := by
  by_cases emptied : own.recipeFileBuffer = []
  · rw [placeRound_buffer_empty later emptied]
  · rw [placeRound_buffer_nonempty later emptied]

variable {key : List Byte → Fingerprint} {uploads : List Upload} {last : Upload}

private theorem unrecorded_extendUpload (current : inProgress uploads = some last)
    (entries : List FileRecipeEntry) {recipeFileName : InternalFileName}
    (hidden : Unrecorded key recipes uploads recipeFileName) :
    Unrecorded key recipes (extendUpload uploads last.name entries) recipeFileName := by
  intro other place uploaded newest
  by_cases equal : other = last.name
  · rw [equal] at newest
    exact hidden last.name place (uploaded_of_inProgress current) newest
  · rw [newestUpload_extendUpload_of_ne (fun now member => by
      rw [Option.mem_def, current, Option.some.injEq] at member
      rw [member]) equal] at uploaded
    exact hidden other place uploaded newest

private theorem continueUpload {owned : InternalFileName → Prop}
    (user : UserRecipes key owned recipes (some own) uploads)
    (current : inProgress uploads = some last) (named : last.name = name)
    (count : file.numOfComingSecrets = file.entries.length)
    (inode : key name = inodeKey generateHash userID name)
    (begun : last.entries ≠ []) (later : file.numOfPastSecrets ≠ 0) :
    UserRecipes key owned recipes
      (some (recipes.placeRound generateHash stray own name userID file).2)
      (extendUpload uploads last.name (roundEntries file)) := by
  have size : file.numOfComingSecrets = (roundEntries file).length := by
    rw [roundEntries, List.length_map]
    exact count
  have grown : last.entries ++ roundEntries file ≠ [] := fun emptied =>
    begun (List.append_eq_nil_iff.mp emptied).1
  rcases user.placed last.name (uploaded_of_inProgress current) with ⟨place, newest, _⟩
  rcases user.whole_or_continues current newest with
    (⟨_, same, recipeFile, position, lastInode, ends⟩ | ⟨ends, emptied⟩) |
      ⟨_, stored, rest, same, continues⟩
  · cases same
    have extended := ends.extend stray size
    rw [← position] at extended
    rw [placeRound_buffer_nonempty later ends.holds.nonempty]
    refine user.extend current newest rfl (fun _ => ?_) (.inl recipeFile)
      (.inl ⟨_, rfl, recipeFile, position, lastInode, ?_⟩)
    · rw [← position]
      exact extended.2
    · rw [← position]
      exact extended.1
  · -- The whole recipe lies in its file, and a continuation begins here.
    have hidden := user.unrecorded (emptied own rfl)
    have different := (hidden last.name place (uploaded_of_inProgress current) newest).symm
    rw [placeRound_buffer_empty later (emptied own rfl)]
    refine user.extend current newest rfl (fun equal => absurd equal different)
      (.inr hidden) (.inr ⟨last.entries, roundEntries file, rfl, fun _ => begun, ends,
        .inr ⟨_, rfl, grown, rfl, ?_, ?_, unrecorded_extendUpload current _ hidden⟩⟩)
    · rw [named, inode]
    · exact .of_eq (List.nil_append _).symm rfl size
  · cases same
    rcases continues.buffer with ⟨_, position, lastInode, cells, hidden⟩
    have extended := cells.extend stray size
    rw [placeRound_buffer_nonempty later cells.holds.nonempty]
    refine user.extend current newest rfl (fun equal => absurd equal.symm continues.elsewhere)
      (.inr hidden) (.inr ⟨stored, rest ++ roundEntries file, ?_, fun _ => continues.begun,
        continues.file, .inr ⟨_, rfl, grown, position, lastInode, ?_,
          unrecorded_extendUpload current _ hidden⟩⟩)
    · rw [continues.whole, List.append_assoc]
    · rw [position]
      exact extended.1

section

variable (books : Bookkeeping generateHash files owner recipes buffers history)
include books

private theorem placeRound
    (buffered : buffers userID = some own) (apart : KeysApart generateHash files)
    (member : (name, userID) ∈ files) (valid : ValidRound (history userID) name file) :
    let placed := recipes.placeRound generateHash stray own name userID file
    Bookkeeping generateHash files owner placed.1
      (update buffers userID (some placed.2))
      (update history userID
        (extendUpload (history userID) name (roundEntries file))) := by
  by_cases first : file.numOfPastSecrets = 0
  · exact books.beginRound buffered apart member valid first
  · have user := books.users userID
    rw [buffered] at user
    cases current : inProgress (history userID) with
    | none =>
        rw [ValidRound, current] at valid
        exact absurd valid.2 first
    | some last =>
        rw [ValidRound, current] at valid
        rcases valid with ⟨count, named, past⟩
        have begun : last.entries ≠ [] := by
          intro emptied
          rw [emptied] at past
          exact first past
        have continued : UserRecipes (inodeKey generateHash userID) _ recipes
            (some (recipes.placeRound generateHash stray own name userID file).2)
            (extendUpload (history userID) last.name (roundEntries file)) :=
          continueUpload user current named count rfl begun first
        rw [named] at continued
        intro placed
        have same : placed.1 = recipes := placeRound_recipes first
        rw [same]
        refine books.act continued rfl (fun _ _ => rfl) (fun _ _ _ _ => rfl) ?_ books.counted
        intro other uploaded
        by_cases equal : other = name
        · rw [equal]
          exact member
        · rw [newestUpload_extendUpload_of_ne (fun now there => by
            rw [Option.mem_def, current, Option.some.injEq] at there
            rw [← there, named]) equal] at uploaded
          exact books.listed userID other uploaded

variable {place : InodeFileEntry}

theorem settle (current : inProgress (history userID) = some last)
    (newest : newestVersion recipes.inodeIndex (inodeKey generateHash userID last.name) =
      some place)
    (whole : Whole (inodeKey generateHash userID) recipes (buffers userID) last place) :
    Bookkeeping generateHash files owner recipes buffers
      (update history userID (settleUpload (history userID))) := by
  have settled := books.act ((books.users userID).settle current newest whole) rfl
    (fun _ _ => rfl) (fun _ _ _ _ => rfl) ?_ books.counted
  · rw [update_eq_self] at settled
    exact settled
  · intro name uploaded
    exact books.listed userID name
      (mt (newestUpload_settleUpload (history userID) name).mpr uploaded)

variable {done : RecipeStore × RecipeBuffer}

private theorem finishRound
    (buffered : buffers userID = some own) (nonempty : own.recipeFileBuffer ≠ [])
    (current : inProgress (history userID) = some last)
    (newest : newestVersion recipes.inodeIndex (inodeKey generateHash userID last.name) =
      some place)
    (count : file.numOfPastSecrets + file.numOfComingSecrets = last.entries.length)
    (coming : 0 ≤ file.numOfComingSecrets)
    (well : RecipeStore.EndsHere file → ∀ stored rest,
      UserRecipes.Continues (inodeKey generateHash userID) recipes (history userID) own last
        place stored rest → file.numOfComingSecrets < stored.length)
    (finished : recipes.finishFile stray own file = .ok done) :
    Bookkeeping generateHash files owner done.1 (update buffers userID (some done.2))
        history ∧
      done.1.inodeIndex = recipes.inodeIndex ∧
      (RecipeStore.EndsHere file ∨ place.recipeFileName = own.recipeFileName →
        Whole (inodeKey generateHash userID) done.1 (some done.2) last place) := by
  have user := books.users userID
  rw [buffered] at user
  have same : Bookkeeping generateHash files owner recipes (update buffers userID (some own))
      history := by
    rw [← buffered, update_eq_self]
    exact books
  rw [RecipeStore.finishFile] at finished
  rcases user.whole_or_continues current newest with whole | ⟨_, stored, rest, here, continues⟩
  · have complete : ¬RecipeStore.ContinuesOldRecipe stray own file := by
      intro more
      rcases whole with ⟨_, here, _, position, _, cells⟩ | ⟨_, emptied⟩
      · cases here
        have count' := more.2
        rw [position, cells.readRecipeHead stray] at count'
        omega
      · exact nonempty (emptied own rfl)
    rw [if_neg complete, ite_self] at finished
    cases finished
    exact ⟨same, rfl, fun _ => whole⟩
  · cases here
    by_cases ends : RecipeStore.EndsHere file
    · have more := well ends stored rest continues
      have counts : RecipeStore.ContinuesOldRecipe stray own file := by
        refine ⟨continues.buffer.2.1, ?_⟩
        rw [continues.buffer.2.1, continues.buffer.2.2.2.1.readRecipeHead stray]
        rw [continues.whole, List.length_append] at count
        omega
      rw [if_pos ends, if_pos counts] at finished
      rcases books.appendOldRecipeFile buffered continues finished with
        ⟨kept, index, emptied, moved⟩
      refine ⟨kept, index, fun _ => .inr ⟨moved, ?_⟩⟩
      intro other member
      cases member
      exact emptied
    · rw [if_neg ends] at finished
      cases finished
      refine ⟨same, rfl, ?_⟩
      rintro (ended | here)
      · exact absurd ended ends
      · exact absurd here continues.elsewhere

end

private theorem placeRound_recipeFileName (recipes : RecipeStore) (own : RecipeBuffer) :
    (recipes.placeRound generateHash stray own name userID file).2.recipeFileName =
      own.recipeFileName := by
  rw [RecipeStore.placeRound, RecipeStore.foldl_placeEntry, RecipeStore.placeHead]
  split
  · rfl
  · split <;> rfl

private theorem placeRound_nonempty (recipes : RecipeStore) (own : RecipeBuffer) :
    (recipes.placeRound generateHash stray own name userID file).2.recipeFileBuffer ≠ [] := by
  by_cases first : file.numOfPastSecrets = 0
  · rw [placeRound_buffer_first first]
    simp [headCells]
  · by_cases emptied : own.recipeFileBuffer = []
    · rw [placeRound_buffer_empty first emptied]
      simp [headCells]
    · rw [placeRound_buffer_nonempty first emptied]
      simp [overwrite, headCells]

theorem placeRound_global (recipes : RecipeStore) (own : RecipeBuffer) :
    (recipes.placeRound generateHash stray own name userID file).1.globalRecipeFileName =
      recipes.globalRecipeFileName := by
  by_cases first : file.numOfPastSecrets = 0
  · simp only [RecipeStore.placeRound, RecipeStore.placeHead, if_pos first]
  · rw [placeRound_recipes first]

theorem appendOldRecipeFile_global (appended : recipes.appendOldRecipeFile stray own = .ok done) :
    done.1.globalRecipeFileName = recipes.globalRecipeFileName := by
  rw [RecipeStore.appendOldRecipeFile] at appended
  cases found : recipes.findOldRecipeFile own with
  | none => simp [found] at appended
  | some entry =>
      cases grown : RecipeStore.appendEntries stray (recipes.fileCells entry.recipeFileName)
        entry.recipeFileOffset own.recipeFileBuffer with
      | none => simp [found, grown] at appended
      | some cells =>
          simp only [found, grown] at appended
          split at appended
          · cases appended
          · rw [Except.ok.injEq] at appended
            rw [← appended]
            rfl

theorem finishFile_global (finished : recipes.finishFile stray own file = .ok done) :
    done.1.globalRecipeFileName = recipes.globalRecipeFileName := by
  rw [RecipeStore.finishFile] at finished
  split at finished
  · split at finished
    · exact appendOldRecipeFile_global finished
    · rw [Except.ok.injEq] at finished
      rw [← finished]
  · rw [Except.ok.injEq] at finished
    rw [← finished]

variable {room : RecipeStore × RecipeBuffer}

/-- If the rest of a finished recipe lies apart from its first part, that part counts
more shares than the last round brings. -/
theorem coming_lt_stored (valid : ValidRound (history userID) name file)
    (well : recipes.EndsWell generateHash stray (some own) name userID file)
    (ends : RecipeStore.EndsHere file)
    (made : ¬RecipeStore.Overflows own file ∧ room = (recipes, own) ∨
      RecipeStore.Overflows own file ∧ room.2.recipeFileBuffer = [])
    (current : inProgress (extendUpload (history userID) name (roundEntries file)) = some last)
    (count : file.numOfPastSecrets + file.numOfComingSecrets = last.entries.length)
    {stored rest : List FileRecipeEntry}
    (continues : UserRecipes.Continues (inodeKey generateHash userID)
      (room.1.placeRound generateHash stray room.2 name userID file).1
      (extendUpload (history userID) name (roundEntries file))
      (room.1.placeRound generateHash stray room.2 name userID file).2 last place stored
      rest) :
    file.numOfComingSecrets < stored.length := by
  have named : last.name = name := by
    rw [inProgress_extendUpload, Option.some.injEq] at current
    rw [← current]
  have newest := continues.newest
  rw [named] at newest
  by_cases first : file.numOfPastSecrets = 0
  · -- A recipe that begins in this round lies in the buffer.
    have uploaded := uploaded_of_inProgress continues.current
    have hidden := continues.buffer.2.2.2.2 last.name place uploaded continues.newest
    rw [placeRound_newestVersion first, if_pos rfl, Option.some.injEq] at newest
    rw [placeRound_buffer_first first, ← newest] at hidden
    exact absurd rfl hidden
  · have past : 0 < file.numOfPastSecrets := by
      have nonnegative : 0 ≤ file.numOfPastSecrets := by
        cases before : inProgress (history userID) with
        | none =>
            rw [ValidRound, before] at valid
            rw [valid.2]
        | some earlier =>
            rw [ValidRound, before] at valid
            rw [valid.2.2]
            omega
      omega
    have begun := List.length_pos_iff.mpr continues.begun
    have bound := well ends past
    rw [placeRound_recipes first] at newest
    rcases made with ⟨roomy, same⟩ | ⟨overflows, emptied⟩
    · subst same
      have file' := continues.file
      rw [placeRound_recipes first] at file'
      have shares : recipes.storedShares generateHash stray (some own) name userID file =
          stored.length := by
        have none' : ¬∃ other ∈ some own, RecipeStore.Overflows other file := by
          simpa using roomy
        change newestVersion recipes.inodeIndex
          (fileName2InodeFP generateHash name userID) = some place at newest
        rw [RecipeStore.storedShares, if_neg none', newest]
        simp only [if_neg file'.holds.nonempty]
        exact file'.readRecipeHead stray
      rw [shares] at bound
      omega
    · have all : recipes.storedShares generateHash stray (some own) name userID file =
          file.numOfPastSecrets :=
        if_pos ⟨own, rfl, overflows⟩
      -- The buffer holds this round only.
      have size := continues.buffer.2.2.2.1.length
      rw [placeRound_buffer_empty first emptied] at size
      simp only [List.length_append, headCells_length, entriesCells_length, roundEntries,
        List.length_map, fileRecipeEntrySize] at size
      rw [all] at bound
      rw [continues.whole, List.length_append] at count
      have coming := valid.1
      omega

/-- A round leaves its upload in progress. The recipe lies in one place afterwards, if the
round ends the file or finds the recipe in the buffer and room there. -/
theorem round (books : Bookkeeping generateHash files owner recipes buffers history)
    (buffered : buffers userID = some own) (apart : KeysApart generateHash files)
    (member : (name, userID) ∈ files) (valid : ValidRound (history userID) name file)
    (well : recipes.EndsWell generateHash stray (some own) name userID file)
    (made : recipes.makeRoom stray own file = .ok room)
    (finished : RecipeStore.finishFile stray
      (room.1.placeRound generateHash stray room.2 name userID file).1
      (room.1.placeRound generateHash stray room.2 name userID file).2 file = .ok done)
    (left : done.1.globalRecipeFileName.drawn < 26 ^ fileNameValidLen) :
    let extended := extendUpload (history userID) name (roundEntries file)
    ∃ owner', Bookkeeping generateHash files owner' done.1
        (update buffers userID (some done.2)) (update history userID extended) ∧
      (∀ inodeFP, inodeFP ≠ inodeKey generateHash userID name →
        newestVersion done.1.inodeIndex inodeFP = newestVersion recipes.inodeIndex inodeFP) ∧
      ∀ last place, inProgress extended = some last →
        newestVersion done.1.inodeIndex (inodeKey generateHash userID name) = some place →
        (RecipeStore.EndsHere file ∨ file.numOfPastSecrets = 0 ∨
          ¬RecipeStore.Overflows own file ∧ ∃ offset,
            newestVersion recipes.inodeIndex (inodeKey generateHash userID name) =
              some ⟨own.recipeFileName, offset⟩) →
        Whole (inodeKey generateHash userID) done.1 (some done.2) last place := by
  intro extended
  rw [finishFile_global finished, placeRound_global] at left
  rcases books.makeRoom buffered valid made left with ⟨⟨owner', roomBooks⟩, sameIndex, cases'⟩
  have placed : Bookkeeping generateHash files owner'
      (room.1.placeRound generateHash stray room.2 name userID file).1
      (update (update buffers userID (some room.2)) userID
        (some (room.1.placeRound generateHash stray room.2 name userID file).2)) _ :=
    roomBooks.placeRound (update_self _ _ _) apart member valid
  rw [update_idem] at placed
  have current : inProgress extended = _ :=
    inProgress_extendUpload (history userID) name (roundEntries file)
  have count : file.numOfPastSecrets + file.numOfComingSecrets =
      (((inProgress (history userID)).elim [] Upload.entries) ++
        roundEntries file).length := by
    rw [List.length_append, roundEntries, List.length_map]
    cases before : inProgress (history userID) with
    | none =>
        rw [ValidRound, before] at valid
        rw [valid.1, valid.2]
        rfl
    | some earlier =>
        rw [ValidRound, before] at valid
        rw [valid.1, valid.2.2]
        rfl
  have now : inProgress (update history userID extended userID) = inProgress extended := by
    rw [update_self]
  rw [current] at now
  rcases (placed.users userID).placed name (uploaded_of_inProgress now) with
    ⟨place, newest, _⟩
  have done' := placed.finishRound (update_self _ _ _) (placeRound_nonempty _ _) now newest
    count (by rw [valid.1]; omega) ?_ finished
  · rcases done' with ⟨kept, index, whole⟩
    rw [update_idem] at kept
    refine ⟨owner', kept, ?_, ?_⟩
    · intro inodeFP different
      by_cases first : file.numOfPastSecrets = 0
      · rw [index, placeRound_newestVersion first, if_neg different, sameIndex]
      · rw [index, placeRound_recipes first, sameIndex]
    · intro last place' same newest' holds
      cases current.symm.trans same
      rw [index] at newest'
      cases newest.symm.trans newest'
      apply whole
      rw [placeRound_recipeFileName]
      by_cases first : file.numOfPastSecrets = 0
      · rw [placeRound_newestVersion first, if_pos rfl] at newest
        cases newest
        exact .inr rfl
      · rw [placeRound_recipes first] at newest
        rcases holds with ends | begins | ⟨roomy, offset, there⟩
        · exact .inl ends
        · exact absurd begins first
        · rcases cases' with ⟨_, rfl⟩ | ⟨overflows, _⟩
          · cases there.symm.trans newest
            exact .inr rfl
          · exact absurd overflows roomy
  · intro ends stored rest continues
    rw [update_self] at continues
    exact coming_lt_stored valid well ends cases' current count continues

end Bookkeeping

end MetaDedup.Server
