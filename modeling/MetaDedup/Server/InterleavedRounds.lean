import MetaDedup.Server.RecipeCompleteness

/-! # Interleaved rounds of one user

Several clients of one user may upload different files at the same time, so that the
rounds of the files come in any order. A buffer node has one last recipe head, and a
round that goes on with a file counts its shares there, whichever file the head is for.
A round only goes on with the recipe of its own file if that recipe is the last one in
the buffer. -/

namespace MetaDedup.Server

open Foundation InternalFileName Function Relation

/-- The entries that the rounds of the newest upload of each file have brought so far. -/
abbrev RecordedRounds := Int → List Byte → Option (List FileRecipeEntry)

def earlierEntries (recorded : Option (List FileRecipeEntry)) (file : FileShareMD) :
    List FileRecipeEntry :=
  if file.numOfPastSecrets = 0 then [] else recorded.getD []

/-- A round begins an upload or announces how many shares of the file have come before. -/
def ContinuesFile (recorded : Option (List FileRecipeEntry)) (file : FileShareMD) : Prop :=
  file.numOfComingSecrets = file.entries.length ∧
    (file.numOfPastSecrets = 0 ∨
      ∃ earlier, recorded = some earlier ∧ file.numOfPastSecrets = earlier.length)

def RecordedRounds.add (recorded : RecordedRounds) (userID : Int) (name : List Byte)
    (file : FileShareMD) : RecordedRounds :=
  update recorded userID (update (recorded userID) name
    (some (earlierEntries (recorded userID name) file ++ roundEntries file)))

namespace DedupCore

def readBack (generateHash : List Byte → Fingerprint)
    (stray : List RecipeCell → FileRecipeHead) (core : DedupCore) (userID : Int)
    (fullFileName : List Byte) : Option (Int × List FileRecipeEntry) :=
  (core.restoreRecipe generateHash stray userID fullFileName 0).map fun recipe =>
    (recipe.1.numOfShares, recipe.2)

def interleavedRounds : Records RecordedRounds where
  valid := fun recorded userID name file => ContinuesFile (recorded userID name) file
  add := RecordedRounds.add

/-- The rounds of the files of a user come in any order. -/
abbrev RoundStep := RecordedStep interleavedRounds

/-- If the round goes on with a file, the recipe of the file is the last one in the buffer
of the user. A round that the buffer has no room for is the last of its file, and more
shares of the file have come before it than it brings. -/
def LastInBuffer (generateHash : List Byte → Fingerprint) (core : DedupCore)
    (name : List Byte) (userID : Int) (file : FileShareMD) : Prop :=
  file.numOfPastSecrets ≠ 0 → ∃ own ∈ userBuffer core.bufferNodes userID,
    own.recipeFileBuffer ≠ [] ∧
      newestVersion core.recipes.inodeIndex (fileName2InodeFP generateHash name userID) =
        some ⟨own.recipeFileName, own.lastRecipeHeadPos⟩ ∧
      (RecipeStore.Overflows own file → RecipeStore.EndsHere file ∧
        file.numOfComingSecrets < file.numOfPastSecrets)

instance (generateHash : List Byte → Fingerprint) (core : DedupCore) (name : List Byte)
    (userID : Int) (file : FileShareMD) :
    Decidable (core.LastInBuffer generateHash name userID file) :=
  inferInstanceAs (Decidable (_ → _))

/-- A round appends its entries to the recipe of its file, and what is read back for the
other files of the user stays as it is. -/
def ChangesOwnRecipe (generateHash : List Byte → Fingerprint)
    (stray : List RecipeCell → FileRecipeHead) (recorded : RecordedRounds)
    (core next : DedupCore) (userID : Int) (name : List Byte) (file : FileShareMD) : Prop :=
  let earlier := earlierEntries
    ((core.readBack generateHash stray userID file.fullName).map Prod.snd) file
  next.readBack generateHash stray userID file.fullName =
      some (((earlier ++ roundEntries file).length : Int), earlier ++ roundEntries file) ∧
    ∀ fullFileName other, formatFullFileName fullFileName = some other → other ≠ name →
      recorded userID other ≠ none →
      next.readBack generateHash stray userID fullFileName =
        core.readBack generateHash stray userID fullFileName

end DedupCore

/-! ## Where the recipes lie -/

private theorem newestUpload_settleUpload_entries (uploads : List Upload) (name : List Byte) :
    (newestUpload (settleUpload uploads) name).map Upload.entries =
      (newestUpload uploads name).map Upload.entries := by
  cases uploads with
  | nil => rfl
  | cons last rest =>
      by_cases own : last.name = name
      · simp [newestUpload, settleUpload, own]
      · simp [newestUpload, settleUpload, own]

/-- The recipes are in order, the last upload of a user counts as being in progress, and
nothing of it lies behind a head of its own. -/
structure RoundRecipes (generateHash : List Byte → Fingerprint)
    (files : Set (List Byte × Int)) (owner : InternalFileName → Int) (recipes : RecipeStore)
    (buffers : Int → Option RecipeBuffer) (history : Int → List Upload)
    (recorded : RecordedRounds) : Prop where
  books : Bookkeeping generateHash files owner recipes buffers history
  entries : ∀ userID name,
    (newestUpload (history userID) name).map Upload.entries = recorded userID name
  unsettled : ∀ userID, inProgress (history userID) = none → history userID = []
  whole : ∀ userID last own place, inProgress (history userID) = some last →
    buffers userID = some own → own.recipeFileBuffer ≠ [] →
    newestVersion recipes.inodeIndex (inodeKey generateHash userID last.name) =
      some place →
    place.recipeFileName = own.recipeFileName

namespace RoundRecipes

variable {generateHash : List Byte → Fingerprint} {stray : List RecipeCell → FileRecipeHead}
variable {files : Set (List Byte × Int)} {owner : InternalFileName → Int}
variable {recipes : RecipeStore} {buffers : Int → Option RecipeBuffer}
variable {history : Int → List Upload} {recorded : RecordedRounds} {userID : Int}
variable {own : RecipeBuffer} {name : List Byte} {file : FileShareMD} {last : Upload}
variable {place : InodeFileEntry}

section

variable (state : RoundRecipes generateHash files owner recipes buffers history recorded)
include state

theorem located (current : inProgress (history userID) = some last)
    (newest : newestVersion recipes.inodeIndex (inodeKey generateHash userID last.name) =
      some place) :
    Whole (inodeKey generateHash userID) recipes (buffers userID) last place := by
  rcases (state.books.users userID).whole_or_continues current newest with
    whole | ⟨own, stored, rest, here, continues⟩
  · exact whole
  · exact absurd (state.whole userID last own place current here
      continues.buffer.2.2.2.1.holds.nonempty newest) continues.elsewhere

theorem exists_upload
    {entries : List FileRecipeEntry} (known : recorded userID name = some entries) :
    ∃ upload, newestUpload (history userID) name = some upload ∧ upload.entries = entries := by
  rw [← state.entries] at known
  exact Option.map_eq_some_iff.mp known

private theorem holdsRecipe
    {entries : List FileRecipeEntry} (known : recorded userID name = some entries) :
    ∃ place, newestVersion recipes.inodeIndex (inodeKey generateHash userID name) =
        some place ∧
      HoldsRecipe (recipeContent recipes (buffers userID) place.recipeFileName)
        place.recipeFileOffset entries := by
  rcases state.exists_upload known with ⟨upload, newestOf, rfl⟩
  have user := state.books.users userID
  rcases user.placed name (by rw [newestOf]; exact Option.some_ne_none _) with
    ⟨place, newest, _⟩
  refine ⟨place, newest, ?_⟩
  by_cases mine : ∃ last ∈ inProgress (history userID), last.name = name
  · rcases mine with ⟨last, current, rfl⟩
    cases newestOf.symm.trans (newestUpload_inProgress current)
    exact user.holdsRecipe (state.located current newest)
  · exact user.settled name upload place newestOf
      (fun last current named => mine ⟨last, current, named⟩) newest

end

/-! ## A round -/

private theorem settle
    (state : RoundRecipes generateHash files owner recipes buffers history recorded)
    (userID : Int) :
    Bookkeeping generateHash files owner recipes buffers
      (update history userID (settleUpload (history userID))) := by
  cases current : inProgress (history userID) with
  | none =>
      have same : settleUpload (history userID) = history userID := by
        rw [state.unsettled userID current]
        rfl
      rw [same, update_eq_self]
      exact state.books
  | some last =>
      rcases (state.books.users userID).placed last.name (uploaded_of_inProgress current)
        with ⟨place, newest, _⟩
      exact state.books.settle current newest (state.located current newest)

/-- The recipe at the end of the buffer is that of the upload in progress. -/
theorem last_of_newest
    (state : RoundRecipes generateHash files owner recipes buffers history recorded)
    {upload : Upload} (newestOf : newestUpload (history userID) name = some upload)
    (here : buffers userID = some own) (nonempty : own.recipeFileBuffer ≠ [])
    (newest : newestVersion recipes.inodeIndex (inodeKey generateHash userID name) =
      some ⟨own.recipeFileName, own.lastRecipeHeadPos⟩) :
    inProgress (history userID) = some upload ∧ upload.name = name := by
  cases current : inProgress (history userID) with
  | none =>
      rw [state.unsettled userID current] at newestOf
      cases newestOf
  | some last =>
      have user := state.books.users userID
      rcases user.placed last.name (uploaded_of_inProgress current) with
        ⟨place, lastNewest, _⟩
      rcases state.located current lastNewest with
        ⟨_, same, recipeFile, position, _, _⟩ | ⟨_, emptied⟩
      · cases here.symm.trans same
        have named : last.name = name := by
          by_contra different
          -- Another recipe at the place of the last one would have to end before it.
          rcases user.apart last current place lastNewest name upload _ newestOf
            (Ne.symm different) newest recipeFile with ⟨head, rest, located, _⟩
          rw [position, List.drop_take, Nat.sub_self, List.take_zero] at located
          exact headCells_ne_nil head (List.append_eq_nil_iff.mp located.symm).1
        subst named
        cases newestOf.symm.trans (newestUpload_inProgress current)
        exact ⟨rfl, rfl⟩
      · exact absurd (emptied own here) nonempty

/-- The uploads of a user as a round finds them. When the round begins an upload, the one
before counts as finished. -/
theorem exists_uploads {core : DedupCore}
    (state : RoundRecipes generateHash files owner core.recipes
      (userBuffer core.bufferNodes) history recorded)
    (valid : ContinuesFile (recorded userID name) file)
    (meets : core.LastInBuffer generateHash name userID file) :
    ∃ uploads, Bookkeeping generateHash files owner core.recipes
        (userBuffer core.bufferNodes) (update history userID uploads) ∧
      ValidRound uploads name file ∧ (∀ last ∈ inProgress uploads, last.name = name) ∧
      (∀ other, (newestUpload uploads other).map Upload.entries = recorded userID other) ∧
      (inProgress uploads).elim [] Upload.entries =
        earlierEntries (recorded userID name) file := by
  rcases valid with ⟨count, begins⟩
  by_cases first : file.numOfPastSecrets = 0
  · refine ⟨settleUpload (history userID), state.settle userID, ?_, ?_, ?_, ?_⟩
    · simp [ValidRound, inProgress_settleUpload, count, first]
    · simp [inProgress_settleUpload]
    · intro other
      rw [newestUpload_settleUpload_entries, state.entries]
    · simp [inProgress_settleUpload, earlierEntries, first]
  · rcases meets first with ⟨own, here, nonempty, newest, _⟩
    rcases begins.resolve_left first with ⟨earlier, known, past⟩
    rcases state.exists_upload known with ⟨upload, newestOf, rfl⟩
    rcases state.last_of_newest newestOf here nonempty newest with ⟨current, named⟩
    refine ⟨history userID, ?_, ?_, ?_, state.entries userID, ?_⟩
    · rw [update_eq_self]
      exact state.books
    · simp [ValidRound, current, count, named, past]
    · simp [current, named]
    · simp [current, earlierEntries, first, known]

private theorem endsWell {core : DedupCore}
    (state : RoundRecipes generateHash files owner core.recipes
      (userBuffer core.bufferNodes) history recorded)
    (meets : core.LastInBuffer generateHash name userID file) :
    core.recipes.EndsWell generateHash stray (userBuffer core.bufferNodes userID) name userID
      file := by
  intro _ past
  rcases meets (by omega) with ⟨own, here, _, newest, full⟩
  by_cases overflows : RecipeStore.Overflows own file
  · right
    rw [RecipeStore.storedShares, if_pos ⟨own, here, overflows⟩]
    exact (full overflows).2
  · left
    have fits : ¬∃ other ∈ userBuffer core.bufferNodes userID,
        RecipeStore.Overflows other file := by
      rintro ⟨other, there, overflows'⟩
      cases here.symm.trans there
      exact overflows overflows'
    have unfiled := ((state.books.users userID).bufferOwned own here).2
    rw [RecipeStore.storedShares, if_neg fits, newest]
    simp [unfiled]

private theorem add (state : RoundRecipes generateHash files owner recipes buffers history recorded)
    (apart : Bookkeeping.KeysApart generateHash files) (member : (name, userID) ∈ files)
    {recipes' : RecipeStore} {owner' : InternalFileName → Int} {uploads : List Upload}
    {buffers' : Int → Option RecipeBuffer}
    (books : Bookkeeping generateHash files owner' recipes' buffers'
      (update history userID uploads))
    (current : inProgress uploads =
      some ⟨name, earlierEntries (recorded userID name) file ++ roundEntries file, false⟩)
    (others : ∀ other, other ≠ name → (newestUpload uploads other).map Upload.entries =
      recorded userID other)
    (foreign : ∀ other own, other ≠ userID → buffers' other = some own →
      buffers other = some own)
    (index : ∀ inodeFP, inodeFP ≠ inodeKey generateHash userID name →
      newestVersion recipes'.inodeIndex inodeFP = newestVersion recipes.inodeIndex inodeFP)
    (whole : ∀ last place, inProgress uploads = some last →
      newestVersion recipes'.inodeIndex (inodeKey generateHash userID name) = some place →
      Whole (inodeKey generateHash userID) recipes' (buffers' userID) last place) :
    RoundRecipes generateHash files owner' recipes' buffers' (update history userID uploads)
      (RecordedRounds.add recorded userID name file) where
  books := books
  entries := by
    intro user other
    by_cases equal : user = userID
    · subst equal
      rw [update_self, RecordedRounds.add, update_self]
      by_cases same : other = name
      · subst same
        rw [update_self, newestUpload_inProgress current]
        rfl
      · rw [update_of_ne same, others other same]
    · rw [update_of_ne equal, RecordedRounds.add, update_of_ne equal, state.entries]
  unsettled := by
    intro user nothing
    by_cases equal : user = userID
    · subst equal
      rw [update_self, current] at nothing
      cases nothing
    · rw [update_of_ne equal] at nothing ⊢
      exact state.unsettled user nothing
  whole := by
    intro user last own place now here nonempty there
    by_cases equal : user = userID
    · subst equal
      rw [update_self] at now
      cases current.symm.trans now
      rcases whole _ place current there with ⟨_, same, named, _⟩ | ⟨_, emptied⟩
      · cases here.symm.trans same
        exact named.symm
      · exact absurd (emptied own here) nonempty
    · rw [update_of_ne equal] at now
      have different : inodeKey generateHash user last.name ≠
          inodeKey generateHash userID name := by
        intro same
        exact equal (Prod.ext_iff.mp (apart (state.books.listed user last.name
          (uploaded_of_inProgress now)) member same)).2
      rw [index _ different] at there
      exact state.whole user last own place now (foreign user own equal here) nonempty there

end RoundRecipes

namespace DedupCore

variable {generateHash : List Byte → Fingerprint} {stray : List RecipeCell → FileRecipeHead}
variable {files : Set (List Byte × Int)} {recorded : RecordedRounds}
variable {core next : DedupCore} {userID : Int} {name : List Byte} {file : FileShareMD}

/-! ## A call -/

/-- The link has one node for each user and, as long as recipe file names are left, the
recipes are those that the rounds have brought. -/
def Interleaved (generateHash : List Byte → Fingerprint) (files : Set (List Byte × Int))
    (core : DedupCore) (recorded : RecordedRounds) : Prop :=
  (core.bufferNodes.map PerUserBufferNode.userID).Nodup ∧
    (core.recipes.globalRecipeFileName.drawn < 26 ^ fileNameValidLen →
      ∃ owner history, RoundRecipes generateHash files owner core.recipes
        (userBuffer core.bufferNodes) history recorded)

theorem secondStageDedup_interleaved (interleaved : core.Interleaved generateHash files recorded)
    (apart : Bookkeeping.KeysApart generateHash files)
    (formatted : formatFullFileName file.fullName = some name)
    (member : (name, userID) ∈ files) (valid : ContinuesFile (recorded userID name) file)
    (meets : core.LastInBuffer generateHash name userID file)
    {intraUserDupStatList : Nat → Bool} {shareDataBuffer : Buffer Byte}
    {expired : PerUserBufferNode → Bool}
    (returned : core.secondStageDedup generateHash stray userID [file] intraUserDupStatList
      shareDataBuffer expired = .ok next) :
    core.recipes.globalRecipeFileName.drawn ≤ next.recipes.globalRecipeFileName.drawn ∧
      next.Interleaved generateHash files
        (RecordedRounds.add recorded userID name file) := by
  rcases secondStageDedup_nodes interleaved.1 returned with ⟨distinct, drawn, foreign⟩
  refine ⟨drawn, distinct, fun left => ?_⟩
  rcases interleaved.2 (Nat.lt_of_le_of_lt drawn left) with ⟨owner, history, state⟩
  rcases state.exists_uploads valid meets with
    ⟨uploads, books, round, named, entries, earlier⟩
  rw [← update_self userID uploads history] at round
  rcases secondStageDedup_round interleaved.1 books apart formatted member round
    (state.endsWell meets) returned left with ⟨owner', kept, index, whole⟩
  rw [update_self] at kept whole
  rw [update_idem] at kept
  refine ⟨owner', _, state.add apart member kept ?_ ?_ foreign index ?_⟩
  · rw [inProgress_extendUpload, earlier]
  · intro other different
    rw [newestUpload_extendUpload_of_ne named different, entries]
  · intro last place current newest
    apply whole last place current newest
    by_cases first : file.numOfPastSecrets = 0
    · exact .inr (.inl first)
    · rcases meets first with ⟨own, here, _, there, full⟩
      by_cases overflows : RecipeStore.Overflows own file
      · exact .inl (full overflows).1
      · exact .inr (.inr ⟨own, here, overflows, _, there⟩)

/-! ## Runs -/

private theorem interleaved_empty (generateHash : List Byte → Fingerprint)
    (files : Set (List Byte × Int)) :
    empty.Interleaved generateHash files fun _ _ => none := by
  refine ⟨List.nodup_nil, fun left => ?_⟩
  rcases (inOrder_empty generateHash files).2 left with ⟨owner, books⟩
  exact ⟨owner, fun _ => [], books, fun _ _ => rfl, fun _ _ => rfl,
    fun _ _ _ _ current => nomatch current⟩

private theorem interleaved_of_reachable (apart : Bookkeeping.KeysApart generateHash files)
    {state : DedupCore × RecordedRounds}
    (reachable : ReflTransGen
      (RoundStep generateHash stray files (LastInBuffer generateHash))
      (empty, fun _ _ => none) state) :
    state.1.Interleaved generateHash files state.2 := by
  induction reachable with
  | refl => exact interleaved_empty generateHash files
  | tail _ step induction =>
      cases step with
      | firstStage core recorded userID package => exact induction
      | round formatted member valid meets returned =>
          exact (secondStageDedup_interleaved induction apart formatted member valid meets
            returned).2

theorem Interleaved.readBack (interleaved : core.Interleaved generateHash files recorded)
    (stray : List RecipeCell → FileRecipeHead)
    (left : core.recipes.globalRecipeFileName.drawn < 26 ^ fileNameValidLen)
    {fullFileName : List Byte} (formatted : formatFullFileName fullFileName = some name)
    {entries : List FileRecipeEntry} (found : recorded userID name = some entries) :
    core.readBack generateHash stray userID fullFileName =
      some ((entries.length : Int), entries) := by
  rcases interleaved.2 left with ⟨owner, history, state⟩
  rcases state.holdsRecipe found with ⟨place, newest, holds⟩
  rcases restoreRecipe_of_holds formatted state.books.counted newest holds with
    ⟨head, restored, count⟩
  rw [DedupCore.readBack, restored, ← count]
  rfl

end DedupCore

/-- In every run in which the rounds that go on with a file find its recipe as the last
one in the buffer, a round changes the recipe of its own file only. -/
theorem round_changes_own_recipe {generateHash : List Byte → Fingerprint}
    {stray : List RecipeCell → FileRecipeHead} {files : Set (List Byte × Int)}
    (apart : Bookkeeping.KeysApart generateHash files) {core next : DedupCore}
    {recorded : RecordedRounds}
    (reachable : ReflTransGen
      (DedupCore.RoundStep generateHash stray files (DedupCore.LastInBuffer generateHash))
      (.empty, fun _ _ => none) (core, recorded))
    {userID : Int} {name : List Byte} {file : FileShareMD}
    (formatted : formatFullFileName file.fullName = some name)
    (member : (name, userID) ∈ files) (valid : ContinuesFile (recorded userID name) file)
    (meets : core.LastInBuffer generateHash name userID file)
    {intraUserDupStatList : Nat → Bool} {shareDataBuffer : Buffer Byte}
    {expired : PerUserBufferNode → Bool}
    (returned : core.secondStageDedup generateHash stray userID [file] intraUserDupStatList
      shareDataBuffer expired = .ok next)
    (left : next.recipes.globalRecipeFileName.drawn < 26 ^ fileNameValidLen) :
    DedupCore.ChangesOwnRecipe generateHash stray recorded core next userID name file := by
  have interleaved : core.Interleaved generateHash files recorded :=
    DedupCore.interleaved_of_reachable apart reachable
  rcases DedupCore.secondStageDedup_interleaved interleaved apart formatted member valid
    meets returned with ⟨drawn, after⟩
  have leftBefore := Nat.lt_of_le_of_lt drawn left
  have same : earlierEntries
      ((core.readBack generateHash stray userID file.fullName).map Prod.snd) file =
        earlierEntries (recorded userID name) file := by
    rw [earlierEntries, earlierEntries]
    split
    next => rfl
    next later =>
      rcases valid.2 with begins | ⟨earlier, known, _⟩
      · exact absurd begins later
      · rw [interleaved.readBack stray leftBefore formatted known, known]
        rfl
  constructor
  · rw [same]
    apply after.readBack stray left formatted
    rw [RecordedRounds.add, update_self, update_self]
  · intro fullFileName other named different uploaded
    rcases Option.ne_none_iff_exists'.mp uploaded with ⟨entries, known⟩
    rw [interleaved.readBack stray leftBefore named known]
    apply after.readBack stray left named
    rw [RecordedRounds.add, update_self, update_of_ne different, known]

/-! ## Two files of one user -/

def userFiles : Set (List Byte × Int) := {([47, 102], 1), ([47, 103], 1)}

def sendRound (state : DedupCore × RecordedRounds) (round : FileShareMD) (byte : Byte) :=
  sendOneShare DedupCore.interleavedRounds state 1 round byte false

def firstBegun : DedupCore × RecordedRounds :=
  sendRound (.empty, fun _ _ => none) (oneShareRound [47, 102] 0 0 2 7) 7

def bothBegun : DedupCore × RecordedRounds :=
  sendRound firstBegun (oneShareRound [47, 103] 0 0 2 8) 8

theorem bothBegun_reachable :
    ReflTransGen (DedupCore.RoundStep paddingHash blankHead userFiles
      (DedupCore.LastInBuffer paddingHash)) (.empty, fun _ _ => none) bothBegun := by
  have first : DedupCore.RoundStep paddingHash blankHead userFiles
      (DedupCore.LastInBuffer paddingHash) _ firstBegun :=
    sendOneShare_step (.inl rfl) ⟨rfl, .inl rfl⟩ (by decide +kernel) (by decide +kernel)
  have second : DedupCore.RoundStep paddingHash blankHead userFiles
      (DedupCore.LastInBuffer paddingHash) firstBegun bothBegun :=
    sendOneShare_step (.inr rfl) ⟨rfl, .inl rfl⟩ (by decide +kernel) (by decide +kernel)
  exact (ReflTransGen.single first).tail second

/-- The second round of `/g`, whose recipe is the last one. -/
theorem round_changes_own_recipe_last :
    DedupCore.ChangesOwnRecipe paddingHash blankHead bothBegun.2 bothBegun.1
      (sendRound bothBegun (oneShareRound [47, 103] 1 1 2 9) 9).1 1 [47, 103]
      (oneShareRound [47, 103] 1 1 2 9) := by
  have returns : (bothBegun.1.secondStageDedup paddingHash blankHead 1
      [oneShareRound [47, 103] 1 1 2 9] (fun _ => false) (fun _ => 9)
      fun _ => false).isOk = true := by
    decide +kernel
  exact round_changes_own_recipe (keysApart_pair (by decide)) bothBegun_reachable (by decide)
    (.inr rfl) ⟨rfl, .inr ⟨[⟨paddingHash [8], 0, 1⟩], rfl, rfl⟩⟩ (by decide +kernel)
    (Loop.eq_ok_outcome returns) (by decide +kernel)

/-- The second round of `/f`, after the first one of `/g`: the share is counted and listed
in the recipe of `/g`. -/
theorem round_changes_other_recipe :
    let next := (sendRound bothBegun (oneShareRound [47, 102] 1 1 2 9) 9).1
    ReflTransGen (DedupCore.RoundStep paddingHash blankHead userFiles
        fun _ _ _ _ => True) (.empty, fun _ _ => none) bothBegun ∧
      ContinuesFile (bothBegun.2 1 [47, 102]) (oneShareRound [47, 102] 1 1 2 9) ∧
      bothBegun.1.secondStageDedup paddingHash blankHead 1
        [oneShareRound [47, 102] 1 1 2 9] (fun _ => false) (fun _ => 9) (fun _ => false) =
          .ok next ∧
      bothBegun.1.readBack paddingHash blankHead 1 [47, 103] =
        some (1, [⟨paddingHash [8], 0, 1⟩]) ∧
      next.readBack paddingHash blankHead 1 [47, 102] =
        some (1, [⟨paddingHash [7], 0, 1⟩]) ∧
      next.readBack paddingHash blankHead 1 [47, 103] =
        some (2, [⟨paddingHash [8], 0, 1⟩, ⟨paddingHash [9], 0, 1⟩]) ∧
      ¬ DedupCore.ChangesOwnRecipe paddingHash blankHead bothBegun.2 bothBegun.1 next 1
        [47, 102] (oneShareRound [47, 102] 1 1 2 9) := by
  intro next
  have reachable : ReflTransGen (DedupCore.RoundStep paddingHash blankHead userFiles
      fun _ _ _ _ => True) (.empty, fun _ _ => none) bothBegun := by
    refine ReflTransGen.mono ?_ _ _ bothBegun_reachable
    intro state after step
    cases step with
    | firstStage core recorded userID package => exact .firstStage _ _ _ _
    | round formatted member valid _ returned =>
        exact .round formatted member valid trivial returned
  have returns : (bothBegun.1.secondStageDedup paddingHash blankHead 1
      [oneShareRound [47, 102] 1 1 2 9] (fun _ => false) (fun _ => 9)
      fun _ => false).isOk = true := by
    decide +kernel
  have other : next.readBack paddingHash blankHead 1 [47, 103] =
      some (2, [⟨paddingHash [8], 0, 1⟩, ⟨paddingHash [9], 0, 1⟩]) := by
    decide +kernel
  have before : bothBegun.1.readBack paddingHash blankHead 1 [47, 103] =
      some (1, [⟨paddingHash [8], 0, 1⟩]) := by
    decide +kernel
  refine ⟨reachable, ⟨rfl, .inr ⟨[⟨paddingHash [7], 0, 1⟩], rfl, rfl⟩⟩,
    Loop.eq_ok_outcome returns, before, by decide +kernel, other, ?_⟩
  intro keeps
  have same := keeps.2 [47, 103] [47, 103] (by decide) (by decide) (Option.some_ne_none _)
  rw [other, before] at same
  exact absurd same (by decide)

end MetaDedup.Server
