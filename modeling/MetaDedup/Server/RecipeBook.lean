import MetaDedup.Server.InodeIndex
import MetaDedup.Server.RecipeCells

/-! # The recipes of one user

A user uploads files one after another, each in one or more rounds. The recipe of the
file being uploaded may be split: its first part lies in a recipe file, and the rest in
the buffer, behind a head of its own. This module says where the recipes of a user lie
between two rounds, and what each step of the server makes of it. -/

namespace MetaDedup.Server

open Foundation

/-! ## Uploads -/

/-- An upload of a file, with the recipe entries of the shares sent so far. -/
structure Upload where
  name : List Byte
  entries : List FileRecipeEntry
  complete : Bool

/-- The most recent upload of a file; uploads are listed with the latest first. -/
def newestUpload (uploads : List Upload) (name : List Byte) : Option Upload :=
  uploads.find? fun upload => upload.name == name

def inProgress : List Upload → Option Upload
  | [] => none
  | last :: _ => if last.complete then none else some last

/-- A round continues the upload in progress or begins a new one. -/
def extendUpload (uploads : List Upload) (name : List Byte)
    (entries : List FileRecipeEntry) : List Upload :=
  match inProgress uploads with
  | some last => ⟨name, last.entries ++ entries, false⟩ :: uploads.tail
  | none => ⟨name, entries, false⟩ :: uploads

def settleUpload : List Upload → List Upload
  | [] => []
  | last :: rest => { last with complete := true } :: rest

def roundEntries (file : FileShareMD) : List FileRecipeEntry :=
  file.entries.map ShareMDEntry.recipeEntry

def recordRound (uploads : List Upload) (name : List Byte) (file : FileShareMD) :
    List Upload :=
  if RecipeStore.EndsHere file then
    settleUpload (extendUpload uploads name (roundEntries file))
  else extendUpload uploads name (roundEntries file)

/-- A user sends the rounds of one file after another, and every round announces how
many shares of the file have come before it. -/
def ValidRound (uploads : List Upload) (name : List Byte) (file : FileShareMD) : Prop :=
  file.numOfComingSecrets = file.entries.length ∧
    match inProgress uploads with
    | none => file.numOfPastSecrets = 0
    | some last => last.name = name ∧ file.numOfPastSecrets = last.entries.length

variable {last : Upload}

theorem inProgress_some {uploads : List Upload} (current : inProgress uploads = some last) :
    uploads = last :: uploads.tail ∧ last.complete = false := by
  cases uploads with
  | nil => cases current
  | cons first rest =>
      rw [inProgress] at current
      split at current
      · cases current
      · next unfinished =>
          cases current
          exact ⟨rfl, by simpa using unfinished⟩

theorem newestUpload_inProgress {uploads : List Upload}
    (current : inProgress uploads = some last) :
    newestUpload uploads last.name = some last := by
  rw [(inProgress_some current).1]
  simp [newestUpload]

theorem uploaded_of_inProgress {uploads : List Upload}
    (current : inProgress uploads = some last) : newestUpload uploads last.name ≠ none := by
  rw [newestUpload_inProgress current]
  exact Option.some_ne_none _

@[simp] theorem inProgress_extendUpload (uploads : List Upload) (name : List Byte)
    (entries : List FileRecipeEntry) :
    inProgress (extendUpload uploads name entries) =
      some ⟨name, ((inProgress uploads).elim [] Upload.entries) ++ entries, false⟩ := by
  rw [extendUpload]
  cases inProgress uploads <;> rfl

theorem newestUpload_extendUpload_of_ne {uploads : List Upload} {name other : List Byte}
    (same : ∀ last ∈ inProgress uploads, last.name = name) (different : other ≠ name)
    (entries : List FileRecipeEntry) :
    newestUpload (extendUpload uploads name entries) other = newestUpload uploads other := by
  rw [extendUpload]
  cases current : inProgress uploads with
  | none => simp [newestUpload, different.symm]
  | some last =>
      have named := same last current
      have whole := (inProgress_some current).1
      conv_rhs => rw [whole]
      simp [newestUpload, different.symm, named]

theorem newestUpload_settleUpload (uploads : List Upload) (name : List Byte) :
    newestUpload (settleUpload uploads) name = none ↔ newestUpload uploads name = none := by
  cases uploads <;> simp [newestUpload, settleUpload]

theorem inProgress_settleUpload (uploads : List Upload) :
    inProgress (settleUpload uploads) = none := by
  cases uploads <;> rfl

/-! ## Where the recipes lie -/

section

variable (key : List Byte → Fingerprint) (recipes : RecipeStore)

/-- What `restoreShareFile` reads for a recipe file name. -/
def recipeContent (buffer : Option RecipeBuffer) (name : InternalFileName) :
    List RecipeCell :=
  match buffer with
  | some buffer =>
      if buffer.recipeFileName = name then buffer.recipeFileBuffer
      else recipes.fileCells name
  | none => recipes.fileCells name

def Unrecorded (uploads : List Upload) (name : InternalFileName) : Prop :=
  ∀ file place, newestUpload uploads file ≠ none →
    newestVersion recipes.inodeIndex (key file) = some place →
    place.recipeFileName ≠ name

def OwnBuffer (uploads : List Upload) (buffer : RecipeBuffer) : Prop :=
  ∃ name head rest, newestUpload uploads name ≠ none ∧ buffer.lastInodeFP = key name ∧
    newestVersion recipes.inodeIndex (key name) =
      some ⟨buffer.recipeFileName, buffer.lastRecipeHeadPos⟩ ∧
    buffer.recipeFileBuffer.drop buffer.lastRecipeHeadPos = headCells head ++ rest ∧
    0 ≤ head.numOfShares

/-- The upload in progress lies in the buffer as a whole, at its end. -/
def Buffered (buffer : Option RecipeBuffer) (last : Upload) (place : InodeFileEntry) :
    Prop :=
  ∃ own, buffer = some own ∧ own.recipeFileName = place.recipeFileName ∧
    own.lastRecipeHeadPos = place.recipeFileOffset ∧ own.lastInodeFP = key last.name ∧
    EndsWithRecipe own.recipeFileBuffer place.recipeFileOffset last.entries

/-- The upload in progress lies as a whole at the end of the buffer or of a recipe file. -/
def Whole (buffer : Option RecipeBuffer) (last : Upload) (place : InodeFileEntry) : Prop :=
  Buffered key buffer last place ∨
    EndsWithRecipe (recipes.fileCells place.recipeFileName) place.recipeFileOffset
      last.entries ∧ ∀ own ∈ buffer, own.recipeFileBuffer = []

/-- The buffer holds the rest of the upload in progress behind a head of its own. -/
def Continuation (uploads : List Upload) (last : Upload) (rest : List FileRecipeEntry)
    (buffer : RecipeBuffer) : Prop :=
  last.entries ≠ [] ∧ buffer.lastRecipeHeadPos = 0 ∧ buffer.lastInodeFP = key last.name ∧
    EndsWithRecipe buffer.recipeFileBuffer 0 rest ∧
    Unrecorded key recipes uploads buffer.recipeFileName

/-- The first part of the upload in progress lies at the end of a recipe file, and the
rest in the buffer. -/
def Split (buffer : Option RecipeBuffer) (uploads : List Upload) (last : Upload)
    (place : InodeFileEntry) : Prop :=
  ∃ stored rest, last.entries = stored ++ rest ∧ (last.entries ≠ [] → stored ≠ []) ∧
    EndsWithRecipe (recipes.fileCells place.recipeFileName) place.recipeFileOffset stored ∧
    ((rest = [] ∧ ∀ own ∈ buffer, own.recipeFileBuffer = []) ∨
      ∃ own, buffer = some own ∧ Continuation key recipes uploads last rest own)

end

/-- Where the recipes of a user lie between two rounds. The names of the user's recipe
files are the `owned` ones. -/
structure UserRecipes (key : List Byte → Fingerprint) (owned : InternalFileName → Prop)
    (recipes : RecipeStore) (buffer : Option RecipeBuffer) (uploads : List Upload) :
    Prop where
  placed : ∀ name, newestUpload uploads name ≠ none →
    ∃ place, newestVersion recipes.inodeIndex (key name) = some place ∧
      owned place.recipeFileName
  /-- The recipe of a finished upload can be read at its place. -/
  settled : ∀ name upload place, newestUpload uploads name = some upload →
    (∀ last ∈ inProgress uploads, last.name ≠ name) →
    newestVersion recipes.inodeIndex (key name) = some place →
    HoldsRecipe (recipeContent recipes buffer place.recipeFileName)
      place.recipeFileOffset upload.entries
  bufferOwned : ∀ own ∈ buffer, owned own.recipeFileName ∧
    recipes.fileCells own.recipeFileName = []
  idle : inProgress uploads = none → ∀ own ∈ buffer,
    own.recipeFileBuffer = [] ∨ OwnBuffer key recipes uploads own
  progress : ∀ last ∈ inProgress uploads, ∀ place,
    newestVersion recipes.inodeIndex (key last.name) = some place →
    Buffered key buffer last place ∨ Split key recipes buffer uploads last place
  /-- Other recipes in the same file come before the one in progress. -/
  apart : ∀ last ∈ inProgress uploads, ∀ place,
    newestVersion recipes.inodeIndex (key last.name) = some place →
    ∀ name upload other, newestUpload uploads name = some upload → name ≠ last.name →
      newestVersion recipes.inodeIndex (key name) = some other →
      other.recipeFileName = place.recipeFileName →
      HoldsRecipe
        ((recipeContent recipes buffer place.recipeFileName).take place.recipeFileOffset)
        other.recipeFileOffset upload.entries

variable {key : List Byte → Fingerprint} {owned owned' : InternalFileName → Prop}
variable {recipes recipes' : RecipeStore} {buffer buffer' : Option RecipeBuffer}
variable {uploads uploads' : List Upload} {own : RecipeBuffer}

theorem recipeContent_own :
    recipeContent recipes (some own) own.recipeFileName = own.recipeFileBuffer :=
  if_pos rfl

theorem recipeContent_of_ne {name : InternalFileName} (different : own.recipeFileName ≠ name) :
    recipeContent recipes (some own) name = recipes.fileCells name :=
  if_neg different

/-- The finished recipes and the places of all recipes stay as they are. Only in the
file of the recipe in progress, from the place of that recipe on, may cells change. -/
structure KeepsRecipes (key : List Byte → Fingerprint) (uploads : List Upload)
    (recipes : RecipeStore) (buffer : Option RecipeBuffer) (recipes' : RecipeStore)
    (buffer' : Option RecipeBuffer) : Prop where
  index : ∀ name, newestUpload uploads name ≠ none →
    newestVersion recipes'.inodeIndex (key name) = newestVersion recipes.inodeIndex (key name)
  content : ∀ name place, newestUpload uploads name ≠ none →
    newestVersion recipes.inodeIndex (key name) = some place →
    recipeContent recipes' buffer' place.recipeFileName =
        recipeContent recipes buffer place.recipeFileName ∨
      ∃ last current, inProgress uploads = some last ∧
        newestVersion recipes.inodeIndex (key last.name) = some current ∧
        place.recipeFileName = current.recipeFileName ∧
        (recipeContent recipes' buffer' place.recipeFileName).take current.recipeFileOffset =
          (recipeContent recipes buffer place.recipeFileName).take current.recipeFileOffset

namespace UserRecipes

/-- A step that keeps the recipes and goes on with the upload in progress, if there is
one. -/
theorem reshape (user : UserRecipes key owned recipes buffer uploads)
    (current : (inProgress uploads').map Upload.name = (inProgress uploads).map Upload.name)
    (known : ∀ name, newestUpload uploads' name ≠ none → newestUpload uploads name ≠ none)
    (others : ∀ name, (∀ last ∈ inProgress uploads, last.name ≠ name) →
      newestUpload uploads' name = newestUpload uploads name)
    (kept : KeepsRecipes key uploads recipes buffer recipes' buffer')
    (grown : ∀ name, owned name → owned' name)
    (bufferOwned : ∀ own ∈ buffer', owned' own.recipeFileName ∧
      recipes'.fileCells own.recipeFileName = [])
    (idle : inProgress uploads' = none → ∀ own ∈ buffer',
      own.recipeFileBuffer = [] ∨ OwnBuffer key recipes' uploads' own)
    (progress : ∀ last ∈ inProgress uploads', ∀ place,
      newestVersion recipes'.inodeIndex (key last.name) = some place →
      Buffered key buffer' last place ∨ Split key recipes' buffer' uploads' last place) :
    UserRecipes key owned' recipes' buffer' uploads' where
  placed := by
    intro name uploaded
    rcases user.placed name (known name uploaded) with ⟨place, newest, mine⟩
    exact ⟨place, by rw [kept.index name (known name uploaded), newest], grown _ mine⟩
  settled := by
    intro name upload place found finished newest
    have uploaded := known name (by rw [found]; exact Option.some_ne_none _)
    have different : ∀ last ∈ inProgress uploads, last.name ≠ name := by
      intro last member equal
      rw [Option.mem_def] at member
      rw [member] at current
      rcases Option.map_eq_some_iff.mp current with ⟨last', member', named⟩
      exact finished last' member' (named.trans equal)
    rw [others name different] at found
    rw [kept.index name uploaded] at newest
    rcases kept.content name place uploaded newest with same | ⟨last, old, now, at_, file, same⟩
    · rw [same]
      exact user.settled name upload place found different newest
    · have before := user.apart last now old at_ name upload place found
        (different last now).symm newest file
      rw [file] at same ⊢
      rw [← same] at before
      exact before.of_isPrefix (List.take_prefix _ _)
  bufferOwned := bufferOwned
  idle := idle
  progress := progress
  apart := by
    intro last' member' place newest name upload other found different otherNewest file
    rw [Option.mem_def] at member'
    rw [member'] at current
    rcases Option.map_eq_some_iff.mp current.symm with ⟨last, member, named⟩
    have lastUploaded := uploaded_of_inProgress member
    have elsewhere : ∀ now ∈ inProgress uploads, now.name ≠ name := by
      intro now there
      rw [Option.mem_def, member, Option.some.injEq] at there
      rw [← there, named]
      exact different.symm
    have uploaded := known name (by rw [found]; exact Option.some_ne_none _)
    rw [others name elsewhere] at found
    rw [kept.index name uploaded] at otherNewest
    rw [← named] at newest different
    rw [kept.index last.name lastUploaded] at newest
    have before := user.apart last member place newest name upload other found different
      otherNewest file
    rcases kept.content name other uploaded otherNewest with same | ⟨now, old, there, at_, _, same⟩
    · rw [file] at same
      rw [same]
      exact before
    · rw [member, Option.some.injEq] at there
      rw [← there, newest, Option.some.injEq] at at_
      rw [file, ← at_] at same
      rw [same]
      exact before

theorem keep (user : UserRecipes key owned recipes buffer uploads)
    (kept : KeepsRecipes key uploads recipes buffer recipes' buffer')
    (grown : ∀ name, owned name → owned' name)
    (bufferOwned : ∀ own ∈ buffer', owned' own.recipeFileName ∧
      recipes'.fileCells own.recipeFileName = [])
    (idle : inProgress uploads = none → ∀ own ∈ buffer',
      own.recipeFileBuffer = [] ∨ OwnBuffer key recipes' uploads own)
    (progress : ∀ last ∈ inProgress uploads, ∀ place,
      newestVersion recipes'.inodeIndex (key last.name) = some place →
      Buffered key buffer' last place ∨ Split key recipes' buffer' uploads last place) :
    UserRecipes key owned' recipes' buffer' uploads :=
  user.reshape rfl (fun _ uploaded => uploaded) (fun _ _ => rfl) kept grown bufferOwned idle
    progress

/-- The buffer holds the rest of a recipe whose first part lies in a recipe file. -/
structure Continues (key : List Byte → Fingerprint) (recipes : RecipeStore)
    (uploads : List Upload) (own : RecipeBuffer) (last : Upload) (place : InodeFileEntry)
    (stored rest : List FileRecipeEntry) : Prop where
  current : inProgress uploads = some last
  newest : newestVersion recipes.inodeIndex (key last.name) = some place
  whole : last.entries = stored ++ rest
  begun : stored ≠ []
  file : EndsWithRecipe (recipes.fileCells place.recipeFileName) place.recipeFileOffset stored
  buffer : Continuation key recipes uploads last rest own

variable {place : InodeFileEntry} {stored rest : List FileRecipeEntry}

theorem Continues.elsewhere (continues : Continues key recipes uploads own last place stored rest) :
    place.recipeFileName ≠ own.recipeFileName :=
  continues.buffer.2.2.2.2 last.name place (uploaded_of_inProgress continues.current)
    continues.newest

theorem whole_or_continues (user : UserRecipes key owned recipes buffer uploads)
    (current : inProgress uploads = some last)
    (newest : newestVersion recipes.inodeIndex (key last.name) = some place) :
    Whole key recipes buffer last place ∨ ∃ own stored rest, buffer = some own ∧
      Continues key recipes uploads own last place stored rest := by
  rcases user.progress last current place newest with buffered |
    ⟨stored, rest, whole, begun, ends, ⟨nothing, emptied⟩ | ⟨own, here, continued⟩⟩
  · exact .inl (.inl buffered)
  · rw [nothing, List.append_nil] at whole
    rw [← whole] at ends
    exact .inl (.inr ⟨ends, emptied⟩)
  · exact .inr ⟨own, stored, rest, here, current, newest, whole, begun continued.1, ends,
      continued⟩

theorem holdsRecipe (user : UserRecipes key owned recipes buffer uploads)
    (whole : Whole key recipes buffer last place) :
    HoldsRecipe (recipeContent recipes buffer place.recipeFileName) place.recipeFileOffset
      last.entries := by
  rcases whole with ⟨own, rfl, named, _, _, ends⟩ | ⟨ends, _⟩
  · rw [← named, recipeContent_own]
    exact ends.holds
  · cases buffer with
    | none => exact ends.holds
    | some own =>
        rw [recipeContent_of_ne]
        · exact ends.holds
        · intro equal
          rw [← equal, (user.bufferOwned own rfl).2] at ends
          exact ends.holds.nonempty rfl

theorem unrecorded (user : UserRecipes key owned recipes (some own) uploads)
    (emptied : own.recipeFileBuffer = []) :
    Unrecorded key recipes uploads own.recipeFileName := by
  intro name place uploaded newest equal
  rcases Option.ne_none_iff_exists'.mp uploaded with ⟨upload, found⟩
  have holds : ∃ entries, HoldsRecipe (recipeContent recipes (some own) place.recipeFileName)
      place.recipeFileOffset entries := by
    by_cases current : ∃ last ∈ inProgress uploads, last.name = name
    · rcases current with ⟨last, member, named⟩
      rw [← named] at newest
      rcases user.whole_or_continues member newest with whole | ⟨_, _, _, same, continues⟩
      · exact ⟨_, user.holdsRecipe whole⟩
      · cases same
        exact absurd equal continues.elsewhere
    · exact ⟨_, user.settled name upload place found
        (fun last member named => current ⟨last, member, named⟩) newest⟩
  rcases holds with ⟨entries, holds⟩
  rw [equal, recipeContent_own, emptied] at holds
  exact holds.nonempty rfl

theorem ownBuffer {last : Upload} (uploaded : newestUpload uploads last.name ≠ none)
    (newest : newestVersion recipes.inodeIndex (key last.name) = some place)
    (buffered : Buffered key (some own) last place) : OwnBuffer key recipes uploads own := by
  rcases buffered with ⟨_, same, named, position, inode, head, located, count⟩
  cases same
  refine ⟨last.name, head, entriesCells last.entries, uploaded, inode, ?_,
    by rw [position, located], by omega⟩
  rw [newest, named, position]

theorem bufferKind (user : UserRecipes key owned recipes (some own) uploads) :
    own.recipeFileBuffer = [] ∨ OwnBuffer key recipes uploads own ∨
      ∃ last place stored rest, Continues key recipes uploads own last place stored rest := by
  cases current : inProgress uploads with
  | none =>
      rcases user.idle current own rfl with emptied | mine
      · exact .inl emptied
      · exact .inr (.inl mine)
  | some last =>
      have uploaded := uploaded_of_inProgress current
      rcases user.placed last.name uploaded with ⟨place, newest, _⟩
      rcases user.whole_or_continues current newest with
        (buffered | ⟨_, emptied⟩) | ⟨_, stored, rest, same, continues⟩
      · exact .inr (.inl (ownBuffer uploaded newest buffered))
      · exact .inl (emptied own rfl)
      · cases same
        exact .inr (.inr ⟨last, place, stored, rest, continues⟩)

end UserRecipes

end MetaDedup.Server
