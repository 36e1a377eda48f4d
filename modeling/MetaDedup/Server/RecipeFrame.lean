import MetaDedup.Server.DedupCore
import MetaDedup.Server.InodeIndex

/-! # Recipes a process leaves alone

A process writes recipes to files whose names it has handed out, with one exception:
the rest of a file that an earlier process has begun is appended to the recipe file of
that process. -/

namespace MetaDedup.Server

open Foundation

namespace RecipeStore

variable {generateHash : List Byte → Fingerprint}
variable {stray : List RecipeCell → FileRecipeHead}
variable {before recipes : RecipeStore} {keys : Set Fingerprint}
variable {buffer : RecipeBuffer} {buffers rest : List RecipeBuffer}

/-- The newest version of a file, if there is one, lies in a recipe file whose name this
process has handed out. -/
def Begun (recipes : RecipeStore) (inodeFP : Fingerprint) : Prop :=
  ∀ place ∈ newestVersion recipes.inodeIndex inodeFP,
    recipes.globalRecipeFileName.Issued place.recipeFileName

/-- What a process leaves alone: the versions in the inode index it has found, and the
recipe files under names it has not handed out. The recipes in its buffers, and those
under `keys`, belong to files it has begun. -/
structure Framed (before : RecipeStore) (keys : Set Fingerprint) (recipes : RecipeStore)
    (buffers : List RecipeBuffer) : Prop where
  kept : InodeIndex.Extends recipes.inodeIndex before.inodeIndex
  bufferIssued : ∀ buffer ∈ buffers,
    recipes.globalRecipeFileName.Issued buffer.recipeFileName
  begun : ∀ buffer ∈ buffers, buffer.recipeFileBuffer ≠ [] →
    recipes.Begun buffer.lastInodeFP
  continued : ∀ inodeFP ∈ keys, recipes.Begun inodeFP
  untouched : ∀ name, ¬recipes.globalRecipeFileName.Issued name →
    recipes.recipeFiles name = before.recipeFiles name

namespace Framed

theorem perm (framed : Framed before keys recipes buffers) {reordered : List RecipeBuffer}
    (permuted : reordered.Perm buffers) : Framed before keys recipes reordered where
  kept := framed.kept
  bufferIssued := fun buffer member =>
    framed.bufferIssued buffer (permuted.mem_iff.mp member)
  begun := fun buffer member => framed.begun buffer (permuted.mem_iff.mp member)
  continued := framed.continued
  untouched := framed.untouched

theorem free (framed : Framed before keys recipes (buffer :: rest)) :
    Framed before keys recipes rest where
  kept := framed.kept
  bufferIssued := (List.forall_mem_cons.mp framed.bufferIssued).2
  begun := (List.forall_mem_cons.mp framed.begun).2
  continued := framed.continued
  untouched := framed.untouched

private theorem withKeys (framed : Framed before keys recipes buffers) {others : Set Fingerprint}
    (begun : ∀ inodeFP ∈ others, recipes.Begun inodeFP) :
    Framed before others recipes buffers where
  kept := framed.kept
  bufferIssued := framed.bufferIssued
  begun := framed.begun
  continued := begun
  untouched := framed.untouched

theorem link (framed : Framed before keys recipes rest)
    (issued : recipes.globalRecipeFileName.Issued buffer.recipeFileName)
    (begun : buffer.recipeFileBuffer ≠ [] → recipes.Begun buffer.lastInodeFP) :
    Framed before keys recipes (buffer :: rest) where
  kept := framed.kept
  bufferIssued := List.forall_mem_cons.mpr ⟨issued, framed.bufferIssued⟩
  begun := List.forall_mem_cons.mpr ⟨begun, framed.begun⟩
  continued := framed.continued
  untouched := framed.untouched

theorem write (framed : Framed before keys recipes buffers) {name : InternalFileName}
    (issued : recipes.globalRecipeFileName.Issued name) (cells : List RecipeCell) :
    Framed before keys (recipes.writeRecipeFile name cells) buffers where
  kept := framed.kept
  bufferIssued := framed.bufferIssued
  begun := framed.begun
  continued := framed.continued
  untouched := by
    intro other fresh
    have different : other ≠ name := by
      intro equal
      exact fresh (equal ▸ issued)
    exact (Function.update_of_ne different _ _).trans (framed.untouched other fresh)

private theorem draw (framed : Framed before keys recipes buffers) :
    Framed before keys recipes.drawRecipeFileName.2 buffers where
  kept := framed.kept
  bufferIssued := fun buffer member => (framed.bufferIssued buffer member).draw
  begun := fun buffer member nonempty place newest =>
    (framed.begun buffer member nonempty place newest).draw
  continued := fun inodeFP member place newest =>
    (framed.continued inodeFP member place newest).draw
  untouched := fun name fresh => framed.untouched name fun issued => fresh issued.draw

theorem create (framed : Framed before keys recipes rest)
    (named : buffer.recipeFileName = recipes.drawRecipeFileName.1)
    (emptied : buffer.recipeFileBuffer = []) :
    Framed before keys recipes.drawRecipeFileName.2 (buffer :: rest) := by
  apply framed.draw.link
  · rw [named]
    exact recipes.globalRecipeFileName.issued_draw_self
  · exact fun nonempty => absurd emptied nonempty

private theorem addFile (framed : Framed before keys recipes buffers) (fullFileName : List Byte)
    (userID : Int) (entry : InodeFileEntry)
    (issued : recipes.globalRecipeFileName.Issued entry.recipeFileName) :
    Framed before keys
      { recipes with
        inodeIndex := addFileIntoInodeIndex generateHash recipes.inodeIndex fullFileName
          userID entry } buffers := by
  have begun : ∀ inodeFP, recipes.Begun inodeFP →
      Begun { recipes with
        inodeIndex := addFileIntoInodeIndex generateHash recipes.inodeIndex fullFileName
          userID entry } inodeFP := by
    intro inodeFP old place newest
    rw [addFileIntoInodeIndex_newestVersion] at newest
    split at newest
    · rw [Option.mem_some] at newest
      rw [← newest]
      exact issued
    · exact old place newest
  exact
    { kept := (addFileIntoInodeIndex_extends _ _ _ _).trans framed.kept
      bufferIssued := framed.bufferIssued
      begun := fun buffer member nonempty => begun _ (framed.begun buffer member nonempty)
      continued := fun inodeFP member => begun _ (framed.continued inodeFP member)
      untouched := framed.untouched }

/-! ## The steps of a call -/

private theorem flushRecipeBuffer (framed : Framed before keys recipes (buffer :: rest)) :
    Framed before keys (Loop.outcome (recipes.flushRecipeBuffer stray buffer)) rest := by
  rw [RecipeStore.flushRecipeBuffer]
  by_cases emptied : buffer.recipeFileBuffer = []
  · rw [if_pos emptied]
    exact framed.free
  · rw [if_neg emptied]
    have begun := (List.forall_mem_cons.mp framed.begun).1 emptied
    by_cases start : buffer.lastRecipeHeadPos = 0
    · rw [if_pos start]
      cases old : recipes.findOldRecipeFile buffer with
      | none => exact framed.free
      | some entry =>
          have issued := begun entry old
          by_cases missing : recipes.fileCells entry.recipeFileName = []
          · simp only [if_pos missing]
            split <;> exact framed.free.write issued _
          · simp only [if_neg missing]
            cases appendEntries stray (recipes.fileCells entry.recipeFileName)
              entry.recipeFileOffset buffer.recipeFileBuffer with
            | none => exact framed.free
            | some appended => exact framed.free.write issued appended
    · rw [if_neg start]
      exact framed.free.write (List.forall_mem_cons.mp framed.bufferIssued).1 _

def At (before : RecipeStore) (keys : Set Fingerprint) (rest : List RecipeBuffer)
    (state : RecipeStore × RecipeBuffer) : Prop :=
  Framed before keys state.1 (state.2 :: rest)

variable (framed : Framed before keys recipes (buffer :: rest))
include framed

private theorem storeNewRecipeFile :
    At before keys rest (Loop.outcome (recipes.storeNewRecipeFile buffer)) := by
  have issued := (List.forall_mem_cons.mp framed.bufferIssued).1
  rw [RecipeStore.storeNewRecipeFile]
  by_cases emptied : buffer.recipeFileBuffer = []
  · simp only [if_pos emptied]
    exact framed.write issued _
  · simp only [if_neg emptied]
    exact (framed.free.write issued _).create rfl rfl

theorem appendOldRecipeFile :
    At before keys rest (Loop.outcome (recipes.appendOldRecipeFile stray buffer)) := by
  have issued := (List.forall_mem_cons.mp framed.bufferIssued).1
  rw [RecipeStore.appendOldRecipeFile]
  cases old : recipes.findOldRecipeFile buffer with
  | none => exact framed
  | some entry =>
      by_cases missing : recipes.fileCells entry.recipeFileName = []
      · simp only [if_pos missing]
        exact framed
      · simp only [if_neg missing]
        cases result : appendEntries stray (recipes.fileCells entry.recipeFileName)
            entry.recipeFileOffset buffer.recipeFileBuffer with
        | none => exact framed
        | some appended =>
            have nonempty : buffer.recipeFileBuffer ≠ [] := by
              intro emptied
              simp [appendEntries, emptied] at result
            have target := (List.forall_mem_cons.mp framed.begun).1 nonempty entry old
            exact (framed.free.write target appended).link issued
              fun contradiction => absurd rfl contradiction

private theorem makeRoom (file : FileShareMD) :
    At before keys rest (Loop.outcome (recipes.makeRoom stray buffer file)) := by
  rw [RecipeStore.makeRoom]
  split
  · split
    · exact framed.appendOldRecipeFile
    · exact framed.storeNewRecipeFile
  · exact framed

private theorem finishFile (file : FileShareMD) :
    At before keys rest (Loop.outcome (recipes.finishFile stray buffer file)) := by
  rw [RecipeStore.finishFile]
  split
  · split
    · exact framed.appendOldRecipeFile
    · exact framed
  · exact framed

private theorem placeHead {fullFileName : List Byte} {userID : Int} {file : FileShareMD}
    (continues : file.numOfPastSecrets ≠ 0 →
      fileName2InodeFP generateHash fullFileName userID ∈ keys) :
    At before keys rest
      (recipes.placeHead generateHash stray buffer fullFileName userID file) := by
  have issued := (List.forall_mem_cons.mp framed.bufferIssued).1
  rw [RecipeStore.placeHead]
  by_cases fresh : file.numOfPastSecrets = 0
  · rw [if_pos fresh]
    have own : recipes.globalRecipeFileName.Issued
        (beginRecipe generateHash buffer fullFileName userID file).recipeFileName := issued
    refine (framed.free.addFile fullFileName userID ⟨buffer.recipeFileName, _⟩ issued).link
      own ?_
    intro _ place newest
    rw [addFileIntoInodeIndex_newestVersion, beginRecipe, if_pos rfl, Option.mem_some]
      at newest
    rw [← newest]
    exact issued
  · rw [if_neg fresh]
    by_cases emptied : buffer.recipeFileBuffer.length = 0
    · rw [if_pos emptied]
      have own : recipes.globalRecipeFileName.Issued
          (beginRecipe generateHash buffer fullFileName userID file).recipeFileName := issued
      exact framed.free.link own fun _ => framed.continued _ (continues fresh)
    · rw [if_neg emptied]
      have nonempty : buffer.recipeFileBuffer ≠ [] := by
        intro equal
        exact emptied (by rw [equal]; rfl)
      exact framed.free.link issued fun _ =>
        (List.forall_mem_cons.mp framed.begun).1 nonempty

private theorem placeEntry (nonempty : buffer.recipeFileBuffer ≠ []) (entry : ShareMDEntry) :
    Framed before keys recipes (RecipeStore.placeEntry buffer entry :: rest) :=
  framed.free.link (List.forall_mem_cons.mp framed.bufferIssued).1 fun _ =>
    (List.forall_mem_cons.mp framed.begun).1 nonempty

end Framed

private theorem placeHead_nonempty (recipes : RecipeStore) (buffer : RecipeBuffer)
    (fullFileName : List Byte) (userID : Int) (file : FileShareMD) :
    (recipes.placeHead generateHash stray buffer fullFileName userID
      file).2.recipeFileBuffer ≠ [] := by
  rw [placeHead]
  split
  · simp [beginRecipe, headCells]
  · split
    · simp [beginRecipe, headCells]
    · simp [overwrite, headCells]

end RecipeStore

namespace DedupCore

variable {generateHash : List Byte → Fingerprint}
variable {stray : List RecipeCell → FileRecipeHead}
variable {before : RecipeStore} {keys : Set Fingerprint} {rest : List RecipeBuffer}

def FramedAt (before : RecipeStore) (keys : Set Fingerprint) (rest : List RecipeBuffer)
    (cursor : DedupCursor) : Prop :=
  RecipeStore.Framed before keys cursor.recipes (cursor.recipe :: rest)

def HeadedAt (before : RecipeStore) (keys : Set Fingerprint) (rest : List RecipeBuffer)
    (cursor : DedupCursor) : Prop :=
  FramedAt before keys rest cursor ∧ cursor.recipe.recipeFileBuffer ≠ []

theorem HeadedAt.framed (cursor : DedupCursor) (headed : HeadedAt before keys rest cursor) :
    FramedAt before keys rest cursor := headed.1

private theorem onRecipe_framed {cursor : DedupCursor}
    {step : Except (RecipeStore × RecipeBuffer) (RecipeStore × RecipeBuffer)}
    (framed : RecipeStore.Framed.At before keys rest (Loop.outcome step)) :
    FramedAt before keys rest (Loop.outcome (cursor.onRecipe step)) := by
  cases step <;> exact framed

private theorem placeEntry_headed (userID : Int) (intraUserDupStatList : Nat → Bool)
    (shareDataBuffer : Buffer Byte) (entry : ShareMDEntry) (cursor : DedupCursor)
    (headed : HeadedAt before keys rest cursor) :
    HeadedAt before keys rest (Loop.outcome (cursor.placeEntry generateHash userID
      intraUserDupStatList shareDataBuffer entry)) := by
  rw [DedupCursor.placeEntry]
  cases cursor.shares.placeShare generateHash userID intraUserDupStatList shareDataBuffer
      entry with
  | error shares => exact headed
  | ok shares =>
      exact ⟨headed.1.placeEntry headed.2 entry, by simp [RecipeStore.placeEntry, entryCells]⟩

private theorem placeFile_framed (userID : Int) (intraUserDupStatList : Nat → Bool)
    (shareDataBuffer : Buffer Byte) {file : FileShareMD}
    (continues : file.numOfPastSecrets ≠ 0 →
      ∀ fullFileName ∈ formatFullFileName file.fullName,
        fileName2InodeFP generateHash fullFileName userID ∈ keys)
    (cursor : DedupCursor) (framed : FramedAt before keys rest cursor) :
    FramedAt before keys rest (Loop.outcome (cursor.placeFile generateHash stray userID
      intraUserDupStatList shareDataBuffer file)) := by
  rw [DedupCursor.placeFile]
  cases formatted : formatFullFileName file.fullName with
  | none => exact framed
  | some fullFileName =>
      apply Loop.bind_outcome (FramedAt before keys rest)
        (onRecipe_framed (framed.makeRoom file))
      intro cursor framed
      refine Loop.bind_outcome_of_imp HeadedAt.framed ⟨framed.placeHead
        (fun continuing => continues continuing fullFileName formatted),
        RecipeStore.placeHead_nonempty _ _ _ _ _⟩ ?_
      intro cursor headed
      refine Loop.bind_outcome_of_imp HeadedAt.framed (Loop.foldlM_outcome _ _ file.entries
        (fun entry _ => placeEntry_headed userID intraUserDupStatList shareDataBuffer entry)
        cursor headed) ?_
      intro cursor headed
      exact onRecipe_framed (headed.1.finishFile file)

def recipeBuffers (core : DedupCore) : List RecipeBuffer :=
  core.bufferNodes.map PerUserBufferNode.recipe

variable {core : DedupCore}

private theorem findOrCreateBufferNode_framed
    (framed : RecipeStore.Framed before keys core.recipes core.recipeBuffers)
    (userID : Int) (expired : PerUserBufferNode → Bool) :
    FramedAt before keys
      ((core.findOrCreateBufferNode generateHash stray userID expired).2.others.map
        PerUserBufferNode.recipe)
      (openCursor (core.findOrCreateBufferNode generateHash stray userID expired)) := by
  have walked : RecipeStore.Framed before keys (core.expire stray userID expired).1.2
      ((core.expire stray userID expired).2.map PerUserBufferNode.recipe) := by
    refine expireNodes_invariant _ (expires userID expired) (fun _ _ => True)
      (fun (stores : ShareStore × RecipeStore) nodes => RecipeStore.Framed before keys stores.2
        (nodes.map PerUserBufferNode.recipe)) ?_ ?_ _ _
      (walkMeets_of_forall _ _ (fun _ _ => trivial) _ _) framed
    · intro stores nodes reordered permuted holds
      exact holds.perm (permuted.symm.map _)
    · intro stores node rest _ _ holds
      have flushed : RecipeStore.Framed before keys
          (Loop.outcome (stores.2.flushRecipeBuffer stray node.recipe)) _ :=
        holds.flushRecipeBuffer
      rw [flushBufferNodeIntoDisk]
      cases result : stores.2.flushRecipeBuffer stray node.recipe with
      | error recipes =>
          rw [result] at flushed
          exact flushed
      | ok recipes =>
          rw [result] at flushed
          exact flushed
  rw [findOrCreateBufferNode]
  generalize core.expire stray userID expired = kept at walked
  cases located : findUserNode PerUserBufferNode.userID userID kept.2 with
  | some found =>
      rw [← (findUserNode_some located).1] at walked
      exact walked.perm (found.link_perm.symm.map PerUserBufferNode.recipe)
  | none =>
      simp only [openCursor, FramedAt, LinkedNode.atEnd_others]
      exact walked.create rfl rfl

/-- The keys of the files that the rounds of a package continue. -/
def continuedKeys (generateHash : List Byte → Fingerprint) (userID : Int)
    (package : List FileShareMD) : Set Fingerprint :=
  { inodeFP | ∃ file ∈ package, file.numOfPastSecrets ≠ 0 ∧
    ∃ fullFileName ∈ formatFullFileName file.fullName,
      inodeFP = fileName2InodeFP generateHash fullFileName userID }

/-- Every file the call continues has been begun by this process. -/
def ContinuesBegun (generateHash : List Byte → Fingerprint) (core : DedupCore) :
    StageCall PerUserBufferNode → Prop
  | .firstStage _ _ => True
  | .secondStage userID package _ _ _ =>
      ∀ inodeFP ∈ continuedKeys generateHash userID package, core.recipes.Begun inodeFP

theorem perform_framed (framed : RecipeStore.Framed before ∅ core.recipes core.recipeBuffers)
    {call : StageCall PerUserBufferNode} (continues : core.ContinuesBegun generateHash call) :
    RecipeStore.Framed before ∅ (core.perform generateHash stray call).recipes
      (core.perform generateHash stray call).recipeBuffers := by
  cases call with
  | firstStage userID package => exact framed
  | secondStage userID package intraUserDupStatList shareDataBuffer expired =>
      have watched : ∀ file ∈ package, file.numOfPastSecrets ≠ 0 →
          ∀ fullFileName ∈ formatFullFileName file.fullName,
            fileName2InodeFP generateHash fullFileName userID ∈
              continuedKeys generateHash userID package :=
        fun file member continuing fullFileName formatted =>
          ⟨file, member, continuing, fullFileName, formatted, rfl⟩
      have opened : FramedAt before (continuedKeys generateHash userID package) _
          (openCursor (core.findOrCreateBufferNode generateHash stray userID expired)) :=
        findOrCreateBufferNode_framed (framed.withKeys continues) userID expired
      have placed := Loop.foldlM_outcome
        (DedupCursor.placeFile generateHash stray userID intraUserDupStatList
          shareDataBuffer) _ package
        (fun file member => placeFile_framed userID intraUserDupStatList shareDataBuffer
          (watched file member)) _ opened
      rw [perform, outcome_secondStageDedup]
      exact (placed.perm ((LinkedNode.link_perm _).map PerUserBufferNode.recipe)).withKeys
        (by simp)

variable {fullFileName : List Byte} {recipe : FileRecipeHead × List FileRecipeEntry}

theorem restoreRecipe_eq_some_iff {userID : Int} {age : Nat} :
    core.restoreRecipe generateHash stray userID fullFileName age = some recipe ↔
      ∃ name value place, formatFullFileName fullFileName = some name ∧
        core.recipes.inodeIndex (fileName2InodeFP generateHash name userID) = some value ∧
        age < value.numOfChildren ∧ value.version age = some place ∧
        core.readRecipe stray userID place = some recipe := by
  simp only [restoreRecipe, Option.bind_eq_bind, Option.bind_eq_some_iff,
    Option.ite_none_left_eq_some, Nat.not_le, ge_iff_le]
  constructor
  · rintro ⟨name, formatted, value, found, counted, place, version, restored⟩
    exact ⟨name, value, place, formatted, found, counted, version, restored⟩
  · rintro ⟨name, value, place, formatted, found, counted, version, restored⟩
    exact ⟨name, formatted, value, found, counted, place, version, restored⟩

/-- The number of versions of a file that the index lists. -/
def versions (generateHash : List Byte → Fingerprint) (core : DedupCore) (userID : Int)
    (fullFileName : List Byte) : Nat :=
  ((formatFullFileName fullFileName).bind fun name =>
    core.recipes.inodeIndex (fileName2InodeFP generateHash name userID)).elim 0
      InodeIndexValue.versions

/-- A version whose recipe file has a name that was not handed out reads as before. -/
theorem restoreRecipe_framed {closed later : DedupCore} (quiet : closed.bufferNodes = [])
    (framed : RecipeStore.Framed closed.recipes ∅ later.recipes later.recipeBuffers)
    (unissued : ∀ inodeFP value place, closed.recipes.inodeIndex inodeFP = some value →
      .file place ∈ value.entries →
      ¬later.recipes.globalRecipeFileName.Issued place.recipeFileName)
    {userID : Int} {age : Nat}
    (restored : closed.restoreRecipe generateHash stray userID fullFileName age =
      some recipe) :
    ∃ newer, later.versions generateHash userID fullFileName =
        newer + closed.versions generateHash userID fullFileName ∧
      later.restoreRecipe generateHash stray userID fullFileName (newer + age) =
        some recipe := by
  rcases restoreRecipe_eq_some_iff.mp restored with
    ⟨name, value, place, formatted, found, counted, version, read⟩
  rcases framed.kept _ value found with ⟨current, foundCurrent, extends_⟩
  rcases extends_.version version counted with
    ⟨newer, versions, versionCurrent, countedCurrent⟩
  have fresh := unissued _ value place found (InodeIndexValue.version_mem version)
  have sameFile : later.readRecipeFile userID place.recipeFileName =
      closed.readRecipeFile userID place.recipeFileName := by
    have notBuffered : later.readRecipeFileFromBuffer userID place.recipeFileName = none := by
      rw [readRecipeFileFromBuffer, Option.bind_eq_none_iff]
      intro node located
      have member : node.recipe ∈ later.recipeBuffers :=
        List.mem_map_of_mem (List.mem_of_find?_eq_some located)
      rw [if_neg]
      intro equal
      exact fresh (equal ▸ framed.bufferIssued _ member)
    rw [readRecipeFile, readRecipeFile, notBuffered, framed.untouched _ fresh,
      readRecipeFileFromBuffer, quiet]
    rfl
  refine ⟨newer, ?_, restoreRecipe_eq_some_iff.mpr
    ⟨name, current, place, formatted, foundCurrent, countedCurrent, versionCurrent, ?_⟩⟩
  · simpa [DedupCore.versions, formatted, found, foundCurrent] using versions
  · rw [readRecipe, sameFile]
    exact read

end DedupCore

end MetaDedup.Server
