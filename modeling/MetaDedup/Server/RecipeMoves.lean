import MetaDedup.Server.RecipeBook

/-! # Moving recipes between buffers and files

What happens to the recipes of one user when a buffer is created, written to a file,
appended to a file or freed, and when a round adds to it. -/

namespace MetaDedup.Server

open Foundation

variable {key : List Byte → Fingerprint} {owned owned' : InternalFileName → Prop}
variable {recipes recipes' : RecipeStore} {buffer : Option RecipeBuffer}
variable {uploads : List Upload} {own own' : RecipeBuffer}
variable {last : Upload} {place : InodeFileEntry} {stored rest : List FileRecipeEntry}

theorem fileCells_writeRecipeFile (recipes : RecipeStore) (name : InternalFileName)
    (cells : List RecipeCell) :
    (recipes.writeRecipeFile name cells).fileCells name = cells := by
  simp [RecipeStore.fileCells, RecipeStore.writeRecipeFile]

theorem fileCells_writeRecipeFile_of_ne {name other : InternalFileName}
    (different : other ≠ name) (recipes : RecipeStore) (cells : List RecipeCell) :
    (recipes.writeRecipeFile name cells).fileCells other = recipes.fileCells other := by
  simp [RecipeStore.fileCells, RecipeStore.writeRecipeFile, different]

namespace UserRecipes

/-! ## Outside of rounds -/

theorem frame (user : UserRecipes key owned recipes buffer uploads)
    (index : ∀ name, newestUpload uploads name ≠ none →
      newestVersion recipes'.inodeIndex (key name) =
        newestVersion recipes.inodeIndex (key name))
    (files : ∀ name, owned name → recipes'.fileCells name = recipes.fileCells name)
    (grown : ∀ name, owned name → owned' name) :
    UserRecipes key owned' recipes' buffer uploads := by
  have hidden : ∀ name, Unrecorded key recipes uploads name →
      Unrecorded key recipes' uploads name := by
    intro name hidden file place uploaded newest
    rw [index file uploaded] at newest
    exact hidden file place uploaded newest
  have located : ∀ name place, newestUpload uploads name ≠ none →
      newestVersion recipes.inodeIndex (key name) = some place →
      owned place.recipeFileName := by
    intro name place uploaded newest
    rcases user.placed name uploaded with ⟨other, found, mine⟩
    rw [newest, Option.some.injEq] at found
    rw [found]
    exact mine
  refine user.keep ⟨index, ?_⟩ grown ?_ ?_ ?_
  · intro name place uploaded newest
    left
    cases buffer with
    | none => exact files _ (located name place uploaded newest)
    | some own =>
        by_cases equal : own.recipeFileName = place.recipeFileName
        · rw [← equal, recipeContent_own, recipeContent_own]
        · rw [recipeContent_of_ne equal, recipeContent_of_ne equal,
            files _ (located name place uploaded newest)]
  · intro own member
    rcases user.bufferOwned own member with ⟨mine, unfiled⟩
    exact ⟨grown _ mine, by rw [files _ mine, unfiled]⟩
  · intro idle own member
    rcases user.idle idle own member with emptied | mine
    · exact .inl emptied
    · rcases mine with ⟨name, head, rest, uploaded, inode, newest, cells, count⟩
      exact .inr ⟨name, head, rest, uploaded, inode,
        by rw [index name uploaded, newest], cells, count⟩
  · intro last member place newest
    have uploaded := uploaded_of_inProgress member
    rw [index last.name uploaded] at newest
    rcases user.progress last member place newest with buffered | split
    · exact .inl buffered
    · rcases split with ⟨stored, rest, whole, begun, ends, buffers⟩
      refine .inr ⟨stored, rest, whole, begun, ?_, ?_⟩
      · rw [files _ (located last.name place uploaded newest)]
        exact ends
      · rcases buffers with emptied | ⟨own, same, nonempty, position, inode, cells, apart⟩
        · exact .inl emptied
        · exact .inr ⟨own, same, nonempty, position, inode, cells, hidden _ apart⟩

theorem create (user : UserRecipes key owned recipes none uploads)
    (index : recipes'.inodeIndex = recipes.inodeIndex)
    (files : recipes'.recipeFiles = recipes.recipeFiles)
    (grown : ∀ name, owned name → owned' name) (mine : owned' own.recipeFileName)
    (fresh : recipes.recipeFiles own.recipeFileName = none)
    (emptied : own.recipeFileBuffer = []) :
    UserRecipes key owned' recipes' (some own) uploads := by
  have cells : recipes'.fileCells = recipes.fileCells := by
    funext name
    rw [RecipeStore.fileCells, RecipeStore.fileCells, files]
  have unfiled : recipes.fileCells own.recipeFileName = [] := by
    rw [RecipeStore.fileCells, fresh, Option.getD_none]
  refine user.keep ⟨fun name _ => by rw [index], ?_⟩ grown ?_ ?_ ?_
  · intro name place _ _
    left
    by_cases equal : own.recipeFileName = place.recipeFileName
    · rw [← equal, recipeContent_own, emptied]
      exact unfiled.symm
    · rw [recipeContent_of_ne equal, cells]
      rfl
  · intro other member
    cases member
    exact ⟨mine, by rw [cells, unfiled]⟩
  · intro _ other member
    cases member
    exact .inl emptied
  · intro last member place newest
    rw [index] at newest
    rcases user.progress last member place newest with buffered | split
    · rcases buffered with ⟨_, absent, _⟩
      cases absent
    · rcases split with ⟨stored, rest, whole, begun, ends, ⟨nothing, _⟩ | ⟨_, absent, _⟩⟩
      · refine .inr ⟨stored, rest, whole, begun, by rw [cells]; exact ends,
          .inl ⟨nothing, ?_⟩⟩
        intro other member
        rw [Option.mem_some] at member
        rw [← member, emptied]
      · cases absent

section

variable (user : UserRecipes key owned recipes (some own) uploads)
include user

theorem free (hidden : Unrecorded key recipes uploads own.recipeFileName)
    (nothing : own.recipeFileBuffer = [] ∨ EndsWithRecipe own.recipeFileBuffer 0 []) :
    UserRecipes key owned recipes none uploads := by
  refine user.keep ⟨fun _ _ => rfl, ?_⟩ (fun _ mine => mine) (by simp) (by simp) ?_
  · intro name place uploaded newest
    left
    have different := (hidden name place uploaded newest).symm
    rw [recipeContent_of_ne different]
    rfl
  · intro last member place newest
    have uploaded := uploaded_of_inProgress member
    rcases user.progress last member place newest with buffered | split
    · rcases buffered with ⟨other, same, named, _⟩
      cases same
      exact absurd named.symm (hidden last.name place uploaded newest)
    · rcases split with ⟨stored, rest, whole, begun, ends, ⟨empty, _⟩ | ⟨other, same, continued⟩⟩
      · exact .inr ⟨stored, rest, whole, begun, ends, .inl ⟨empty, by simp⟩⟩
      · cases same
        refine .inr ⟨stored, rest, whole, begun, ends, .inl ⟨?_, by simp⟩⟩
        have size := continued.2.2.2.1.length
        rcases nothing with emptied | headOnly
        · exact absurd emptied continued.2.2.2.1.holds.nonempty
        · rw [headOnly.length] at size
          rw [← List.length_eq_zero_iff]
          simp only [List.length_nil, fileRecipeEntrySize, fileRecipeHeadSize] at size
          omega

theorem store (mine : OwnBuffer key recipes uploads own) :
    UserRecipes key owned
      (recipes.writeRecipeFile own.recipeFileName own.recipeFileBuffer) none uploads := by
  refine user.keep ⟨fun _ _ => rfl, ?_⟩ (fun _ mine => mine) (by simp) (by simp) ?_
  · intro name place _ _
    left
    by_cases equal : own.recipeFileName = place.recipeFileName
    · rw [← equal, recipeContent_own]
      exact fileCells_writeRecipeFile recipes _ _
    · rw [recipeContent_of_ne equal]
      exact fileCells_writeRecipeFile_of_ne (Ne.symm equal) recipes _
  · intro last member place newest
    rcases user.progress last member place newest with buffered | split
    · rcases buffered with ⟨other, same, named, _, _, ends⟩
      cases same
      refine .inr ⟨last.entries, [], by simp, fun nonempty => nonempty, ?_, .inl ⟨rfl, by simp⟩⟩
      rw [← named, fileCells_writeRecipeFile]
      exact ends
    · rcases split with ⟨stored, rest, whole, begun, ends, ⟨empty, _⟩ | ⟨other, same, continued⟩⟩
      · refine .inr ⟨stored, rest, whole, begun, ?_, .inl ⟨empty, by simp⟩⟩
        rw [fileCells_writeRecipeFile_of_ne]
        · exact ends
        · intro equal
          rw [equal, (user.bufferOwned own rfl).2] at ends
          exact ends.holds.nonempty rfl
      · cases same
        rcases mine with ⟨name, _, _, uploaded, _, there, _⟩
        exact absurd rfl (continued.2.2.2.2 name _ uploaded there)

theorem append (continues : Continues key recipes uploads own last place stored rest)
    {appended : List RecipeCell}
    (ends : EndsWithRecipe appended place.recipeFileOffset (stored ++ rest))
    (kept : appended.take place.recipeFileOffset =
      (recipes.fileCells place.recipeFileName).take place.recipeFileOffset)
    (emptied : ∀ other ∈ buffer, other.recipeFileName = own.recipeFileName ∧
      other.recipeFileBuffer = []) :
    UserRecipes key owned (recipes.writeRecipeFile place.recipeFileName appended) buffer
      uploads := by
  have hidden := continues.buffer.2.2.2.2
  have content : ∀ name, own.recipeFileName ≠ name →
      recipeContent (recipes.writeRecipeFile place.recipeFileName appended) buffer name =
        (recipes.writeRecipeFile place.recipeFileName appended).fileCells name := by
    intro name different
    cases buffer with
    | none => rfl
    | some other =>
        rw [← (emptied other rfl).1] at different
        exact recipeContent_of_ne different
  have uploaded := uploaded_of_inProgress continues.current
  refine user.keep ⟨fun _ _ => rfl, ?_⟩ (fun _ mine => mine) ?_ ?_ ?_
  · intro name other otherUploaded newest
    have different := (hidden name other otherUploaded newest).symm
    rw [content _ different, recipeContent_of_ne different]
    by_cases same : other.recipeFileName = place.recipeFileName
    · refine .inr ⟨last, place, continues.current, continues.newest, same, ?_⟩
      rw [same, fileCells_writeRecipeFile, kept]
    · exact .inl (fileCells_writeRecipeFile_of_ne same recipes _)
  · intro other member
    rcases user.bufferOwned own rfl with ⟨mine, unfiled⟩
    rw [(emptied other member).1, fileCells_writeRecipeFile_of_ne
      (hidden last.name place uploaded continues.newest).symm]
    exact ⟨mine, unfiled⟩
  · intro noneCurrent
    cases continues.current.symm.trans noneCurrent
  · intro now member current newest
    cases continues.current.symm.trans member
    cases continues.newest.symm.trans newest
    refine .inr ⟨last.entries, [], by simp, fun nonempty => nonempty, ?_,
      .inl ⟨rfl, fun other member => (emptied other member).2⟩⟩
    rw [fileCells_writeRecipeFile, continues.whole]
    exact ends

end

/-! ## Rounds -/

variable {name : List Byte} {entries : List FileRecipeEntry}

theorem begin (user : UserRecipes key owned recipes (some own) uploads)
    (unbegun : ∀ last ∈ inProgress uploads, last.name = name ∧ last.entries = [])
    (files : recipes'.recipeFiles = recipes.recipeFiles)
    (newest : newestVersion recipes'.inodeIndex (key name) =
      some ⟨own.recipeFileName, own.recipeFileBuffer.length⟩)
    (others : ∀ other, newestUpload uploads other ≠ none → other ≠ name →
      newestVersion recipes'.inodeIndex (key other) =
        newestVersion recipes.inodeIndex (key other))
    (named : own'.recipeFileName = own.recipeFileName)
    (position : own'.lastRecipeHeadPos = own.recipeFileBuffer.length)
    (inode : own'.lastInodeFP = key name) {head : FileRecipeHead}
    (cells : own'.recipeFileBuffer =
      own.recipeFileBuffer ++ (headCells head ++ entriesCells entries))
    (count : head.numOfShares = entries.length) :
    UserRecipes key owned recipes' (some own') (extendUpload uploads name entries) := by
  have sameFiles : recipes'.fileCells = recipes.fileCells := by
    funext other
    rw [RecipeStore.fileCells, RecipeStore.fileCells, files]
  have now : inProgress (extendUpload uploads name entries) = some ⟨name, entries, false⟩ := by
    rw [inProgress_extendUpload]
    cases current : inProgress uploads with
    | none => rfl
    | some last =>
        simp only [Option.elim_some, (unbegun last current).2, List.nil_append]
  have same : ∀ other, other ≠ name →
      newestUpload (extendUpload uploads name entries) other = newestUpload uploads other :=
    fun other different => newestUpload_extendUpload_of_ne
      (fun last member => (unbegun last member).1) different entries
  have grows : ∀ file, recipeContent recipes (some own) file <+:
      recipeContent recipes' (some own') file := by
    intro file
    by_cases equal : own.recipeFileName = file
    · rw [← equal, recipeContent_own, ← named, recipeContent_own, cells]
      exact List.prefix_append _ _
    · rw [recipeContent_of_ne equal, recipeContent_of_ne (by rw [named]; exact equal),
        sameFiles]
  -- Everything recorded before is finished, and lies in front of the new recipe.
  have finished : ∀ other upload there, other ≠ name →
      newestUpload uploads other = some upload →
      newestVersion recipes'.inodeIndex (key other) = some there →
      HoldsRecipe (recipeContent recipes (some own) there.recipeFileName)
        there.recipeFileOffset upload.entries := by
    intro other upload there different found newest'
    rw [others other (by rw [found]; exact Option.some_ne_none _) different] at newest'
    refine user.settled other upload there found ?_ newest'
    intro last member equal
    exact different (equal.symm.trans (unbegun last member).1)
  refine ⟨?_, ?_, ?_, ?_, ?_, ?_⟩
  · intro other uploaded
    by_cases equal : other = name
    · exact ⟨_, by rw [equal, newest], (user.bufferOwned own rfl).1⟩
    · rw [same other equal] at uploaded
      rw [others other uploaded equal]
      exact user.placed other uploaded
  · intro other upload there found notCurrent newest'
    have different : other ≠ name := (notCurrent _ now).symm
    rw [same other different] at found
    exact (finished other upload there different found newest').of_isPrefix (grows _)
  · intro buffer member
    rw [Option.mem_some] at member
    rw [← member, named, sameFiles]
    exact user.bufferOwned own rfl
  · intro idle
    cases now.symm.trans idle
  · intro last member place newest'
    cases now.symm.trans member
    cases newest.symm.trans newest'
    exact .inl ⟨own', rfl, named, position, inode, .of_eq cells rfl count⟩
  · intro last member place newest' other upload there found different otherNewest file
    cases now.symm.trans member
    cases newest.symm.trans newest'
    rw [same other different] at found
    have holds := finished other upload there different found otherNewest
    rw [file, recipeContent_own] at holds
    rw [← named, recipeContent_own, cells, List.take_left]
    exact holds

theorem extend (user : UserRecipes key owned recipes (some own) uploads)
    (current : inProgress uploads = some last)
    (newest : newestVersion recipes.inodeIndex (key last.name) = some place)
    (named : own'.recipeFileName = own.recipeFileName)
    (front : own.recipeFileName = place.recipeFileName →
      own'.recipeFileBuffer.take place.recipeFileOffset =
        own.recipeFileBuffer.take place.recipeFileOffset)
    (elsewhere : own.recipeFileName = place.recipeFileName ∨
      Unrecorded key recipes uploads own.recipeFileName)
    (progress : Buffered key (some own') ⟨last.name, last.entries ++ entries, false⟩ place ∨
      Split key recipes (some own') (extendUpload uploads last.name entries)
        ⟨last.name, last.entries ++ entries, false⟩ place) :
    UserRecipes key owned recipes (some own') (extendUpload uploads last.name entries) := by
  have now : inProgress (extendUpload uploads last.name entries) =
      some ⟨last.name, last.entries ++ entries, false⟩ := by
    rw [inProgress_extendUpload, current, Option.elim_some]
  have same : ∀ other, other ≠ last.name →
      newestUpload (extendUpload uploads last.name entries) other =
        newestUpload uploads other := by
    intro other different
    refine newestUpload_extendUpload_of_ne ?_ different entries
    intro now member
    rw [Option.mem_def, current, Option.some.injEq] at member
    rw [member]
  refine user.reshape (by rw [now, current]; rfl) ?_ ?_ ⟨fun _ _ => rfl, ?_⟩
    (fun _ mine => mine) ?_ ?_ ?_
  · intro other uploaded
    by_cases equal : other = last.name
    · rw [equal, newestUpload_inProgress current]
      exact Option.some_ne_none _
    · rw [← same other equal]
      exact uploaded
  · intro other different
    exact same other (different last current).symm
  · intro other there uploaded otherNewest
    by_cases equal : own.recipeFileName = there.recipeFileName
    · rcases elsewhere with here | hidden
      · refine .inr ⟨last, place, current, newest, by rw [← equal, here], ?_⟩
        rw [← equal, recipeContent_own, ← named, recipeContent_own]
        exact front here
      · exact absurd equal.symm (hidden other there uploaded otherNewest)
    · left
      rw [recipeContent_of_ne equal, recipeContent_of_ne (by rw [named]; exact equal)]
  · intro buffer member
    rw [Option.mem_some] at member
    rw [← member, named]
    exact user.bufferOwned own rfl
  · intro idle
    cases now.symm.trans idle
  · intro now' member there newest'
    cases now.symm.trans member
    cases newest.symm.trans newest'
    exact progress

theorem settle (user : UserRecipes key owned recipes buffer uploads)
    (current : inProgress uploads = some last)
    (newest : newestVersion recipes.inodeIndex (key last.name) = some place)
    (whole : Whole key recipes buffer last place) :
    UserRecipes key owned recipes buffer (settleUpload uploads) := by
  have mine : newestUpload (settleUpload uploads) last.name =
      some { last with complete := true } := by
    rw [(inProgress_some current).1]
    simp [settleUpload, newestUpload]
  have others : ∀ other, other ≠ last.name →
      newestUpload (settleUpload uploads) other = newestUpload uploads other := by
    intro other different
    rw [(inProgress_some current).1]
    simp [settleUpload, newestUpload, different.symm]
  have idle := inProgress_settleUpload uploads
  refine ⟨?_, ?_, user.bufferOwned, ?_, ?_, ?_⟩
  · intro other uploaded
    exact user.placed other (mt (newestUpload_settleUpload uploads other).mpr uploaded)
  · intro other upload there found _ otherNewest
    by_cases equal : other = last.name
    · subst equal
      cases mine.symm.trans found
      cases newest.symm.trans otherNewest
      exact user.holdsRecipe whole
    · rw [others other equal] at found
      refine user.settled other upload there found ?_ otherNewest
      intro now member named
      cases current.symm.trans member
      exact equal named.symm
  · intro _ own member
    cases member
    rcases whole with buffered | ⟨_, emptied⟩
    · exact .inr (ownBuffer (by rw [mine]; exact Option.some_ne_none _) newest buffered)
    · exact .inl (emptied own rfl)
  · intro now member
    cases idle.symm.trans member
  · intro now member
    cases idle.symm.trans member

end UserRecipes

end MetaDedup.Server
