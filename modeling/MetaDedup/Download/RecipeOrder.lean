import MetaDedup.Server.RecipeFiles

/-! # A recipe and the request that uses it

To download a file the client sends the recipe on its connection to the meta port of a
server and then, without waiting for an answer, a `DOWNLOAD` request on its connection to
the data port. The server has a thread for each connection. The threads take the same
mutex, the one to write the recipe and the other to restore the shares. -/

namespace MetaDedup.Download

open Foundation Wire Server Relation

/-- The thread of the meta connection. It holds the mutex while it writes. -/
inductive MetaThread
  | receive
  | write (pieces : List (List Byte))
  | left

/-- The thread of the data connection. It holds the mutex while it is locked. At the end it
has called `restoreShareFile`, with the given contents of the recipe file. -/
inductive DataThread
  | receive
  | request
  | locked
  | restored (found : Option (List Byte)) (result : RestoreResult)

/-- The messages of the client and the two threads of one cloud. -/
structure Cloud where
  recipeSent : Bool
  downloadSent : Bool
  metaThread : MetaThread
  dataThread : DataThread
  recipeFiles : RecipeFiles

namespace Cloud

def start (recipeFiles : RecipeFiles) : Cloud where
  recipeSent := false
  downloadSent := false
  metaThread := .receive
  dataThread := .receive
  recipeFiles := recipeFiles

section Steps

variable (core : MinDedupCore) (socket : Nat → Bool) (memory : RestoreMemory)
  (removes : List Byte → List Byte → Bool) (userID : Int) (name : List Byte)

/-- The meta thread takes the mutex and opens the file, which creates it. -/
def openRecipe (cloud : Cloud) (pieces : List (List Byte)) : Cloud :=
  { cloud with
    metaThread := .write pieces
    recipeFiles := cloud.recipeFiles.append name [] }

def writePiece (cloud : Cloud) (piece : List Byte) (pieces : List (List Byte)) : Cloud :=
  { cloud with
    metaThread := .write pieces
    recipeFiles := cloud.recipeFiles.append name piece }

def restore (cloud : Cloud) : Cloud :=
  let result := core.restoreShareFile socket memory removes cloud.recipeFiles userID
    (directoryEntry name)
  { cloud with
    dataThread := .restored (cloud.recipeFiles (directoryEntry name)) result
    recipeFiles := result.recipeFiles }

/-- A step of the client or of a thread. The recipe arrives in some pieces. A thread takes
the mutex when the other one does not hold it. The data thread receives the request when
the condition holds; with the condition `True` these are all interleavings. -/
inductive Step (pieces : List (List Byte)) (condition : Cloud → Prop) (cloud : Cloud) :
    Cloud → Prop
  | sendRecipe (unsent : cloud.recipeSent = false) :
      Step pieces condition cloud { cloud with recipeSent := true }
  | sendDownload (uploaded : cloud.recipeSent = true) (unsent : cloud.downloadSent = false) :
      Step pieces condition cloud { cloud with downloadSent := true }
  | openRecipe (arrived : cloud.recipeSent = true) (ready : cloud.metaThread = .receive)
      (free : cloud.dataThread ≠ .locked) :
      Step pieces condition cloud (cloud.openRecipe name pieces)
  | writePiece {piece rest} (writing : cloud.metaThread = .write (piece :: rest)) :
      Step pieces condition cloud (cloud.writePiece name piece rest)
  | closeRecipe (written : cloud.metaThread = .write []) :
      Step pieces condition cloud { cloud with metaThread := .left }
  | receiveDownload (arrived : cloud.downloadSent = true)
      (ready : cloud.dataThread = .receive) (allowed : condition cloud) :
      Step pieces condition cloud { cloud with dataThread := .request }
  | lock (requested : cloud.dataThread = .request)
      (free : ∀ rest, cloud.metaThread ≠ .write rest) :
      Step pieces condition cloud { cloud with dataThread := .locked }
  | restore (holds : cloud.dataThread = .locked) :
      Step pieces condition cloud (cloud.restore core socket memory removes userID name)

end Steps

/-- The meta thread has taken the mutex for the recipe. -/
def Begun (cloud : Cloud) : Prop := cloud.metaThread ≠ .receive

/-! ## The recipe file -/

/-- What the file has while the meta thread is at work. -/
def Content (recipe : List Byte) (file : Option (List Byte)) : MetaThread → Prop
  | .receive => file.getD [] = []
  | .write pieces => ∃ written, written ++ pieces.flatten = recipe ∧ file = some written
  | .left => file = some recipe

/-- Where the data thread can be. Once it has received the request, the meta thread has
had the mutex, and when it has the mutex itself, the recipe is written. -/
def Follows (recipe : List Byte) (cloud : Cloud) : DataThread → Prop
  | .receive => True
  | .request => cloud.Begun
  | .locked => cloud.metaThread = .left
  | .restored found _ => cloud.metaThread = .left ∧ found = some recipe

/-- Before the data thread has restored, the recipe file has what the meta thread has
written. Afterwards it may be gone. -/
structure Ordered (recipe name : List Byte) (cloud : Cloud) : Prop where
  file : (∀ found result, cloud.dataThread ≠ .restored found result) →
    Content recipe (cloud.recipeFiles (directoryEntry name)) cloud.metaThread
  data : cloud.Follows recipe cloud.dataThread

variable {core : MinDedupCore} {socket : Nat → Bool} {memory : RestoreMemory}
  {removes : List Byte → List Byte → Bool} {userID : Int} {name recipe : List Byte}
  {pieces : List (List Byte)} {cloud next : Cloud}

/-- A step of the meta thread with the mutex keeps the data thread where it is. -/
private theorem Follows.write (follows : cloud.Follows recipe cloud.dataThread)
    (unwritten : cloud.metaThread ≠ .left) (begun : next.Begun) :
    next.Follows recipe cloud.dataThread := by
  cases position : cloud.dataThread with
  | receive => trivial
  | request => exact begun
  | locked =>
      rw [position] at follows
      exact absurd follows unwritten
  | restored found result =>
      rw [position] at follows
      exact absurd follows.1 unwritten

private theorem Content.write {file : Option (List Byte)} {piece : List Byte}
    {rest : List (List Byte)} (content : Content recipe file (.write (piece :: rest))) :
    Content recipe (some (file.getD [] ++ piece)) (.write rest) := by
  rcases content with ⟨written, whole, rfl⟩
  exact ⟨written ++ piece, by simpa using whole, rfl⟩

theorem Ordered.step (ordered : Ordered pieces.flatten name cloud)
    (step : cloud.Step core socket memory removes userID name pieces Begun next) :
    Ordered pieces.flatten name next := by
  rcases ordered with ⟨file, data⟩
  cases step with
  | sendRecipe unsent => exact ⟨file, data⟩
  | sendDownload uploaded unsent => exact ⟨file, data⟩
  | openRecipe arrived ready free =>
      constructor
      · intro pending
        have empty := file pending
        rw [ready] at empty
        refine ⟨[], List.nil_append _, ?_⟩
        change RecipeFiles.append _ _ _ _ = _
        rw [RecipeFiles.append_self, List.append_nil]
        exact congrArg some empty
      · exact data.write (by simp [ready]) MetaThread.noConfusion
  | @writePiece piece rest writing =>
      constructor
      · intro pending
        have content := file pending
        rw [writing] at content
        change Content _ (RecipeFiles.append _ _ _ _) _
        rw [RecipeFiles.append_self]
        exact content.write
      · exact data.write (by simp [writing]) MetaThread.noConfusion
  | closeRecipe written =>
      constructor
      · intro pending
        have content := file pending
        rw [written] at content
        rcases content with ⟨recipe, whole, present⟩
        rw [List.flatten_nil, List.append_nil] at whole
        exact whole ▸ present
      · exact data.write (by simp [written]) MetaThread.noConfusion
  | receiveDownload arrived ready allowed =>
      exact ⟨fun _ => file (by simp [ready]), allowed⟩
  | lock requested free =>
      -- the mutex is free, so the meta thread, which has had it, is done with the recipe
      rw [requested] at data
      have done : cloud.metaThread = .left := by
        cases position : cloud.metaThread with
        | receive => exact absurd position data
        | write rest => exact absurd position (free rest)
        | left => rfl
      exact ⟨fun _ => file (by simp [requested]), done⟩
  | restore holds =>
      rw [holds] at data
      have content := file (by simp [holds])
      rw [show cloud.metaThread = .left from data] at content
      exact ⟨fun pending => absurd rfl (pending _ _), data, content⟩

theorem Ordered.run {recipeFiles : RecipeFiles}
    (unused : (recipeFiles (directoryEntry name)).getD [] = [])
    (run : ReflTransGen
      (Step core socket memory removes userID name pieces Begun) (start recipeFiles) cloud) :
    Ordered pieces.flatten name cloud := by
  induction run with
  | refl => exact ⟨fun _ => unused, trivial⟩
  | tail _ step induction => exact induction.step step

end Cloud

/-- When the data thread has executed `restoreShareFile`, the recipe file was there, and it
had the recipe and nothing else. -/
def FoundComplete (recipe : List Byte) (cloud : Cloud) : Prop :=
  ∀ found result, cloud.dataThread = .restored found result → found = some recipe

/-- In every run in which the data thread receives the request only after the meta thread
has taken the mutex, it finds the complete recipe, unless an old recipe of that name was
left in the file. -/
theorem download_follows_recipe (core : MinDedupCore) (socket : Nat → Bool)
    (memory : RestoreMemory) (removes : List Byte → List Byte → Bool) (userID : Int)
    (name : List Byte) (recipe : RetrievedRecipeFile) (pieces : List (List Byte))
    (whole : pieces.flatten = recipe.bytes) (recipeFiles : RecipeFiles)
    (unused : (recipeFiles (directoryEntry name)).getD [] = []) (cloud : Cloud)
    (run : ReflTransGen
      (Cloud.Step core socket memory removes userID name pieces Cloud.Begun)
      (.start recipeFiles) cloud) :
    FoundComplete recipe.bytes cloud := by
  intro found result done
  have follows := (Cloud.Ordered.run unused run).data
  rw [done] at follows
  exact whole ▸ follows.2

/-- The request arrives while the recipe is being written, in two pieces, and is served
afterwards. -/
theorem download_follows_recipe_written :
    ∃ cloud result, cloud.dataThread = .restored (some oneShareRecipe.bytes) result ∧
      FoundComplete oneShareRecipe.bytes cloud := by
  let head := oneShareRecipe.bytes.take fileRecipeHeadSize
  let entries := oneShareRecipe.bytes.drop fileRecipeHeadSize
  have whole : [head, entries].flatten = oneShareRecipe.bytes := by
    simp [head, entries]
  have requested : ReflTransGen
      (Cloud.Step .empty (fun _ => true) clearedRestoreMemory removesNamed 1 [114]
        [head, entries] Cloud.Begun)
      (.start fun _ => none)
      ⟨true, true, .write [entries], .request, (RecipeFiles.append (RecipeFiles.append
        (fun _ => none) [114] []) [114] head)⟩ :=
    ((((ReflTransGen.single (.sendRecipe rfl)).tail (.sendDownload rfl rfl)).tail
      (.openRecipe rfl rfl DataThread.noConfusion)).tail (.writePiece rfl)).tail
      (.receiveDownload rfl rfl MetaThread.noConfusion)
  have restored := (((requested.tail (.writePiece rfl)).tail (.closeRecipe rfl)).tail
    (.lock rfl fun _ => MetaThread.noConfusion)).tail (.restore rfl)
  have found := download_follows_recipe _ _ _ _ 1 [114] oneShareRecipe [head, entries] whole
    _ rfl _ restored
  exact ⟨_, _, congrArg (DataThread.restored · _) (found _ _ rfl), found⟩

/-- The data thread overtakes the meta thread: there is no recipe file, and nothing is
sent although `restoreShareFile` returns 1. -/
theorem download_overtakes_recipe :
    ∃ cloud result, ReflTransGen
        (Cloud.Step .empty (fun _ => true) clearedRestoreMemory removesNamed 1 [114]
          [oneShareRecipe.bytes] fun _ => True)
        (.start fun _ => none) cloud ∧
      cloud.dataThread = .restored none result ∧ result.sent = [] ∧ result.returns = true ∧
      ¬ FoundComplete oneShareRecipe.bytes cloud := by
  have locked : ReflTransGen
      (Cloud.Step .empty (fun _ => true) clearedRestoreMemory removesNamed 1 [114]
        [oneShareRecipe.bytes] fun _ => True)
      (.start fun _ => none)
      ⟨true, true, .receive, .locked, fun _ => none⟩ :=
    (((ReflTransGen.single (.sendRecipe rfl)).tail (.sendDownload rfl rfl)).tail
      (.receiveDownload rfl rfl trivial)).tail (.lock rfl fun _ => MetaThread.noConfusion)
  refine ⟨_, _, locked.tail (.restore rfl), rfl, rfl, rfl, ?_⟩
  intro complete
  cases complete none _ rfl

end MetaDedup.Download
