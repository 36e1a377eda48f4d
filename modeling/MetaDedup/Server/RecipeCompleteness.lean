import MetaDedup.Server.DedupIntegrity
import MetaDedup.Server.RecipeFrame
import MetaDedup.Server.RecipeRounds

/-! # Completeness of recipes

After the last round of a file, reading its recipe gives the entries of all its shares
in the order in which they were sent, provided the last round ends well. -/

namespace MetaDedup.Server

open Foundation InternalFileName Function Relation

/-! ## One file of a package -/

namespace DedupCursor

variable {generateHash : List Byte → Fingerprint}
variable {stray : List RecipeCell → FileRecipeHead}
variable {userID : Int} {intraUserDupStatList : Nat → Bool} {shareDataBuffer : Buffer Byte}

private theorem placeEntry_ok {cursor next : DedupCursor} {entry : ShareMDEntry}
    (placed : cursor.placeEntry generateHash userID intraUserDupStatList shareDataBuffer
      entry = .ok next) :
    next.recipes = cursor.recipes ∧
      next.recipe = RecipeStore.placeEntry cursor.recipe entry ∧
      next.shares.buffer.userID = cursor.shares.buffer.userID := by
  rcases placeEntry_eq_ok placed with ⟨shares, taken, rfl⟩
  have user := cursor.shares.placeShare_userID generateHash userID intraUserDupStatList
    shareDataBuffer entry
  rw [taken] at user
  exact ⟨rfl, rfl, user⟩

private theorem placeEntries_ok (entries : List ShareMDEntry) {cursor final : DedupCursor}
    (placed : entries.foldlM
      (placeEntry generateHash userID intraUserDupStatList shareDataBuffer) cursor =
      .ok final) :
    final.recipes = cursor.recipes ∧
      final.recipe = entries.foldl RecipeStore.placeEntry cursor.recipe ∧
      final.shares.buffer.userID = cursor.shares.buffer.userID := by
  induction entries generalizing cursor with
  | nil =>
      rw [← Except.ok.inj placed]
      exact ⟨rfl, rfl, rfl⟩
  | cons entry rest induction =>
      rw [List.foldlM_cons] at placed
      rcases Loop.bind_eq_ok_iff.mp placed with ⟨next, first, later⟩
      rcases placeEntry_ok first with ⟨recipes, recipe, user⟩
      rcases induction later with ⟨recipes', recipe', user'⟩
      exact ⟨recipes'.trans recipes, by rw [recipe', recipe]; rfl, user'.trans user⟩

private theorem onRecipe_ok {cursor next : DedupCursor}
    {step : Except (RecipeStore × RecipeBuffer) (RecipeStore × RecipeBuffer)}
    (stepped : cursor.onRecipe step = .ok next) :
    step = .ok (next.recipes, next.recipe) ∧ next.shares = cursor.shares := by
  cases step with
  | error left => cases stepped
  | ok state =>
      rw [onRecipe, Except.ok.injEq] at stepped
      rw [← stepped]
      exact ⟨rfl, rfl⟩

private theorem placeFile_ok {cursor final : DedupCursor} {file : FileShareMD}
    (placed : cursor.placeFile generateHash stray userID intraUserDupStatList
      shareDataBuffer file = .ok final) :
    ∃ name room, formatFullFileName file.fullName = some name ∧
      cursor.recipes.makeRoom stray cursor.recipe file = .ok room ∧
      RecipeStore.finishFile stray
        (room.1.placeRound generateHash stray room.2 name userID file).1
        (room.1.placeRound generateHash stray room.2 name userID file).2 file =
        .ok (final.recipes, final.recipe) ∧
      final.shares.buffer.userID = cursor.shares.buffer.userID := by
  rw [placeFile] at placed
  cases formatted : formatFullFileName file.fullName with
  | none => simp [formatted] at placed
  | some name =>
      simp only [formatted] at placed
      rcases Loop.bind_eq_ok_iff.mp placed with ⟨roomy, made, placed⟩
      rcases Loop.bind_eq_ok_iff.mp placed with ⟨headed, head, placed⟩
      rcases Loop.bind_eq_ok_iff.mp placed with ⟨filled, entries, finished⟩
      rcases onRecipe_ok made with ⟨room, sharesRoom⟩
      rcases onRecipe_ok head with ⟨recipeHead, sharesHead⟩
      rcases placeEntries_ok file.entries entries with ⟨recipes, recipe, user⟩
      rcases onRecipe_ok finished with ⟨done, sharesDone⟩
      rw [Except.ok.injEq] at recipeHead
      refine ⟨name, _, rfl, room, ?_, by rw [sharesDone, user, sharesHead, sharesRoom]⟩
      rw [← done, RecipeStore.placeRound, recipeHead, recipes, recipe]

end DedupCursor

/-! ## The link -/

def userBuffer (nodes : List PerUserBufferNode) (userID : Int) : Option RecipeBuffer :=
  (nodes.find? fun node => node.userID == userID).map PerUserBufferNode.recipe

theorem userBuffer_cons (node : PerUserBufferNode) (rest : List PerUserBufferNode)
    (userID : Int) :
    userBuffer (node :: rest) userID =
      if node.userID = userID then some node.recipe else userBuffer rest userID := by
  rw [userBuffer, List.find?_cons]
  by_cases equal : node.userID = userID
  · simp [equal]
  · have different : (node.userID == userID) = false := beq_false_of_ne equal
    simp only [different, if_neg equal]
    rfl

theorem userBuffer_of_mem {nodes : List PerUserBufferNode}
    (distinct : (nodes.map PerUserBufferNode.userID).Nodup) {node : PerUserBufferNode}
    (member : node ∈ nodes) : userBuffer nodes node.userID = some node.recipe := by
  induction nodes with
  | nil => cases member
  | cons first rest induction =>
      rw [List.map_cons, List.nodup_cons] at distinct
      rw [userBuffer_cons]
      rcases List.mem_cons.mp member with equal | later
      · rw [equal, if_pos rfl]
      · rw [if_neg, induction distinct.2 later]
        intro equal
        exact distinct.1 (equal ▸ List.mem_map_of_mem later)

theorem userBuffer_eq_none {nodes : List PerUserBufferNode} {userID : Int}
    (absent : ∀ node ∈ nodes, node.userID ≠ userID) : userBuffer nodes userID = none := by
  rw [userBuffer, Option.map_eq_none_iff, List.find?_eq_none]
  intro node member
  simpa using absent node member

theorem userBuffer_perm {nodes reordered : List PerUserBufferNode}
    (permuted : nodes.Perm reordered) (distinct : (nodes.map PerUserBufferNode.userID).Nodup) :
    userBuffer reordered = userBuffer nodes := by
  funext userID
  by_cases present : ∃ node ∈ nodes, node.userID = userID
  · rcases present with ⟨node, member, own⟩
    have distinct' := (permuted.map PerUserBufferNode.userID).nodup_iff.mp distinct
    rw [← own, userBuffer_of_mem distinct member,
      userBuffer_of_mem distinct' (permuted.mem_iff.mp member)]
  · have absent : ∀ node ∈ nodes, node.userID ≠ userID := fun node member own =>
      present ⟨node, member, own⟩
    rw [userBuffer_eq_none absent,
      userBuffer_eq_none fun node member => absent node (permuted.mem_iff.mpr member)]

private theorem userBuffer_cons_eq_update {node : PerUserBufferNode} {rest : List PerUserBufferNode}
    {buffers : Int → Option RecipeBuffer}
    (others : ∀ userID, userID ≠ node.userID → userBuffer rest userID = buffers userID) :
    userBuffer (node :: rest) = update buffers node.userID (some node.recipe) := by
  funext userID
  rw [userBuffer_cons]
  by_cases equal : userID = node.userID
  · rw [if_pos equal.symm, equal, update_self]
  · rw [if_neg (Ne.symm equal), update_of_ne equal, others userID equal]

namespace DedupCore

variable {generateHash : List Byte → Fingerprint}
variable {stray : List RecipeCell → FileRecipeHead}
variable {files : Set (List Byte × Int)} {owner : InternalFileName → Int}
variable {history : Int → List Upload}

theorem outcome_flushBufferNodeIntoDisk_recipes (stores : ShareStore × RecipeStore)
    (node : PerUserBufferNode) :
    (Loop.outcome (flushBufferNodeIntoDisk stray stores node)).2 =
      Loop.outcome (stores.2.flushRecipeBuffer stray node.recipe) := by
  rw [flushBufferNodeIntoDisk]
  cases stores.2.flushRecipeBuffer stray node.recipe <;> rfl

private theorem flushRecipeBuffer_global (recipes : RecipeStore) (buffer : RecipeBuffer) :
    (Loop.outcome (recipes.flushRecipeBuffer stray buffer)).globalRecipeFileName =
      recipes.globalRecipeFileName := by
  rw [RecipeStore.flushRecipeBuffer]
  split
  · rfl
  · split
    · cases recipes.findOldRecipeFile buffer with
      | none => rfl
      | some entry =>
          simp only
          split
          · split <;> rfl
          · cases RecipeStore.appendEntries stray (recipes.fileCells entry.recipeFileName)
              entry.recipeFileOffset buffer.recipeFileBuffer <;> rfl
    · rfl

private theorem expire_global (stray : List RecipeCell → FileRecipeHead) (core : DedupCore)
    (userID : Int) (expired : PerUserBufferNode → Bool) :
    (core.expire stray userID expired).1.2.globalRecipeFileName =
      core.recipes.globalRecipeFileName := by
  refine expireNodes_invariant _ (expires userID expired) (fun _ _ => True)
    (fun (stores : ShareStore × RecipeStore) _ => stores.2.globalRecipeFileName =
      core.recipes.globalRecipeFileName) (fun _ _ _ _ same => same) ?_ _ _
    (walkMeets_of_forall _ _ (fun _ _ => trivial) _ _) rfl
  intro stores node rest _ _ same
  simp only [outcome_flushBufferNodeIntoDisk_recipes, flushRecipeBuffer_global]
  exact same

private theorem findOrCreateBufferNode_drawn_le (generateHash : List Byte → Fingerprint)
    (stray : List RecipeCell → FileRecipeHead) (core : DedupCore) (userID : Int)
    (expired : PerUserBufferNode → Bool) :
    core.recipes.globalRecipeFileName.drawn ≤
      (core.findOrCreateBufferNode generateHash stray userID
        expired).1.2.globalRecipeFileName.drawn := by
  rw [findOrCreateBufferNode, ← expire_global stray core userID expired]
  cases findUserNode PerUserBufferNode.userID userID
      (core.expire stray userID expired).2 with
  | some found => exact Nat.le_refl _
  | none => exact Nat.le_succ _

/-- Where the walk through the link stands: the books are in order, and nothing of the
user whose call it is has changed. -/
structure Walked (generateHash : List Byte → Fingerprint) (files : Set (List Byte × Int))
    (owner : InternalFileName → Int) (history : Int → List Upload) (userID : Int)
    (before : RecipeStore) (stores : ShareStore × RecipeStore)
    (nodes : List PerUserBufferNode) : Prop where
  distinct : (nodes.map PerUserBufferNode.userID).Nodup
  books : Bookkeeping generateHash files owner stores.2 (userBuffer nodes) history
  within : WritesWithin (fun name => owner name ≠ userID) before stores.2

private theorem expire_walked (stray : List RecipeCell → FileRecipeHead) {core : DedupCore}
    (userID : Int)
    (expired : PerUserBufferNode → Bool)
    (distinct : (core.bufferNodes.map PerUserBufferNode.userID).Nodup)
    (books : Bookkeeping generateHash files owner core.recipes
      (userBuffer core.bufferNodes) history) :
    Walked generateHash files owner history userID core.recipes
      (core.expire stray userID expired).1 (core.expire stray userID expired).2 := by
  refine expireNodes_invariant _ (expires userID expired) (fun _ _ => True)
    (Walked generateHash files owner history userID core.recipes) ?_ ?_ _ _
    (walkMeets_of_forall _ _ (fun _ _ => trivial) _ _)
    ⟨distinct, books, .refl _ core.recipes⟩
  · intro stores nodes reordered permuted walked
    exact ⟨(permuted.map _).nodup_iff.mp walked.distinct,
      by rw [userBuffer_perm permuted walked.distinct]; exact walked.books, walked.within⟩
  · intro stores node rest selected _ walked
    have distinct := walked.distinct
    rw [List.map_cons, List.nodup_cons] at distinct
    have foreign : node.userID ≠ userID := by
      rw [expires, Bool.and_eq_true, bne_iff_ne] at selected
      exact selected.1
    have gone : userBuffer rest node.userID = none := by
      apply userBuffer_eq_none
      intro other member equal
      exact distinct.1 (equal ▸ List.mem_map_of_mem member)
    have flushed := walked.books.flush stray
      (userBuffer_of_mem walked.distinct List.mem_cons_self)
    rw [← outcome_flushBufferNodeIntoDisk_recipes] at flushed
    have remaining : update (userBuffer (node :: rest)) node.userID none =
        userBuffer rest := by
      funext other
      by_cases equal : other = node.userID
      · rw [equal, update_self, gone]
      · rw [update_of_ne equal, userBuffer_cons, if_neg (Ne.symm equal)]
    rw [remaining] at flushed
    rcases flushed with ⟨kept, written⟩
    refine ⟨distinct.2, kept, written.global.trans walked.within.global,
      written.index.trans walked.within.index, ?_⟩
    intro name own
    rw [written.elsewhere, walked.within.elsewhere name own]
    intro claimed
    exact own fun equal => foreign (claimed.2.symm.trans equal)

private theorem userBuffer_expire (stray : List RecipeCell → FileRecipeHead) (core : DedupCore)
    (userID : Int) (expired : PerUserBufferNode → Bool) :
    userBuffer (core.expire stray userID expired).2 userID =
      userBuffer core.bufferNodes userID := by
  have kept : (core.expire stray userID expired).2 =
      core.bufferNodes.filter fun node => !expires userID expired node :=
    expireNodes_nodes _ _ _ _
  have same : (fun node : PerUserBufferNode =>
      decide ((!expires userID expired node) = true ∧ (node.userID == userID) = true)) =
      fun node => node.userID == userID := by
    funext node
    by_cases own : node.userID = userID
    · simp [expires, own]
    · simp [own]
  rw [userBuffer, kept, List.find?_filter, same]
  rfl

theorem userBuffer_link (node : LinkedNode PerUserBufferNode)
    (distinct : (node.link.map PerUserBufferNode.userID).Nodup) :
    userBuffer node.link =
      update (userBuffer node.others) node.target.userID
        (some node.target.recipe) := by
  rw [← userBuffer_perm node.link_perm distinct]
  exact userBuffer_cons_eq_update fun _ _ => rfl

/-- The node a call works on belongs to its user, and the link still has one node for
each user. -/
theorem findOrCreateBufferNode_distinct (generateHash : List Byte → Fingerprint)
    (stray : List RecipeCell → FileRecipeHead) {core : DedupCore}
    (distinct : (core.bufferNodes.map PerUserBufferNode.userID).Nodup) (userID : Int)
    (expired : PerUserBufferNode → Bool) :
    let opened := core.findOrCreateBufferNode generateHash stray userID expired
    opened.2.target.userID = userID ∧
      (opened.2.link.map PerUserBufferNode.userID).Nodup := by
  have walked : ((core.expire stray userID expired).2.map PerUserBufferNode.userID).Nodup := by
    have kept : (core.expire stray userID expired).2 =
        core.bufferNodes.filter fun node => !expires userID expired node :=
      expireNodes_nodes _ _ _ _
    rw [kept]
    exact distinct.sublist (List.filter_sublist.map _)
  rw [findOrCreateBufferNode]
  generalize core.expire stray userID expired = kept at walked
  cases located : findUserNode PerUserBufferNode.userID userID kept.2 with
  | some found =>
      rcases findUserNode_some located with ⟨whole, own⟩
      exact ⟨own, by rw [whole]; exact walked⟩
  | none =>
      refine ⟨rfl, ?_⟩
      have permuted := (LinkedNode.atEnd kept.2
        (newBufferNode generateHash kept.1 userID).2).link_perm.map PerUserBufferNode.userID
      rw [LinkedNode.atEnd_others] at permuted
      refine permuted.nodup_iff.mpr (List.nodup_cons.mpr ⟨?_, walked⟩)
      intro member
      rcases List.mem_map.mp member with ⟨node, there, equal⟩
      exact findUserNode_none located node there equal

private theorem userBuffer_findOrCreateBufferNode {core : DedupCore}
    (distinct : (core.bufferNodes.map PerUserBufferNode.userID).Nodup)
    {userID other : Int} {expired : PerUserBufferNode → Bool} {own : RecipeBuffer}
    (foreign : other ≠ userID)
    (here : userBuffer (core.findOrCreateBufferNode generateHash stray userID
      expired).2.link other = some own) :
    userBuffer core.bufferNodes other = some own := by
  have linked := (findOrCreateBufferNode_distinct generateHash stray distinct userID
    expired).2
  have kept : (core.expire stray userID expired).2 =
      core.bufferNodes.filter fun node => !expires userID expired node :=
    expireNodes_nodes _ _ _ _
  have found : userBuffer (core.expire stray userID expired).2 other = some own := by
    rw [findOrCreateBufferNode] at here linked
    cases located : findUserNode PerUserBufferNode.userID userID
        (core.expire stray userID expired).2 with
    | some found =>
        simp only [located] at here
        rw [(findUserNode_some located).1] at here
        exact here
    | none =>
        simp only [located] at here linked
        rw [userBuffer_link _ linked, LinkedNode.atEnd_others] at here
        exact (update_of_ne foreign _ _).symm.trans here
  rw [kept, userBuffer] at found
  rcases Option.map_eq_some_iff.mp found with ⟨node, located, same⟩
  have mine : node.userID = other := by
    simpa using List.find?_some located
  rw [← mine, ← same]
  exact userBuffer_of_mem distinct
    (List.mem_filter.mp (List.mem_of_find?_eq_some located)).1

/-- What a call finds when it has its node: the books in order, and the recipes of its
user as they were. -/
structure Opened (generateHash : List Byte → Fingerprint) (files : Set (List Byte × Int))
    (history : Int → List Upload) (userID : Int) (core : DedupCore)
    (opened : (ShareStore × RecipeStore) × LinkedNode PerUserBufferNode) : Prop where
  books : ∃ owner, Bookkeeping generateHash files owner opened.1.2
    (userBuffer opened.2.link) history
  index : opened.1.2.inodeIndex = core.recipes.inodeIndex
  files : ∀ name place, newestUpload (history userID) name ≠ none →
    newestVersion core.recipes.inodeIndex (inodeKey generateHash userID name) = some place →
    opened.1.2.fileCells place.recipeFileName = core.recipes.fileCells place.recipeFileName
  buffer : userBuffer core.bufferNodes userID = some opened.2.target.recipe ∨
    userBuffer core.bufferNodes userID = none ∧ opened.2.target.recipe.recipeFileBuffer = []

private theorem findOrCreateBufferNode_opened {core : DedupCore}
    (distinct : (core.bufferNodes.map PerUserBufferNode.userID).Nodup)
    (books : Bookkeeping generateHash files owner core.recipes
      (userBuffer core.bufferNodes) history)
    (userID : Int) (expired : PerUserBufferNode → Bool)
    (left : (core.findOrCreateBufferNode generateHash stray userID
      expired).1.2.globalRecipeFileName.drawn < 26 ^ fileNameValidLen) :
    Opened generateHash files history userID core
      (core.findOrCreateBufferNode generateHash stray userID expired) := by
  have walked := expire_walked stray userID expired distinct books
  have same := userBuffer_expire stray core userID expired
  have linked := (findOrCreateBufferNode_distinct generateHash stray distinct userID
    expired).2
  have cells : ∀ name place, newestUpload (history userID) name ≠ none →
      newestVersion core.recipes.inodeIndex (inodeKey generateHash userID name) =
        some place →
      (core.expire stray userID expired).1.2.fileCells place.recipeFileName =
        core.recipes.fileCells place.recipeFileName := by
    intro name place uploaded newest
    rcases (books.users userID).placed name uploaded with ⟨place', newest', mine⟩
    rw [newest, Option.some.injEq] at newest'
    rw [← newest'] at mine
    rw [RecipeStore.fileCells, RecipeStore.fileCells,
      walked.within.elsewhere _ fun foreign => foreign mine.2]
  rw [findOrCreateBufferNode] at left linked ⊢
  generalize core.expire stray userID expired = kept at walked same cells left linked
  cases located : findUserNode PerUserBufferNode.userID userID kept.2 with
  | some found =>
      rcases findUserNode_some located with ⟨whole, own⟩
      have there := userBuffer_link found (by rw [whole]; exact walked.distinct)
      rw [whole, own] at there
      refine ⟨⟨owner, by simp only [whole]; exact walked.books⟩, walked.within.index, cells,
        .inl ?_⟩
      rw [← same, there, update_self]
  | none =>
      simp only [located] at left linked
      have absent : userBuffer kept.2 userID = none :=
        userBuffer_eq_none (findUserNode_none located)
      have created := walked.books.create
        (newBufferNode generateHash kept.1 userID).2.recipe (Nat.lt_of_succ_lt left) absent
        rfl rfl
      have fresh := userBuffer_link _ linked
      rw [LinkedNode.atEnd_others] at fresh
      refine ⟨⟨update owner kept.1.2.drawRecipeFileName.1 userID, ?_⟩,
        walked.within.index, cells, .inr ⟨same.symm.trans absent, rfl⟩⟩
      simp only [fresh]
      exact created

variable {userID : Int} {core next : DedupCore} {name : List Byte} {file : FileShareMD}

/-- Whether the last round ends well can be told before the call. -/
theorem Opened.endsWell {opened : (ShareStore × RecipeStore) × LinkedNode PerUserBufferNode}
    (state : Opened generateHash files history userID core opened)
    (valid : ValidRound (history userID) name file) {room : RecipeStore × RecipeBuffer}
    (made : opened.1.2.makeRoom stray opened.2.target.recipe file = .ok room)
    (well : core.recipes.EndsWell generateHash stray (userBuffer core.bufferNodes userID)
      name userID file) :
    opened.1.2.EndsWell generateHash stray (some opened.2.target.recipe) name userID
      file := by
  intro ends past
  have uploaded : newestUpload (history userID) name ≠ none := by
    cases current : inProgress (history userID) with
    | none =>
        rw [ValidRound, current] at valid
        omega
    | some last =>
        rw [ValidRound, current] at valid
        rw [← valid.2.1]
        exact uploaded_of_inProgress current
  have room : (∃ own ∈ some opened.2.target.recipe, RecipeStore.Overflows own file) ↔
      ∃ own ∈ userBuffer core.bufferNodes userID, RecipeStore.Overflows own file := by
    rcases state.buffer with same | ⟨absent, emptied⟩
    · rw [same]
    · have fits := Bookkeeping.not_overflows_of_empty emptied made
      simp [absent, fits]
  have same : opened.1.2.storedShares generateHash stray (some opened.2.target.recipe) name
      userID file =
      core.recipes.storedShares generateHash stray (userBuffer core.bufferNodes userID) name
        userID file := by
    rw [RecipeStore.storedShares, RecipeStore.storedShares, state.index]
    simp only [room]
    cases newest : newestVersion core.recipes.inodeIndex
        (fileName2InodeFP generateHash name userID) with
    | none => rfl
    | some place => simp only [state.files name place uploaded newest]
  rw [same]
  exact well ends past

private theorem makeRoom_drawn_le {recipes : RecipeStore} {own : RecipeBuffer}
    {room : RecipeStore × RecipeBuffer} (made : recipes.makeRoom stray own file = .ok room) :
    recipes.globalRecipeFileName.drawn ≤ room.1.globalRecipeFileName.drawn := by
  rw [RecipeStore.makeRoom] at made
  split at made
  · split at made
    · rw [Bookkeeping.appendOldRecipeFile_global made]
    · rw [RecipeStore.storeNewRecipeFile] at made
      split at made
      · cases made
      · rw [Except.ok.injEq] at made
        rw [← made]
        exact Nat.le_succ _
  · rw [Except.ok.injEq] at made
    rw [← made]

/-- The link has one node for each user and, as long as recipe file names are left, the
recipes are in order. -/
def InOrder (generateHash : List Byte → Fingerprint) (files : Set (List Byte × Int))
    (core : DedupCore) (history : Int → List Upload) : Prop :=
  (core.bufferNodes.map PerUserBufferNode.userID).Nodup ∧
    (core.recipes.globalRecipeFileName.drawn < 26 ^ fileNameValidLen →
      ∃ owner, Bookkeeping generateHash files owner core.recipes
        (userBuffer core.bufferNodes) history)

theorem secondStageDedup_ok {intraUserDupStatList : Nat → Bool}
    {shareDataBuffer : Buffer Byte} {expired : PerUserBufferNode → Bool}
    (returned : core.secondStageDedup generateHash stray userID [file] intraUserDupStatList
      shareDataBuffer expired = .ok next) :
    let opened := core.findOrCreateBufferNode generateHash stray userID expired
    ∃ name room cursor, formatFullFileName file.fullName = some name ∧
      opened.1.2.makeRoom stray opened.2.target.recipe file = .ok room ∧
      RecipeStore.finishFile stray
        (room.1.placeRound generateHash stray room.2 name userID file).1
        (room.1.placeRound generateHash stray room.2 name userID file).2 file =
        .ok (cursor.recipes, cursor.recipe) ∧
      cursor.shares.buffer.userID = opened.2.target.userID ∧
      next = closeCursor opened cursor := by
  rw [secondStageDedup] at returned
  generalize core.findOrCreateBufferNode generateHash stray userID expired = opened
    at returned ⊢
  simp only [List.foldlM_cons, List.foldlM_nil, bind_pure] at returned
  cases placed : (openCursor opened).placeFile generateHash stray userID
      intraUserDupStatList shareDataBuffer file with
  | error cursor => simp [placed] at returned
  | ok cursor =>
      simp only [placed, Except.ok.injEq] at returned
      rcases DedupCursor.placeFile_ok placed with ⟨name, room, named, made, finished, own⟩
      exact ⟨name, room, cursor, named, made, finished, own, returned.symm⟩

/-- The buffers when a call returns: that of its user is the one the cursor has worked
on. -/
theorem closeCursor_nodes {opened : (ShareStore × RecipeStore) × LinkedNode PerUserBufferNode}
    (linked : opened.2.target.userID = userID ∧
      (opened.2.link.map PerUserBufferNode.userID).Nodup)
    {cursor : DedupCursor} (own : cursor.shares.buffer.userID = opened.2.target.userID) :
    ((closeCursor opened cursor).bufferNodes.map PerUserBufferNode.userID).Nodup ∧
      userBuffer (closeCursor opened cursor).bufferNodes =
        update (userBuffer opened.2.link) userID (some cursor.recipe) := by
  have target : (⟨cursor.shares.buffer, cursor.recipe⟩ : PerUserBufferNode).userID =
      opened.2.target.userID := own
  have relinked : ((opened.2.setTarget ⟨cursor.shares.buffer, cursor.recipe⟩).link.map
      PerUserBufferNode.userID).Nodup := by
    rw [LinkedNode.link, LinkedNode.setTarget, List.map_append, List.map_cons, target,
      ← List.map_cons, ← List.map_append]
    exact linked.2
  have relink := userBuffer_link _ relinked
  rw [LinkedNode.setTarget_target, LinkedNode.setTarget_others, target, linked.1] at relink
  refine ⟨relinked, ?_⟩
  rw [userBuffer_link opened.2 linked.2, linked.1, update_idem]
  exact relink

theorem round_drawn_le {room : RecipeStore × RecipeBuffer} {recipes : RecipeStore}
    {own recipe : RecipeBuffer} (made : recipes.makeRoom stray own file = .ok room)
    {done : RecipeStore}
    (finished : RecipeStore.finishFile stray
      (room.1.placeRound generateHash stray room.2 name userID file).1
      (room.1.placeRound generateHash stray room.2 name userID file).2 file =
      .ok (done, recipe)) :
    room.1.globalRecipeFileName = done.globalRecipeFileName ∧
      recipes.globalRecipeFileName.drawn ≤ done.globalRecipeFileName.drawn := by
  have kept := Bookkeeping.finishFile_global finished
  rw [Bookkeeping.placeRound_global] at kept
  refine ⟨kept.symm, ?_⟩
  rw [kept]
  exact makeRoom_drawn_le made

section Calls

variable {intraUserDupStatList : Nat → Bool} {shareDataBuffer : Buffer Byte}
variable {expired : PerUserBufferNode → Bool}

/-- The link still has one node for each user, and the buffers of other users were there
before the call. -/
theorem secondStageDedup_nodes
    (distinct : (core.bufferNodes.map PerUserBufferNode.userID).Nodup)
    (returned : core.secondStageDedup generateHash stray userID [file] intraUserDupStatList
      shareDataBuffer expired = .ok next) :
    (next.bufferNodes.map PerUserBufferNode.userID).Nodup ∧
      core.recipes.globalRecipeFileName.drawn ≤ next.recipes.globalRecipeFileName.drawn ∧
      ∀ other own, other ≠ userID → userBuffer next.bufferNodes other = some own →
        userBuffer core.bufferNodes other = some own := by
  have linked := findOrCreateBufferNode_distinct generateHash stray distinct userID expired
  have before := findOrCreateBufferNode_drawn_le generateHash stray core userID expired
  rcases secondStageDedup_ok returned with ⟨name, room, cursor, _, made, finished, own, rfl⟩
  rcases closeCursor_nodes linked own with ⟨relinked, buffers⟩
  refine ⟨relinked, Nat.le_trans before (round_drawn_le made finished).2, ?_⟩
  intro other own foreign here
  rw [buffers, update_of_ne foreign] at here
  exact userBuffer_findOrCreateBufferNode distinct foreign here

theorem secondStageDedup_round
    (distinct : (core.bufferNodes.map PerUserBufferNode.userID).Nodup)
    (books : Bookkeeping generateHash files owner core.recipes
      (userBuffer core.bufferNodes) history)
    (apart : Bookkeeping.KeysApart generateHash files)
    (formatted : formatFullFileName file.fullName = some name)
    (member : (name, userID) ∈ files) (valid : ValidRound (history userID) name file)
    (well : core.recipes.EndsWell generateHash stray (userBuffer core.bufferNodes userID)
      name userID file)
    (returned : core.secondStageDedup generateHash stray userID [file] intraUserDupStatList
      shareDataBuffer expired = .ok next)
    (left : next.recipes.globalRecipeFileName.drawn < 26 ^ fileNameValidLen) :
    let extended := extendUpload (history userID) name (roundEntries file)
    ∃ owner', Bookkeeping generateHash files owner' next.recipes
        (userBuffer next.bufferNodes) (update history userID extended) ∧
      (∀ inodeFP, inodeFP ≠ inodeKey generateHash userID name →
        newestVersion next.recipes.inodeIndex inodeFP =
          newestVersion core.recipes.inodeIndex inodeFP) ∧
      ∀ last place, inProgress extended = some last →
        newestVersion next.recipes.inodeIndex (inodeKey generateHash userID name) =
          some place →
        (RecipeStore.EndsHere file ∨ file.numOfPastSecrets = 0 ∨
          ∃ own ∈ userBuffer core.bufferNodes userID, ¬RecipeStore.Overflows own file ∧
            ∃ offset, newestVersion core.recipes.inodeIndex
              (inodeKey generateHash userID name) = some ⟨own.recipeFileName, offset⟩) →
        Whole (inodeKey generateHash userID) next.recipes (userBuffer next.bufferNodes userID)
          last place := by
  have linked := findOrCreateBufferNode_distinct generateHash stray distinct userID expired
  have opens : _ → Opened generateHash files history userID core
      (core.findOrCreateBufferNode generateHash stray userID expired) :=
    findOrCreateBufferNode_opened distinct books userID expired
  rcases secondStageDedup_ok returned with
    ⟨name', room, cursor, named, made, finished, own, rfl⟩
  generalize core.findOrCreateBufferNode generateHash stray userID expired = opened
    at linked opens made own left ⊢
  cases formatted.symm.trans named
  have state := opens (Nat.lt_of_le_of_lt (round_drawn_le made finished).2 left)
  rcases state.books with ⟨owner, books⟩
  have buffered : userBuffer opened.2.link userID = some opened.2.target.recipe := by
    rw [userBuffer_link opened.2 linked.2, linked.1, update_self]
  rw [(closeCursor_nodes linked own).2, update_self, ← state.index]
  rcases books.round buffered apart member valid (state.endsWell valid made well) made
    finished left with ⟨owner', done, index, whole⟩
  refine ⟨owner', done, index, fun last place current newest found => ?_⟩
  apply whole last place current newest
  refine found.imp_right fun found => found.imp_right ?_
  rintro ⟨buffer, here, fits⟩
  rcases state.buffer with same | ⟨absent, _⟩
  · cases same.symm.trans here
    exact fits
  · cases absent.symm.trans here

private theorem secondStageDedup_inOrder (inOrder : core.InOrder generateHash files history)
    (apart : Bookkeeping.KeysApart generateHash files)
    (formatted : formatFullFileName file.fullName = some name)
    (member : (name, userID) ∈ files) (valid : ValidRound (history userID) name file)
    (well : core.recipes.EndsWell generateHash stray (userBuffer core.bufferNodes userID)
      name userID file)
    (returned : core.secondStageDedup generateHash stray userID [file] intraUserDupStatList
      shareDataBuffer expired = .ok next) :
    next.InOrder generateHash files
      (update history userID (recordRound (history userID) name file)) := by
  rcases secondStageDedup_nodes inOrder.1 returned with ⟨distinct, drawn, _⟩
  refine ⟨distinct, fun left => ?_⟩
  rcases inOrder.2 (Nat.lt_of_le_of_lt drawn left) with ⟨owner, books⟩
  rcases secondStageDedup_round inOrder.1 books apart formatted member valid well returned left
    with ⟨owner', kept, _, whole⟩
  refine ⟨owner', ?_⟩
  rw [recordRound]
  split
  next ends =>
    have current := inProgress_extendUpload (history userID) name (roundEntries file)
    have now := current
    rw [← update_self userID (extendUpload _ _ _) history] at now
    rcases (kept.users userID).placed name (uploaded_of_inProgress now) with
      ⟨place, newest, _⟩
    have settled := kept.settle now newest (whole _ place current newest (.inl ends))
    rw [update_self, update_idem] at settled
    exact settled
  next => exact kept

end Calls

/-! ## Runs -/

/-- What is recorded of a run: which rounds may come, and what they add. -/
structure Records (H : Type) where
  valid : H → Int → List Byte → FileShareMD → Prop
  add : H → Int → List Byte → FileShareMD → H

/-- One call in a run in which users upload files: a first stage, or a valid round of a file
for which the second stage returns 1. The rounds meet `guard`. -/
inductive RecordedStep {H : Type} (records : Records H)
    (generateHash : List Byte → Fingerprint) (stray : List RecipeCell → FileRecipeHead)
    (files : Set (List Byte × Int)) (guard : DedupCore → List Byte → Int → FileShareMD → Prop) :
    DedupCore × H → DedupCore × H → Prop
  | firstStage (core history userID package) :
      RecordedStep records generateHash stray files guard (core, history)
        ((core.firstStageDedup userID package).1, history)
  | round {core next history userID file name intraUserDupStatList shareDataBuffer expired} :
      formatFullFileName file.fullName = some name → (name, userID) ∈ files →
      records.valid history userID name file →
      guard core name userID file →
      core.secondStageDedup generateHash stray userID [file] intraUserDupStatList
        shareDataBuffer expired = .ok next →
      RecordedStep records generateHash stray files guard (core, history)
        (next, records.add history userID name file)

def uploads : Records (Int → List Upload) where
  valid := fun history userID name file => ValidRound (history userID) name file
  add := fun history userID name file =>
    update history userID (recordRound (history userID) name file)

/-- The rounds of a user come one file after another. -/
abbrev UploadStep := RecordedStep uploads

/-- If the round is the last of its file, the recipe file holds nothing of the file, or
more shares than the round brings. -/
def EndsWell (generateHash : List Byte → Fingerprint)
    (stray : List RecipeCell → FileRecipeHead) (core : DedupCore) (name : List Byte)
    (userID : Int) (file : FileShareMD) : Prop :=
  core.recipes.EndsWell generateHash stray (userBuffer core.bufferNodes userID) name userID
    file

instance (generateHash : List Byte → Fingerprint)
    (stray : List RecipeCell → FileRecipeHead) (core : DedupCore) (name : List Byte)
    (userID : Int) (file : FileShareMD) :
    Decidable (core.EndsWell generateHash stray name userID file) :=
  inferInstanceAs (Decidable (core.recipes.EndsWell _ _ _ _ _ _))

theorem inOrder_empty (generateHash : List Byte → Fingerprint)
    (files : Set (List Byte × Int)) :
    empty.InOrder generateHash files fun _ => [] := by
  refine ⟨List.nodup_nil, fun _ => ⟨fun _ => 0, ?_, ?_, ?_, ?_⟩⟩
  · intro userID
    exact
      { placed := fun _ uploaded => absurd rfl uploaded
        settled := fun _ _ _ found => nomatch found
        bufferOwned := fun _ member => nomatch member
        idle := fun _ _ member => nomatch member
        progress := fun _ member => nomatch member
        apart := fun _ member => nomatch member }
  · exact fun _ _ uploaded => absurd rfl uploaded
  · exact fun _ filed => absurd rfl filed
  · intro inodeFP value found
    cases found

private theorem inOrder_of_reachable (apart : Bookkeeping.KeysApart generateHash files)
    {state : DedupCore × (Int → List Upload)}
    (reachable : ReflTransGen
      (UploadStep generateHash stray files (EndsWell generateHash stray))
      (empty, fun _ => []) state) :
    state.1.InOrder generateHash files state.2 := by
  induction reachable with
  | refl => exact inOrder_empty generateHash files
  | tail _ step induction =>
      cases step with
      | firstStage core history userID package => exact induction
      | round formatted member valid well returned =>
          exact secondStageDedup_inOrder induction apart formatted member valid well returned

/-! ## Reading back -/

private theorem readRecipeFile_eq_some {core : DedupCore} {userID : Int}
    {recipeFileName : InternalFileName} {cells : List RecipeCell}
    (content : recipeContent core.recipes (userBuffer core.bufferNodes userID)
      recipeFileName = cells) (nonempty : cells ≠ []) :
    core.readRecipeFile userID recipeFileName = some cells := by
  have filed : core.recipes.fileCells recipeFileName = cells →
      (core.recipes.recipeFiles recipeFileName).filter (· ≠ []) = some cells := by
    intro same
    rw [RecipeStore.fileCells] at same
    cases file : core.recipes.recipeFiles recipeFileName with
    | none =>
        rw [file, Option.getD_none] at same
        exact absurd same.symm nonempty
    | some stored =>
        rw [file, Option.getD_some] at same
        rw [same]
        simp [nonempty]
  rw [readRecipeFile, readRecipeFileFromBuffer]
  rw [userBuffer] at content
  cases found : core.bufferNodes.find? fun node => node.userID == userID with
  | none =>
      rw [found] at content
      exact filed content
  | some node =>
      rw [found] at content
      by_cases own : node.recipe.recipeFileName = recipeFileName
      · rw [← own, Option.map_some, recipeContent_own] at content
        simp [own, content]
      · rw [Option.map_some, recipeContent_of_ne own] at content
        simp only [Option.bind_some, if_neg own, Option.none_or]
        exact filed content

theorem restoreRecipe_of_holds {core : DedupCore} {userID : Int} {fullFileName name : List Byte}
    {place : InodeFileEntry} {entries : List FileRecipeEntry}
    (formatted : formatFullFileName fullFileName = some name)
    (counted : InodeIndex.Counted core.recipes.inodeIndex)
    (newest : newestVersion core.recipes.inodeIndex (inodeKey generateHash userID name) =
      some place)
    (holds : HoldsRecipe (recipeContent core.recipes (userBuffer core.bufferNodes userID)
      place.recipeFileName) place.recipeFileOffset entries) :
    ∃ head, core.restoreRecipe generateHash stray userID fullFileName 0 =
      some (head, entries) ∧ head.numOfShares = entries.length := by
  rcases Option.bind_eq_some_iff.mp newest with ⟨value, found, version⟩
  have file := readRecipeFile_eq_some rfl holds.nonempty
  rcases holds with ⟨head, rest, located, count⟩
  refine ⟨head, restoreRecipe_eq_some_iff.mpr ⟨name, value, place, formatted, found,
    counted _ value found, version, ?_⟩, count⟩
  have entriesAt : (recipeContent core.recipes (userBuffer core.bufferNodes userID)
      place.recipeFileName).drop (place.recipeFileOffset + fileRecipeHeadSize) =
      entriesCells entries ++ rest := by
    rw [← List.drop_drop, located, ← headCells_length head, List.drop_left]
  rw [readRecipe, file, Option.bind_some]
  simp only [readRecipeHead_of_drop located, entriesAt, count, Int.toNat_natCast,
    readRecipeEntries_entriesCells, Option.map_some]

end DedupCore

/-! ## Sample runs -/

section Samples

open DedupCore (Records RecordedStep)

def sampleFiles : Set (List Byte × Int) := {([47, 102], 1), ([47, 103], 2)}

theorem keysApart_pair {first second : List Byte × Int}
    (differ : inodeKey paddingHash first.2 first.1 ≠ inodeKey paddingHash second.2 second.1) :
    Bookkeeping.KeysApart paddingHash {first, second} :=
  Set.injOn_pair.mpr fun equal => absurd equal differ

variable {H : Type} (records : Records H)

def sendOneShare (state : DedupCore × H) (userID : Int) (round : FileShareMD) (byte : Byte)
    (expired : Bool) : DedupCore × H :=
  (Loop.outcome (state.1.secondStageDedup paddingHash blankHead userID [round]
      (fun _ => false) (fun _ => byte) fun _ => expired),
    records.add state.2 userID round.fullName round)

variable {records}

theorem sendOneShare_step {files : Set (List Byte × Int)}
    {guard : DedupCore → List Byte → Int → FileShareMD → Prop} {state : DedupCore × H}
    {userID : Int} {round : FileShareMD} {byte : Byte} {expired : Bool}
    (member : (round.fullName, userID) ∈ files)
    (valid : records.valid state.2 userID round.fullName round)
    (meets : guard state.1 round.fullName userID round)
    (returns : formatFullFileName round.fullName = some round.fullName ∧
      (state.1.secondStageDedup paddingHash blankHead userID [round]
        (fun _ => false) (fun _ => byte) fun _ => expired).isOk = true) :
    RecordedStep records paddingHash blankHead files guard state
      (sendOneShare records state userID round byte expired) :=
  .round returns.1 member valid meets (Loop.eq_ok_outcome returns.2)

end Samples

def uploadOneShare := sendOneShare DedupCore.uploads

def begunUpload (fileSize : Int) : DedupCore × (Int → List Upload) :=
  uploadOneShare (.empty, fun _ => []) 1 (oneShareRound [47, 102] 0 0 fileSize 7) 7 false

/-- A call of user 2 finds the node of user 1 expired. -/
def expiredUpload (state : DedupCore × (Int → List Upload)) :
    DedupCore × (Int → List Upload) :=
  uploadOneShare state 2 (oneShareRound [47, 103] 0 0 1 6) 6 true

/-- In every run in which the last rounds end well, the recipe of a finished upload is
read back with all its entries. -/
theorem recipes_complete {generateHash : List Byte → Fingerprint}
    {stray : List RecipeCell → FileRecipeHead} {files : Set (List Byte × Int)}
    (apart : Bookkeeping.KeysApart generateHash files) {core : DedupCore}
    {history : Int → List Upload}
    (reachable : ReflTransGen
      (DedupCore.UploadStep generateHash stray files (DedupCore.EndsWell generateHash stray))
      (.empty, fun _ => []) (core, history))
    (left : core.recipes.globalRecipeFileName.drawn < 26 ^ fileNameValidLen)
    {userID : Int} {fullFileName name : List Byte} {upload : Upload}
    (formatted : formatFullFileName fullFileName = some name)
    (newest : newestUpload (history userID) name = some upload)
    (complete : upload.complete = true) :
    ∃ head, core.restoreRecipe generateHash stray userID fullFileName 0 =
      some (head, upload.entries) ∧ head.numOfShares = upload.entries.length := by
  rcases (DedupCore.inOrder_of_reachable apart reachable).2 left with ⟨owner, books⟩
  have user := books.users userID
  rcases user.placed name (by rw [newest]; exact Option.some_ne_none _) with
    ⟨place, recorded, _⟩
  refine DedupCore.restoreRecipe_of_holds formatted books.counted recorded
    (user.settled name upload place newest ?_ recorded)
  intro last current named
  have same := newestUpload_inProgress current
  rw [named, newest, Option.some.injEq] at same
  rw [same, (inProgress_some current).2] at complete
  cases complete

def continuedUpload : DedupCore × (Int → List Upload) :=
  uploadOneShare (begunUpload 3) 1 (oneShareRound [47, 102] 1 1 3 8) 8 false

/-- Two of three shares lie in the recipe file when the last one comes. -/
def appendedUpload : DedupCore × (Int → List Upload) :=
  uploadOneShare (expiredUpload continuedUpload) 1 (oneShareRound [47, 102] 2 2 3 9) 9 false

theorem recipes_complete_sample :
    ∃ head, appendedUpload.1.restoreRecipe paddingHash blankHead 1 [102] 0 =
      some (head, [⟨paddingHash [7], 0, 1⟩, ⟨paddingHash [8], 0, 1⟩,
        ⟨paddingHash [9], 0, 1⟩]) ∧ head.numOfShares = 3 := by
  have first : DedupCore.UploadStep paddingHash blankHead sampleFiles
      (DedupCore.EndsWell paddingHash blankHead) _ (begunUpload 3) :=
    sendOneShare_step (.inl rfl) (And.intro rfl rfl) (by decide +kernel)
      (by decide +kernel)
  have second : DedupCore.UploadStep paddingHash blankHead sampleFiles
      (DedupCore.EndsWell paddingHash blankHead) (begunUpload 3) continuedUpload :=
    sendOneShare_step (.inl rfl) (And.intro rfl (And.intro rfl rfl)) (by decide +kernel)
      (by decide +kernel)
  have third : DedupCore.UploadStep paddingHash blankHead sampleFiles
      (DedupCore.EndsWell paddingHash blankHead) continuedUpload
      (expiredUpload continuedUpload) :=
    sendOneShare_step (.inr rfl) (And.intro rfl rfl) (by decide +kernel)
      (by decide +kernel)
  have last : DedupCore.UploadStep paddingHash blankHead sampleFiles
      (DedupCore.EndsWell paddingHash blankHead) (expiredUpload continuedUpload)
      appendedUpload :=
    sendOneShare_step (.inl rfl) (And.intro rfl (And.intro rfl rfl)) (by decide +kernel)
      (by decide +kernel)
  let upload : Upload := ⟨[47, 102],
    [⟨paddingHash [7], 0, 1⟩, ⟨paddingHash [8], 0, 1⟩, ⟨paddingHash [9], 0, 1⟩], true⟩
  have newest : newestUpload (appendedUpload.2 1) [47, 102] = some upload := rfl
  have formatted : formatFullFileName [102] = some [47, 102] := by decide
  have reachable : ReflTransGen (DedupCore.UploadStep paddingHash blankHead
      sampleFiles (DedupCore.EndsWell paddingHash blankHead)) (.empty, fun _ => [])
      (appendedUpload.1, appendedUpload.2) :=
    (((ReflTransGen.single first).tail second).tail third).tail last
  exact recipes_complete (keysApart_pair (by decide)) reachable (by decide +kernel) formatted
    newest rfl

/-- One of two shares lies in the recipe file when the last one comes. -/
def truncatedUpload : DedupCore × (Int → List Upload) :=
  uploadOneShare (expiredUpload (begunUpload 2)) 1 (oneShareRound [47, 102] 1 1 2 9) 9 false

/-- The last share of the file is not appended to its recipe, which goes on counting
one share. -/
theorem recipe_truncated :
    ∃ core history upload head entries,
      ReflTransGen
        (DedupCore.UploadStep paddingHash blankHead sampleFiles fun _ _ _ _ => True)
        (.empty, fun _ => []) (core, history) ∧
      core.recipes.globalRecipeFileName.drawn < 26 ^ fileNameValidLen ∧
      newestUpload (history 1) [47, 102] = some upload ∧ upload.complete = true ∧
      core.restoreRecipe paddingHash blankHead 1 [47, 102] 0 = some (head, entries) ∧
      upload.entries.length = 2 ∧ head.numOfShares = 1 ∧ entries ≠ upload.entries := by
  have first : DedupCore.UploadStep paddingHash blankHead sampleFiles
      (fun _ _ _ _ => True) _ (begunUpload 2) :=
    sendOneShare_step (.inl rfl) (And.intro rfl rfl) trivial (by decide +kernel)
  have second : DedupCore.UploadStep paddingHash blankHead sampleFiles
      (fun _ _ _ _ => True) (begunUpload 2) (expiredUpload (begunUpload 2)) :=
    sendOneShare_step (.inr rfl) (And.intro rfl rfl) trivial (by decide +kernel)
  have last : DedupCore.UploadStep paddingHash blankHead sampleFiles
      (fun _ _ _ _ => True) (expiredUpload (begunUpload 2)) truncatedUpload :=
    sendOneShare_step (.inl rfl) (And.intro rfl (And.intro rfl rfl)) trivial
      (by decide +kernel)
  let upload : Upload :=
    ⟨[47, 102], [⟨paddingHash [7], 0, 1⟩, ⟨paddingHash [9], 0, 1⟩], true⟩
  have newest : newestUpload (truncatedUpload.2 1) [47, 102] = some upload := rfl
  have read : truncatedUpload.1.restoreRecipe paddingHash blankHead 1 [47, 102] 0 =
      some (⟨1, 2, 1⟩, [⟨paddingHash [7], 0, 1⟩]) := by
    decide +kernel
  exact ⟨_, _, upload, _, _, ((ReflTransGen.single first).tail second).tail last,
    by decide +kernel, newest, rfl, read, rfl, rfl, by decide⟩

end MetaDedup.Server
