import MetaDedup.Client.ShareDownload
import MetaDedup.Download.RecipeSessions
import MetaDedup.Server.RecipeWindow

/-! # A restored file on its way to the client

Both cores send a restored file as a sequence of messages, each with its length in front.
A download thread of the client takes the head and the shares out of them again. It has
room for shares up to the size of the data array of an item. -/

namespace MetaDedup.Download

open Foundation Wire Server Downloader

/-- The messages of a restored file, and what the download threads make of them. The bytes
that follow the last message are not touched. -/
structure RoundTrip (sent : List (List Byte)) (head : ShareFileHead)
    (items : List ShareItem) : Prop where
  whole : ∃ padding first, ∃ packets : List (List ShareItem),
    padding.length = headPaddingSize ∧
    sent = ((head.bytes padding ++ itemBytes first) :: packets.map itemBytes).map frame ∧
    first ++ packets.flatten = items
  bounded : ∀ message ∈ sent, ∃ payload, message = frame payload ∧
    payload.length ≤ downloadBufferSize
  data : (∀ item ∈ items, item.data.length ≤ ringBufferDataSize) →
    ∀ downloadContainer rest,
      threadHandler downloadContainer (sent.flatten ++ rest) = .ok (head, items, rest)
  metadata : (∀ item ∈ items, item.data.length ≤ ringBufferMetaSize) →
    ∀ downloadContainer rest,
      threadHandlerMeta downloadContainer (sent.flatten ++ rest) = .ok (head, items, rest)

def recipeItems (entries : List FileRecipeEntry) (shares : List (List Byte)) :
    List ShareItem :=
  List.zipWith FileRecipeEntry.item entries shares

private theorem forall_recipeItems {property : ShareItem → Prop} {entries : List FileRecipeEntry}
    {shares : List (List Byte)}
    (holds : ∀ entry, ∀ share ∈ shares, property (FileRecipeEntry.item entry share)) :
    ∀ item ∈ recipeItems entries shares, property item := by
  induction entries generalizing shares with
  | nil =>
      intro item member
      cases member
  | cons entry entries induction =>
      cases shares with
      | nil =>
          intro item member
          cases member
      | cons share shares =>
          intro item member
          rcases List.mem_cons.mp member with same | later
          · rw [same]
            exact holds entry share List.mem_cons_self
          · exact induction (fun other data present => holds other data
              (List.mem_cons_of_mem _ present)) item later

theorem sized_item {share : List Byte}
    (small : shareEntrySize + share.length ≤ shareFileBufferSize) (entry : FileRecipeEntry) :
    DownloadThread.Sized (entry.item share) := by
  rw [shareEntrySize, shareFileBufferSize] at small
  have bound : share.length < 2 ^ 32 := by omega
  rw [DownloadThread.Sized, FileRecipeEntry.item, BitVec.ofInt_natCast, BitVec.toNat_ofNat,
    Nat.mod_eq_of_lt bound]

/-- The messages of a recipe whose shares can be read and fit into messages. -/
theorem restoreShares_roundTrip {store : ShareStore} {buffers : List ShareContainerBuffer}
    {socket : Nat → Bool} (stale : Buffer Byte) {entries : List FileRecipeEntry}
    {shares : List (List Byte)}
    (restorable : List.Forall₂ (Restorable store buffers) entries shares)
    (succeeds : ∀ call, socket call = true) (shareFileBuffer : Buffer Byte)
    {head : FileRecipeHead} (count : head.numOfShares = entries.length)
    (countSmall : entries.length < 2 ^ 31) (nonempty : entries ≠ [])
    (small : ∀ share ∈ shares, shareEntrySize + share.length ≤ shareFileBufferSize) :
    ∃ final, store.restoreShares buffers socket stale shareFileBuffer head entries =
        .ok final ∧
      RoundTrip final.stream.sent head.shareFileHead (recipeItems entries shares) := by
  rcases restoreShares_of_restorable stale restorable succeeds shareFileBuffer head with
    ⟨final, padding, padded, returns, messages⟩
  let packed := Packets.pack shareFileBufferSize (fun item => item.bytes.length)
    shareFileHeadSize (recipeItems entries shares)
  have sent : final.stream.sent = ((head.shareFileHead.bytes padding ++
      itemBytes packed.1) :: packed.2.map itemBytes).map frame := messages
  have flat : packed.1 ++ packed.2.flatten = recipeItems entries shares :=
    Packets.pack_flatten _ _
  have filled : ∀ packet ∈ packed.2, packet ≠ [] := Packets.pack_ne_nil _ _
  have fits : ∀ item ∈ recipeItems entries shares,
      item.bytes.length ≤ shareFileBufferSize := by
    apply forall_recipeItems
    intro entry share member
    rw [ShareItem.bytes_length]
    exact small share member
  have headFits : shareFileHeadSize ≤ shareFileBufferSize := by decide
  rcases Packets.pack_bounded headFits fits with ⟨firstFits, laterFit⟩
  have first : (head.shareFileHead.bytes padding ++ itemBytes packed.1).length ≤
      downloadBufferSize := by
    rw [List.length_append, ShareFileHead.bytes_length _ padded, itemBytes_length]
    exact firstFits
  have later : ∀ packet ∈ packed.2, (itemBytes packet).length ≤ downloadBufferSize := by
    intro packet member
    rw [itemBytes_length]
    exact laterFit packet member
  have sized : ∀ item ∈ recipeItems entries shares, DownloadThread.Sized item :=
    forall_recipeItems fun entry share member => sized_item (small share member) entry
  have length : (recipeItems entries shares).length = entries.length := by
    rw [recipeItems, List.length_zipWith, restorable.length_eq, Nat.min_self]
  have announced : head.shareFileHead.numOfShares.toInt =
      (recipeItems entries shares).length := by
    rw [length, FileRecipeHead.shareFileHead, count, BitVec.ofInt_natCast,
      BitVec.toInt_ofNat', Int.bmod_eq_of_le] <;> omega
  have something : recipeItems entries shares ≠ [] := by
    rw [← List.length_pos_iff, length]
    exact List.length_pos_iff.mpr nonempty
  have received : ∀ capacity, (∀ item ∈ recipeItems entries shares,
      item.data.length ≤ capacity) → ∀ downloadContainer rest,
        DownloadThread.handle capacity downloadContainer
          (final.stream.sent.flatten ++ rest) =
            .ok (head.shareFileHead, recipeItems entries shares, rest) := by
    intro capacity holds downloadContainer rest
    rw [← flat] at sized holds announced something
    rw [sent, DownloadThread.handle_packets padded rest first later filled sized holds
      announced something, flat]
  refine ⟨final, returns, ⟨padding, packed.1, packed.2, padded, sent, flat⟩, ?_,
    received _, received _⟩
  intro message member
  rw [sent] at member
  rcases List.mem_map.mp member with ⟨payload, listed, framed⟩
  refine ⟨payload, framed.symm, ?_⟩
  rcases List.mem_cons.mp listed with same | inLater
  · rw [same]
    exact first
  · rcases List.mem_map.mp inLater with ⟨packet, packetMember, same⟩
    rw [← same]
    exact later packet packetMember

/-- A recipe of a file that is sent by one of the cores arrives as it was. -/
theorem restore_stream_round_trip (generateHash : List Byte → Fingerprint)
    (stray : List RecipeCell → FileRecipeHead)
    (strayEntry : List RecipeCell → FileRecipeEntry) (socket : Nat → Bool)
    (succeeds : ∀ call, socket call = true) (memory : RestoreMemory) (userID : Int)
    (shares : List (List Byte))
    (small : ∀ share ∈ shares, shareEntrySize + share.length ≤ shareFileBufferSize) :
    (∀ (core : MinDedupCore) (removes : List Byte → List Byte → Bool)
      (recipeFiles : RecipeFiles) (name rest : List Byte) (recipe : RetrievedRecipeFile),
      recipeFiles name = some (recipe.bytes ++ rest) → recipe.entries ≠ [] →
      List.Forall₂ (Restorable core.store core.bufferNodes) recipe.entries shares →
      let result := core.restoreShareFile socket memory removes recipeFiles userID name
      result.returns = true ∧ RoundTrip result.sent recipe.head.shareFileHead
        (recipeItems recipe.entries shares)) ∧
    (∀ (core : DedupCore) (fullFileName : List Byte) (age : Nat) (place : InodeFileEntry)
      (head : FileRecipeHead) (entries : List FileRecipeEntry),
      core.findRecipe generateHash userID fullFileName age = some place →
      core.StoresRecipe userID place head entries → entries ≠ [] →
      entries.length < 2 ^ 31 →
      List.Forall₂ (Restorable core.shares core.containers) entries shares →
      let result := core.restoreShareFile generateHash stray strayEntry socket memory
        userID fullFileName age
      result.1 = true ∧ RoundTrip result.2 head.shareFileHead
        (recipeItems entries shares)) := by
  constructor
  · intro core removes recipeFiles name rest recipe present nonempty restorable
    have length : recipe.entries.length = recipe.records.length := List.length_map _
    have countSmall : recipe.entries.length < 2 ^ 31 := by
      have uploadSize := recipe.uploadSize_small
      rw [fileRecipeEntrySize, fileRecipeHeadSize] at uploadSize
      omega
    have count : recipe.head.numOfShares = recipe.entries.length :=
      congrArg Nat.cast length.symm
    rcases restoreShares_roundTrip memory.shareContainerCache restorable succeeds
      memory.shareFileBuffer count countSmall nonempty small with
      ⟨final, returns, roundTrip⟩
    rw [MinDedupCore.restoreShareFile_of_recipe core socket memory removes present userID,
      returns]
    exact ⟨rfl, roundTrip⟩
  · intro core fullFileName age place head entries found stores nonempty countSmall
      restorable
    rcases restoreShares_roundTrip memory.shareContainerCache restorable succeeds
      memory.shareFileBuffer stores.count countSmall nonempty small with
      ⟨final, returns, roundTrip⟩
    rw [DedupCore.restoreShareFile_of_stores socket memory found stores, returns]
    exact ⟨rfl, roundTrip⟩

def recipeFilesOf (recipe : RetrievedRecipeFile) : RecipeFiles := fun _ => some recipe.bytes

theorem recipeFilesOf_present (recipe : RetrievedRecipeFile) (name : List Byte) :
    recipeFilesOf recipe name = some (recipe.bytes ++ []) := by
  rw [List.append_nil]
  rfl

def oneFileCore : DedupCore where
  shares := twoShareCore.store
  recipes :=
    { inodeIndex := fun _ =>
        some ⟨1, .file, 1, [114], [.file ⟨.first, 0⟩]⟩
      recipeFiles := fun _ =>
        some (headCells twoShareRecipe.head ++ entriesCells twoShareRecipe.entries)
      globalRecipeFileName := .initial }
  bufferNodes := []

private theorem oneFileCore_stores :
    oneFileCore.StoresRecipe 1 ⟨.first, 0⟩ twoShareRecipe.head
      twoShareRecipe.entries where
  cells := ⟨_, [], rfl, by rw [List.append_nil]; rfl⟩
  count := rfl
  headInside := by decide
  bufferInside := fun _ buffered => nomatch buffered

/-- A recipe of two shares that is sent by each of the cores. -/
theorem restore_stream_round_trip_twoShares :
    RoundTrip
      (twoShareCore.restoreShareFile (fun _ => true) clearedRestoreMemory removesNamed
        (recipeFilesOf twoShareRecipe) 1 [114]).sent
      twoShareRecipe.head.shareFileHead (recipeItems twoShareRecipe.entries [[7], [9]]) ∧
    RoundTrip
      (oneFileCore.restoreShareFile (fun _ => ⟨_, zeros_size⟩) (fun _ => ⟨0, 0, 0⟩)
        (fun _ => ⟨⟨_, zeros_size⟩, 0, 0⟩) (fun _ => true) clearedRestoreMemory 1 [114] 0).2
      twoShareRecipe.head.shareFileHead (recipeItems twoShareRecipe.entries [[7], [9]]) := by
  have both := restore_stream_round_trip (fun _ => ⟨_, zeros_size⟩) (fun _ => ⟨0, 0, 0⟩)
    (fun _ => ⟨⟨_, zeros_size⟩, 0, 0⟩) (fun _ => true)
    (fun _ => rfl) clearedRestoreMemory 1 [[7], [9]] (by decide)
  have restorable : List.Forall₂ (Restorable twoShareCore.store twoShareCore.bufferNodes)
      twoShareRecipe.entries [[7], [9]] :=
    .cons ⟨byteShareValue 0, [7, 9], rfl, rfl, rfl⟩
      (.cons ⟨byteShareValue 1, [7, 9], rfl, rfl, rfl⟩ .nil)
  constructor
  · exact (both.1 twoShareCore removesNamed (recipeFilesOf twoShareRecipe) [114] []
      twoShareRecipe (recipeFilesOf_present _ _) (List.cons_ne_nil _ _) restorable).2
  · exact (both.2 oneFileCore [114] 0 _ _ _ rfl oneFileCore_stores (List.cons_ne_nil _ _)
      (by decide) restorable).2

/-! ## A share that is larger than an item -/

def largeShare : List Byte := List.replicate (ringBufferDataSize + 1) 0

def largeItem : ShareItem :=
  (RecipeRecord.entry
    ⟨⟨List.replicate fpSize 0, zeros_size⟩, 7, 100⟩).item largeShare

def largeShareCore : MinDedupCore where
  store :=
    { shareIndex := fun _ =>
        some { byteShareValue 0 with shareSize := ringBufferDataSize + 1 }
      shareContainers := fun _ => some largeShare
      globalShareContainerName := .initial }
  bufferNodes := []

private theorem largeShare_restorable :
    List.Forall₂ (Restorable largeShareCore.store largeShareCore.bufferNodes)
      oneShareRecipe.entries [largeShare] := by
  refine .cons ⟨_, largeShare, rfl, rfl, ?_⟩ .nil
  rw [region_eq_some_iff]
  constructor
  · simp [largeShare, byteShareValue]
  · simp [largeShare, byteShareValue]

/-- A share that fits into a message is larger than the data array of an item, and the
thread writes over the end of the array. -/
theorem restore_stream_overflows :
    let result := largeShareCore.restoreShareFile (fun _ => true) clearedRestoreMemory
      removesNamed (recipeFilesOf oneShareRecipe) 1 [114]
    (∀ share ∈ [largeShare], shareEntrySize + share.length ≤ shareFileBufferSize) ∧
      oneShareRecipe.entries ≠ [] ∧
      List.Forall₂ (Restorable largeShareCore.store largeShareCore.bufferNodes)
        oneShareRecipe.entries [largeShare] ∧
      result.returns = true ∧
      threadHandler (fun _ => 0) result.sent.flatten = .error .overflows := by
  have size : largeShare.length = ringBufferDataSize + 1 := List.length_replicate
  have small : shareEntrySize + largeShare.length ≤ shareFileBufferSize := by
    rw [size]
    decide
  rcases restoreShares_of_restorable clearedRestoreMemory.shareContainerCache
    largeShare_restorable (fun _ => rfl) clearedRestoreMemory.shareFileBuffer
    oneShareRecipe.head with ⟨final, padding, padded, returns, sent⟩
  have restores := MinDedupCore.restoreShareFile_of_recipe largeShareCore (fun _ => true)
    clearedRestoreMemory removesNamed (recipeFilesOf_present oneShareRecipe [114]) 1
  rw [returns] at restores
  refine ⟨?_, List.cons_ne_nil _ _, largeShare_restorable, ?_, ?_⟩
  · intro share member
    rw [List.mem_singleton.mp member]
    exact small
  · rw [restores]
  · have fits : shareFileHeadSize + (largeItem.bytes).length ≤ shareFileBufferSize := by
      rw [ShareItem.bytes_length, largeItem, FileRecipeEntry.item, size]
      decide
    have items : List.zipWith FileRecipeEntry.item oneShareRecipe.entries [largeShare] =
        [largeItem] := rfl
    have packed : Packets.pack shareFileBufferSize
        (fun item : ShareItem => item.bytes.length) shareFileHeadSize [largeItem] =
          ([largeItem], []) := Packets.pack_singleton fits
    have message : final.stream.sent.flatten =
        frame (oneShareRecipe.head.shareFileHead.bytes padding ++ itemBytes [largeItem]) ++
          [] := by
      rw [sent, items, packed]
      rfl
    have nothing : (itemBytes []).length = 0 := rfl
    have first : (oneShareRecipe.head.shareFileHead.bytes padding ++
        itemBytes [largeItem]).length ≤ downloadBufferSize := by
      rw [List.length_append, ShareFileHead.bytes_length _ padded, itemBytes_cons,
        List.length_append, nothing, Nat.add_zero]
      exact fits
    have large : ringBufferDataSize < largeItem.data.length := by
      rw [largeItem, FileRecipeEntry.item, size]
      exact Nat.lt_succ_self _
    rw [restores]
    simp only [message]
    exact DownloadThread.handle_overflows padded [] first (sized_item small _) large
      (by decide) _

end MetaDedup.Download
