import MetaDedup.Client.RecipeRetrieval

/-! # Metadata chunks lead back to the recipe

The chunks cut for a cloud are segments of the shares of the file. Chunk number `index`
has the ID `-(index + 1)` and its key is record number `index` of the key file, so the
downloader finds the key by the ID and recovers the segment. -/

namespace MetaDedup

open Foundation Wire Encoder Downloader
open Server (FileRecipeEntry fpSize)

def recipeEntry (node : MetaNode) : FileRecipeEntry where
  shareFP := node.shareFP
  secretID := node.secretID.toInt
  secretSize := node.secretSize.toInt

def segmentBytes (nodes : List MetaNode) : List Byte := (nodes.map MetaNode.bytes).flatten

theorem segmentBytes_append (nodes : List MetaNode) (node : MetaNode) :
    segmentBytes (nodes ++ [node]) = segmentBytes nodes ++ node.bytes := by
  simp [segmentBytes]

theorem segmentBytes_length (nodes : List MetaNode) :
    (segmentBytes nodes).length = nodes.length * metaNodeSize := by
  induction nodes with
  | nil => simp [segmentBytes]
  | cons node rest induction =>
      rw [segmentBytes] at induction ⊢
      rw [List.map_cons, List.flatten_cons, List.length_append, induction,
        MetaNode.bytes_length, List.length_cons, Nat.succ_mul, Nat.add_comm]

variable {nodes : List MetaNode} {index : Nat}

private theorem slice_of_segmentBytes {data : Buffer Byte}
    (holds : data.slice 0 (nodes.length * metaNodeSize) = segmentBytes nodes)
    (inside : index < nodes.length) :
    data.slice (index * metaNodeSize) metaNodeSize = nodes[index].bytes := by
  induction nodes using List.reverseRecOn with
  | nil => cases inside
  | append_singleton nodes node induction =>
      rw [List.length_append, List.length_singleton, Nat.succ_mul, Buffer.slice_add,
        segmentBytes_append] at holds
      rcases List.append_inj' holds (by simp) with ⟨front, last⟩
      rw [List.length_append, List.length_singleton] at inside
      by_cases final : index = nodes.length
      · subst final
        rw [Nat.zero_add] at last
        rw [List.getElem_concat_length rfl, last]
      · rw [List.getElem_append_left (by omega)]
        exact induction front (by omega)

private theorem recipeEntryAt_of_slice {data : Buffer Byte} {offset : Nat} {node : MetaNode}
    (holds : data.slice offset metaNodeSize = node.bytes) :
    recipeEntryAt data offset = recipeEntry node := by
  rcases MetaNode.slice_bytes holds with ⟨shareFP, secretID, secretSize⟩
  have advanced : (data.advance offset).slice 0 fpSize = node.shareFP.bytes := by
    rw [Buffer.slice_advance, Nat.add_zero, shareFP]
  rw [recipeEntryAt, recipeEntry, readInt_of_slice_word secretID,
    readInt_of_slice_word secretSize]
  have same : fingerprintOf (data.advance offset) = node.shareFP :=
    Server.Fingerprint.eq_of_bytes advanced
  rw [same]

/-! ## What the encoder has cut -/

variable {collector : Collector} {segments : List (List MetaNode)} {pending : List MetaNode}
variable {collection : Collection}

structure Pending (nodes : List MetaNode) (collector : Collector) : Prop where
  counter : collector.metaChunkCounter = nodes.length
  buffer : collector.metaChunkBuffer.slice 0 (nodes.length * metaNodeSize) =
    segmentBytes nodes

theorem Pending.addNode (pending : Pending nodes collector) (node : MetaNode) :
    Pending (nodes ++ [node]) (collector.addNode node) where
  counter := by
    rw [Collector.addNode, List.length_append, List.length_singleton, pending.counter]
  buffer := by
    have written := collector.metaChunkBuffer.slice_write_end (nodes.length * metaNodeSize)
      node.bytes
    rw [MetaNode.bytes_length, pending.buffer, ← segmentBytes_append] at written
    rw [List.length_append, List.length_singleton, Nat.succ_mul, Collector.addNode,
      pending.counter]
    exact written

/-- Chunk number `index` and its key record, for a segment. -/
structure Sealed (crypto : CryptoPrimitive) (index : Nat) (nodes : List MetaNode)
    (chunk : MetaChunk) (record : KeyRecord) : Prop where
  chunkID : chunk.secretID = -(index + 1 : Int)
  recordID : record.secretID = -(index + 1 : Int)
  size : chunk.shareSize = nodes.length * metaNodeSize
  data : chunk.data.slice 0 chunk.shareSize =
    (crypto.cipher (record.key.bytes.take crypto.keySize.toNat) (segmentBytes nodes)).slice 0
      chunk.shareSize

/-- A cipher as the client uses it: keys are hashes of at most 32 bytes, and a record of
a chunk is a whole number of blocks. -/
structure CryptoPrimitive.SealsChunks (crypto : CryptoPrimitive) : Prop where
  keySize : crypto.keySize.toNat ≤ fpSize
  blocks : ∀ count, crypto.WholeBlocks (count * metaNodeSize)

variable {crypto : CryptoPrimitive}

private theorem wholeBlocks_records (blockSize : crypto.blockSize = 16)
    (count : Nat) : crypto.WholeBlocks (count * metaNodeSize) := by
  rw [CryptoPrimitive.WholeBlocks, blockSize, metaNodeSize]
  apply Int.tmod_eq_zero_of_dvd
  exact ⟨count * 4, by omega⟩

theorem OpenSSL.sealsChunks (openssl : OpenSSL) (securetype : SecureType) :
    (openssl.cryptoPrimitive securetype.cryptoType).SealsChunks := by
  cases securetype with
  | high => exact ⟨Nat.le_refl 32, wholeBlocks_records rfl⟩
  | low => exact ⟨show 16 ≤ 32 by decide, wholeBlocks_records rfl⟩

theorem Pending.cutChunk (seals : crypto.SealsChunks) (pending : Pending nodes collector)
    (next : collector.metaChunkID = -(index + 1 : Int)) (memory : StackMemory)
    (isEnd : Bool) :
    Sealed crypto index nodes (collector.cutChunk crypto memory isEnd).1
      (collector.cutChunk crypto memory isEnd).2 where
  chunkID := next
  recordID := next
  size := by
    rw [← pending.counter]
    rfl
  data := by
    have key : (fingerprintOf (collector.chunkKey crypto memory)).bytes.take
        crypto.keySize.toNat =
        (collector.chunkKey crypto memory).slice 0 crypto.keySize.toNat :=
      Buffer.slice_take _ _ seals.keySize
    have encrypted : collector.encryptChunk crypto memory =
        memory.encOutTemp.copy 0 (crypto.cipher
          ((collector.chunkKey crypto memory).slice 0 crypto.keySize.toNat)
          (collector.metaChunkBuffer.slice 0 (collector.metaChunkCounter * metaNodeSize)))
          (collector.metaChunkCounter * metaNodeSize) := by
      rw [Collector.encryptChunk, CryptoPrimitive.encryptWithKey, if_pos (seals.blocks _),
        Option.getD_some]
    change (collector.encryptChunk crypto memory).slice 0
      (collector.metaChunkCounter * metaNodeSize) = (crypto.cipher
        ((fingerprintOf (collector.chunkKey crypto memory)).bytes.take crypto.keySize.toNat)
        _).slice 0 (collector.metaChunkCounter * metaNodeSize)
    rw [key, encrypted, Buffer.slice_copy, pending.counter, pending.buffer]

theorem Pending.reset (collector : Collector) : Pending [] collector.reset := ⟨rfl, rfl⟩

/-- The chunks and the key file of a cloud belong to the segments that have been cut. -/
structure Segmented (crypto : CryptoPrimitive) (segments : List (List MetaNode))
    (pending : List MetaNode) (collection : Collection) : Prop where
  pending : Pending pending collection.collector
  next : collection.collector.metaChunkID = -(segments.length + 1 : Int)
  chunks : collection.chunks.length = segments.length
  keyFile : collection.keyFile.length = segments.length
  cut : ∀ index segment, segments[index]? = some segment → ∃ chunk record,
    collection.chunks[index]? = some chunk ∧ collection.keyFile[index]? = some record ∧
      Sealed crypto index segment chunk record

theorem Segmented.start (crypto : CryptoPrimitive) (metaChunkBuffer : Buffer Byte) :
    Segmented crypto [] [] (.start metaChunkBuffer) where
  pending := ⟨rfl, rfl⟩
  next := rfl
  chunks := rfl
  keyFile := rfl
  cut := by
    intro index segment listed
    cases listed

theorem Segmented.cutChunk (seals : crypto.SealsChunks)
    (segmented : Segmented crypto segments pending collection)
    {added : Collector} (collected : Pending nodes added)
    (same : added.metaChunkID = collection.collector.metaChunkID) (memory : StackMemory)
    (isEnd : Bool) :
    Segmented crypto (segments ++ [nodes]) []
      ⟨added.reset, collection.chunks ++ [(added.cutChunk crypto memory isEnd).1],
        collection.keyFile ++ [(added.cutChunk crypto memory isEnd).2]⟩ where
  pending := .reset added
  next := by
    change added.metaChunkID - 1 = _
    rw [same, segmented.next, List.length_append, List.length_singleton]
    omega
  chunks := by
    rw [List.length_append, List.length_append, segmented.chunks]
    rfl
  keyFile := by
    rw [List.length_append, List.length_append, segmented.keyFile]
    rfl
  cut := by
    intro index segment listed
    by_cases inside : index < segments.length
    · rw [List.getElem?_append_left inside] at listed
      rcases segmented.cut index segment listed with ⟨chunk, record, chunkAt, recordAt, sealed⟩
      refine ⟨chunk, record, ?_, ?_, sealed⟩
      · rw [List.getElem?_append_left (by rw [segmented.chunks]; exact inside), chunkAt]
      · rw [List.getElem?_append_left (by rw [segmented.keyFile]; exact inside), recordAt]
    · have last : index = segments.length := by
        have bound := (List.getElem?_eq_some_iff.mp listed).1
        rw [List.length_append, List.length_singleton] at bound
        omega
      subst last
      rw [List.getElem?_concat_length] at listed
      cases listed
      refine ⟨_, _, ?_, ?_, collected.cutChunk seals (same.trans segmented.next) memory isEnd⟩
      · rw [← segmented.chunks, List.getElem?_concat_length]
      · rw [← segmented.keyFile, List.getElem?_concat_length]

theorem Segmented.add (seals : crypto.SealsChunks)
    (segmented : Segmented crypto segments pending collection)
    (item : DataShare × StackMemory) :
    ∃ segments' pending', Segmented crypto segments' pending' (collection.add crypto item) ∧
      segments'.flatten ++ pending' = segments.flatten ++ pending ++ [item.1.node] ∧
      (item.1.isEnd = true → pending' = []) := by
  have collected := segmented.pending.addNode item.1.node
  cases cuts : (collection.collector.addNode item.1.node).cutsAfter item.1 with
  | true =>
      refine ⟨segments ++ [pending ++ [item.1.node]], [], ?_, ?_, fun _ => rfl⟩
      · rw [Collection.add, Collector.collectShare]
        simp only [cuts, if_true, Option.map_some, Option.toList_some]
        exact segmented.cutChunk seals collected rfl item.2 item.1.isEnd
      · rw [List.flatten_append, List.flatten_singleton, List.append_nil, List.append_assoc]
  | false =>
      refine ⟨segments, pending ++ [item.1.node], ?_, ?_, ?_⟩
      · rw [Collection.add, Collector.collectShare]
        simp only [cuts, Bool.false_eq_true, if_false, Option.map_none, Option.toList_none,
          List.append_nil]
        exact ⟨collected, segmented.next, segmented.chunks, segmented.keyFile, segmented.cut⟩
      · rw [List.append_assoc]
      · intro ends
        rw [Collector.cutsAfter, ends, Bool.or_true] at cuts
        cases cuts

theorem Segmented.addAll (seals : crypto.SealsChunks)
    (segmented : Segmented crypto segments pending collection)
    (items : List (DataShare × StackMemory)) :
    ∃ segments' pending',
      Segmented crypto segments' pending' (collection.addAll crypto items) ∧
      segments'.flatten ++ pending' =
        segments.flatten ++ pending ++ items.map fun item => item.1.node := by
  induction items generalizing segments pending collection with
  | nil => exact ⟨segments, pending, segmented, (List.append_nil _).symm⟩
  | cons item rest induction =>
      rcases segmented.add seals item with ⟨cut, left, next, joined, _⟩
      rcases induction next with ⟨segments', pending', final, all⟩
      refine ⟨segments', pending', final, ?_⟩
      rw [all, joined, List.append_assoc, List.map_cons]
      rfl

/-! ## What the downloader reads -/

variable {keyFile : List KeyRecord} {record : KeyRecord} {chunk : MetaChunk}
variable {inputs : List (MetaItem × ReadMemory)}

/-- A chunk as it reaches the downloader. -/
structure Delivers (chunk : MetaChunk) (input : MetaItem) : Prop where
  secretID : input.secretID = chunk.secretID
  shareSize : input.shareSize = chunk.shareSize
  data : input.data.slice 0 chunk.shareSize = chunk.data.slice 0 chunk.shareSize

private theorem readKeyRecords_succ (listed : keyFile[index]? = some record)
    (keyBuffer : KeyRecord) :
    readKeyRecords keyFile keyBuffer (index + 1) = record := by
  rw [readKeyRecords, List.range_succ, List.foldl_append, List.foldl_cons, List.foldl_nil,
    listed, Option.getD_some]

private theorem decryptChunk_sealed (seals : crypto.SealsChunks)
    (inverts : crypto.Inverts) {input : MetaItem}
    (sealed : Sealed crypto index nodes chunk record) (delivers : Delivers chunk input)
    (listed : keyFile[index]? = some record) (memory : ReadMemory) :
    ∃ data, decryptChunk crypto (some keyFile) memory input = some data ∧
      data.slice 0 (nodes.length * metaNodeSize) = segmentBytes nodes := by
  have id : -input.secretID = (index + 1 : Int) := by
    rw [delivers.secretID, sealed.chunkID, Int.neg_neg]
  have found : readKeyRecords keyFile memory.keyBuffer (-input.secretID).toNat = record := by
    rw [id]
    exact readKeyRecords_succ listed memory.keyBuffer
  have size : input.shareSize = nodes.length * metaNodeSize :=
    delivers.shareSize.trans sealed.size
  have matched : -record.secretID = -input.secretID := by
    rw [sealed.recordID, id, Int.neg_neg]
  have blocks : crypto.WholeBlocks input.shareSize := by
    rw [size]
    exact seals.blocks _
  have key : (keyBytes record.key).slice 0 crypto.keySize.toNat =
      record.key.bytes.take crypto.keySize.toNat :=
    Buffer.slice_getD _ _ (by rw [record.key.size_eq]; exact seals.keySize)
  have ciphertext : input.data.slice 0 (nodes.length * metaNodeSize) =
      (crypto.cipher (record.key.bytes.take crypto.keySize.toNat) (segmentBytes nodes)).slice
        0 (nodes.length * metaNodeSize) := by
    rw [← sealed.size, delivers.data, sealed.data]
  refine ⟨input.data.copy 0 (memory.decData.copy 0 (crypto.decipher
    ((keyBytes record.key).slice 0 crypto.keySize.toNat)
    (input.data.slice 0 input.shareSize)) input.shareSize) input.shareSize, ?_, ?_⟩
  · simp only [decryptChunk, found, matched, ne_eq, not_true_eq_false, if_false]
    rw [CryptoPrimitive.decryptWithKey, if_pos blocks, Option.map_some]
  · have plain := inverts (record.key.bytes.take crypto.keySize.toNat) (segmentBytes nodes)
      (by rw [segmentBytes_length]; exact seals.blocks _)
    rw [segmentBytes_length] at plain
    rw [size, Buffer.slice_copy, Buffer.slice_copy, key, ciphertext, plain]

private theorem writeRetrivedFileRecipe_sealed
    (seals : crypto.SealsChunks) (inverts : crypto.Inverts)
    {input : MetaItem} (sealed : Sealed crypto index nodes chunk record)
    (delivers : Delivers chunk input) (listed : keyFile[index]? = some record)
    (memory : ReadMemory) (recipe : RetrievedRecipe) :
    (writeRetrivedFileRecipe crypto (some keyFile) memory recipe input).1.entries =
        recipe.entries ++ nodes.map recipeEntry ∧
      (writeRetrivedFileRecipe crypto (some keyFile) memory recipe input).2 = true := by
  rcases decryptChunk_sealed seals inverts sealed delivers listed memory with
    ⟨data, decrypted, plain⟩
  have count : input.shareSize / metaNodeSize = nodes.length := by
    rw [delivers.shareSize, sealed.size]
    exact Nat.mul_div_cancel _ (by decide)
  have entries : (List.range nodes.length).map (fun node =>
      recipeEntryAt data (node * metaNodeSize)) = nodes.map recipeEntry := by
    apply List.ext_getElem
    · simp
    · intro position _ inside
      rw [List.length_map] at inside
      rw [List.getElem_map, List.getElem_range, List.getElem_map]
      exact recipeEntryAt_of_slice (slice_of_segmentBytes plain inside)
  rw [writeRetrivedFileRecipe, decrypted, count]
  exact ⟨congrArg (recipe.entries ++ ·) entries, rfl⟩

private theorem writeAll_segments (seals : crypto.SealsChunks) (inverts : crypto.Inverts)
    {offset : Nat} (size : inputs.length = segments.length)
    (cut : ∀ index segment, segments[index]? = some segment → ∃ chunk record input,
      inputs[index]? = some input ∧ keyFile[offset + index]? = some record ∧
        Sealed crypto (offset + index) segment chunk record ∧ Delivers chunk input.1)
    (recipe : RetrievedRecipe) :
    (writeAll crypto (some keyFile) recipe inputs).1.entries =
        recipe.entries ++ segments.flatten.map recipeEntry ∧
      (writeAll crypto (some keyFile) recipe inputs).2 = true := by
  induction segments generalizing offset inputs recipe with
  | nil =>
      rw [List.length_eq_zero_iff.mp size]
      exact ⟨(List.append_nil _).symm, rfl⟩
  | cons segment segments induction =>
      cases inputs with
      | nil => cases size
      | cons input inputs =>
          rcases cut 0 segment rfl with ⟨chunk, record, first, found, listed, sealed, delivers⟩
          cases found
          rcases writeRetrivedFileRecipe_sealed seals inverts sealed delivers listed input.2
            recipe with ⟨entries, returned⟩
          have later : ∀ index segment, segments[index]? = some segment →
              ∃ chunk record input, inputs[index]? = some input ∧
                keyFile[offset + 1 + index]? = some record ∧
                Sealed crypto (offset + 1 + index) segment chunk record ∧
                Delivers chunk input.1 := by
            intro index segment member
            rw [Nat.add_assoc, Nat.add_comm 1 index]
            exact cut (index + 1) segment member
          rcases induction (Nat.succ.inj size) later
            (writeRetrivedFileRecipe crypto (some keyFile) input.2 recipe input.1).1 with
            ⟨rest, returns⟩
          have unfolded : writeAll crypto (some keyFile) recipe (input :: inputs) =
              writeAll crypto (some keyFile)
                (writeRetrivedFileRecipe crypto (some keyFile) input.2 recipe input.1).1
                inputs := by
            simp only [writeAll, List.foldl_cons, returned, Bool.and_true]
          rw [unfolded]
          refine ⟨?_, returns⟩
          rw [rest, entries, List.flatten_cons, List.map_append, List.append_assoc]

private theorem delivered_getElem? {chunks : List MetaChunk}
    (delivered : List.Forall₂ (fun chunk input => Delivers chunk input.1) chunks inputs)
    (listed : chunks[index]? = some chunk) :
    ∃ input, inputs[index]? = some input ∧ Delivers chunk input.1 := by
  induction delivered generalizing index with
  | nil => cases listed
  | @cons first input chunks inputs delivers _ induction =>
      cases index with
      | zero =>
          cases listed
          exact ⟨input, rfl, delivers⟩
      | succ index => exact induction listed

/-! ## The round trip -/

/-- A client whose cipher is its own inverse and whose hashes are all zero. -/
def plainOpenSSL : OpenSSL where
  sha256 := fun _ _ => 0
  md5 := fun _ _ => 0
  sha1 := fun _ _ => 0
  aes256Encrypt := fun _ data position => data.getD position 0
  aes256Decrypt := fun _ data position => data.getD position 0
  aes128Encrypt := fun _ data position => data.getD position 0
  aes128Decrypt := fun _ data position => data.getD position 0

def numberedNode (byte : Byte) (secretID : BitVec 32) : MetaNode where
  shareFP := ⟨byte :: List.replicate 31 0, rfl⟩
  unset := List.replicate unsetSize 0
  secretID
  secretSize := 100
  shareSize := 50
  unset_size := zeroUnset_size

/-- A share after which a segment is cut. -/
def cuttingShare : DataShare := ⟨numberedNode 31 0, false⟩

def lastShare : DataShare := ⟨numberedNode 0 7, true⟩

/-- The metadata chunks of a file and its key file, fed to the downloader in order, give
the recipe of the file: every call returns 1, and the entries are those of the shares,
in order. -/
theorem metadata_roundTrip (openssl : OpenSSL) (securetype : SecureType)
    (inverts : (openssl.cryptoPrimitive securetype.cryptoType).Inverts)
    (metaChunkBuffer : Buffer Byte) (shares : List (DataShare × StackMemory))
    (last : DataShare × StackMemory) (ends : last.1.isEnd = true) (fileSize : Int)
    (inputs : List (MetaItem × ReadMemory))
    (delivered : List.Forall₂ (fun chunk input => Delivers chunk input.1)
      ((Collection.start metaChunkBuffer).addAll
        (openssl.cryptoPrimitive securetype.cryptoType) (shares ++ [last])).chunks inputs) :
    (writeAll (openssl.cryptoPrimitive securetype.cryptoType)
      (some ((Collection.start metaChunkBuffer).addAll
        (openssl.cryptoPrimitive securetype.cryptoType) (shares ++ [last])).keyFile)
      ⟨[], fileSize⟩ inputs).1.entries =
        (shares ++ [last]).map (fun share => recipeEntry share.1.node) ∧
    (writeAll (openssl.cryptoPrimitive securetype.cryptoType)
      (some ((Collection.start metaChunkBuffer).addAll
        (openssl.cryptoPrimitive securetype.cryptoType) (shares ++ [last])).keyFile)
      ⟨[], fileSize⟩ inputs).2 = true := by
  have seals := openssl.sealsChunks securetype
  generalize openssl.cryptoPrimitive securetype.cryptoType = crypto at *
  rcases (Segmented.start crypto metaChunkBuffer).addAll seals shares with
    ⟨earlier, pending, segmented, joined⟩
  rcases segmented.add seals last with ⟨segments, left, final, all, nothing⟩
  have unfolded : (Collection.start metaChunkBuffer).addAll crypto (shares ++ [last]) =
      ((Collection.start metaChunkBuffer).addAll crypto shares).add crypto last := by
    rw [Collection.addAll, List.foldl_append]
    rfl
  rw [unfolded] at delivered ⊢
  have nodes : segments.flatten = (shares ++ [last]).map fun share => share.1.node := by
    rw [nothing ends, List.append_nil, joined] at all
    rw [all, List.map_append]
    rfl
  have size : inputs.length = segments.length := by
    rw [← final.chunks, delivered.length_eq]
  have cut : ∀ index segment, segments[index]? = some segment → ∃ chunk record input,
      inputs[index]? = some input ∧
        (((Collection.start metaChunkBuffer).addAll crypto shares).add crypto
          last).keyFile[0 + index]? = some record ∧
        Sealed crypto (0 + index) segment chunk record ∧ Delivers chunk input.1 := by
    intro index segment member
    rw [Nat.zero_add]
    rcases final.cut index segment member with ⟨chunk, record, chunkAt, recordAt, sealed⟩
    rcases delivered_getElem? delivered chunkAt with ⟨input, inputAt, delivers⟩
    exact ⟨chunk, record, input, inputAt, recordAt, sealed, delivers⟩
  rcases writeAll_segments seals inverts size cut ⟨[], fileSize⟩ with ⟨entries, returns⟩
  refine ⟨?_, returns⟩
  rw [entries, nodes, List.map_map]
  rfl

private theorem plainOpenSSL_inverts :
    (plainOpenSSL.cryptoPrimitive SecureType.high.cryptoType).Inverts := by
  have plain : ∀ data : List Byte,
      Buffer.slice (fun position => data.getD position 0) 0 data.length = data := by
    intro data
    rw [Buffer.slice_getD data 0 (Nat.le_refl _), List.take_length]
  intro key data _
  change Buffer.slice (fun position => (Buffer.slice (fun position => data.getD position 0) 0
    data.length).getD position 0) 0 data.length = data
  rw [plain, plain]

/-- A file of two shares, and of two chunks. -/
theorem metadata_roundTrip_twoChunks :
    ∃ inputs : List (MetaItem × ReadMemory), inputs.length = 2 ∧
      (writeAll (plainOpenSSL.cryptoPrimitive .highSecPair)
        (some ((Collection.start fun _ => 0).addAll
          (plainOpenSSL.cryptoPrimitive .highSecPair)
          ([(cuttingShare, .zero)] ++ [(lastShare, .zero)])).keyFile) ⟨[], 0⟩ inputs).1.entries =
        [recipeEntry cuttingShare.node, recipeEntry lastShare.node] := by
  let chunks := ((Collection.start fun _ => 0).addAll
    (plainOpenSSL.cryptoPrimitive .highSecPair)
    ([(cuttingShare, .zero)] ++ [(lastShare, .zero)])).chunks
  let memory : ReadMemory :=
    ⟨⟨0, fingerprintOf fun _ => 0, fingerprintOf fun _ => 0⟩, fun _ => 0⟩
  refine ⟨chunks.map fun chunk => (⟨chunk.secretID, chunk.shareSize, chunk.data⟩, memory),
    by decide +kernel, ?_⟩
  apply (metadata_roundTrip plainOpenSSL .high plainOpenSSL_inverts (fun _ => 0) _ _ rfl 0 _
    ?_).1
  rw [List.forall₂_map_right_iff]
  exact List.forall₂_same.mpr fun _ _ => ⟨rfl, rfl, rfl⟩

end MetaDedup
