import MetaDedup.Client.EncoderPipeline

/-! # What a metadata chunk depends on

The server stores a metadata chunk once for all uploads that send the same bytes. The
bytes of a chunk are those of its records, as they are in memory. So they contain the
numbers of the secrets in their file and the bytes that are never set, beside the
fingerprints and the sizes. With the low setting the arrays for a key and for a fingerprint
are longer than what the hash function writes. -/

namespace MetaDedup.Encoder

open Foundation Wire
open Server (Fingerprint fpSize)

/-! ## Records and their bytes -/

private theorem wordBytes_injective {left right : BitVec 32}
    (same : wordBytes intSize left.toNat = wordBytes intSize right.toNat) : left = right := by
  have values := congrArg littleEndian same
  have width : 256 ^ intSize = 2 ^ 32 := rfl
  rw [littleEndian_wordBytes, littleEndian_wordBytes, width] at values
  apply BitVec.eq_of_toNat_eq
  rwa [Nat.mod_eq_of_lt left.isLt, Nat.mod_eq_of_lt right.isLt] at values

private theorem metaNode_bytes_injective {left right : MetaNode} (same : left.bytes = right.bytes) :
    left = right := by
  rw [MetaNode.bytes, MetaNode.bytes] at same
  rcases List.append_inj' same (by simp) with ⟨same, shareSize⟩
  rcases List.append_inj' same (by simp) with ⟨same, secretSize⟩
  rcases List.append_inj' same (by simp) with ⟨same, secretID⟩
  rcases List.append_inj' same (by rw [left.unset_size, right.unset_size]) with
    ⟨shareFP, unset⟩
  cases left
  cases right
  cases Fingerprint.eq_of_bytes shareFP
  cases unset
  cases wordBytes_injective secretID
  cases wordBytes_injective secretSize
  cases wordBytes_injective shareSize
  rfl

private theorem segmentBytes_injective {left right : List MetaNode}
    (same : segmentBytes left = segmentBytes right) : left = right := by
  induction left generalizing right with
  | nil =>
      have length := congrArg List.length same
      rw [segmentBytes_length, segmentBytes_length] at length
      cases right with
      | nil => rfl
      | cons node rest =>
          rw [List.length_nil, List.length_cons, metaNodeSize] at length
          omega
  | cons node rest induction =>
      cases right with
      | nil =>
          have length := congrArg List.length same
          rw [segmentBytes_length, segmentBytes_length, List.length_nil, List.length_cons,
            metaNodeSize] at length
          omega
      | cons other others =>
          rw [segmentBytes, segmentBytes, List.map_cons, List.map_cons, List.flatten_cons,
            List.flatten_cons] at same
          rcases List.append_inj same (by simp) with ⟨first, later⟩
          rw [metaNode_bytes_injective first, induction later]

/-! ## What is made of a chunk -/

variable {nodes : List MetaNode} {leftMemory rightMemory : StackMemory}

variable (crypto : CryptoPrimitive)

/-- The bytes of an array for a fingerprint that the hash function leaves as they are. -/
def untouched (stale : Buffer Byte) : List Byte :=
  stale.slice crypto.hashSize (fpSize - crypto.hashSize)

theorem fingerprintOf_generateHash {crypto : CryptoPrimitive}
    (size : crypto.hashSize ≤ fpSize) (data : Buffer Byte) (dataSize : Nat)
    (stale : Buffer Byte) :
    (fingerprintOf (crypto.generateHash data dataSize stale 0)).bytes =
      (crypto.digest (data.slice 0 dataSize)).slice 0 crypto.hashSize ++
        untouched crypto stale := by
  have parts : fpSize = crypto.hashSize + (fpSize - crypto.hashSize) := by omega
  rw [fingerprintOf, CryptoPrimitive.generateHash]
  change Buffer.slice _ 0 fpSize = _
  rw [parts, Buffer.slice_add, Buffer.slice_copy, Nat.zero_add, untouched,
    Buffer.slice_copy_of_disjoint]
  exact .inr (Nat.le_of_eq (Nat.zero_add _))

/-- What is made of the records in the chunk buffer: the plaintext, the key, and the
ciphertext with its fingerprint. -/
structure SealedChunk where
  plaintext : List Byte
  key : Fingerprint
  ciphertext : List Byte
  shareFP : Fingerprint

def Collector.sealedChunk (memory : StackMemory) (isEnd : Bool) (collector : Collector) :
    SealedChunk :=
  let cut := collector.cutChunk crypto memory isEnd
  { plaintext := collector.metaChunkBuffer.slice 0
      (collector.metaChunkCounter * metaNodeSize)
    key := cut.2.key
    ciphertext := cut.1.data.slice 0 cut.1.shareSize
    shareFP := cut.1.shareFP }

variable {crypto}

structure SealedFrom (crypto : CryptoPrimitive) (nodes : List MetaNode)
    (memory : StackMemory) (chunk : SealedChunk) : Prop where
  plaintext : chunk.plaintext = segmentBytes nodes
  key : chunk.key.bytes = (crypto.digest (segmentBytes nodes)).slice 0 crypto.hashSize ++
    untouched crypto memory.key
  ciphertext : chunk.ciphertext =
    (crypto.cipher (chunk.key.bytes.take crypto.keySize.toNat) (segmentBytes nodes)).slice 0
      (nodes.length * metaNodeSize)
  shareFP : chunk.shareFP.bytes = (crypto.digest chunk.ciphertext).slice 0 crypto.hashSize ++
    untouched crypto memory.shareFP

theorem sealedChunk_from (seals : crypto.SealsChunks) (size : crypto.hashSize ≤ fpSize)
    {collector : Collector} (pending : Pending nodes collector)
    (memory : StackMemory) (isEnd : Bool) :
    SealedFrom crypto nodes memory (collector.sealedChunk crypto memory isEnd) where
  plaintext := by
    rw [← pending.buffer, ← pending.counter]
    rfl
  key := by
    change (fingerprintOf (collector.chunkKey crypto memory)).bytes = _
    rw [Collector.chunkKey, fingerprintOf_generateHash size, pending.counter, pending.buffer]
  ciphertext := by
    have key : (fingerprintOf (collector.chunkKey crypto memory)).bytes.take
        crypto.keySize.toNat =
        (collector.chunkKey crypto memory).slice 0 crypto.keySize.toNat :=
      Buffer.slice_take _ _ seals.keySize
    change (collector.encryptChunk crypto memory).slice 0
      (collector.metaChunkCounter * metaNodeSize) = (crypto.cipher
        ((fingerprintOf (collector.chunkKey crypto memory)).bytes.take crypto.keySize.toNat)
        _).slice 0 _
    rw [key, Collector.encryptChunk, CryptoPrimitive.encryptWithKey, if_pos (seals.blocks _),
      Option.getD_some, Buffer.slice_copy, pending.counter, pending.buffer]
  shareFP := fingerprintOf_generateHash size _ _ _

/-- Two chunks are the same just when their records are and the arrays have held the same
where no hash is written. -/
theorem SealedFrom.eq_iff {leftNodes rightNodes : List MetaNode} {left right : SealedChunk}
    (leftSealed : SealedFrom crypto leftNodes leftMemory left)
    (rightSealed : SealedFrom crypto rightNodes rightMemory right) :
    left = right ↔ leftNodes = rightNodes ∧
      untouched crypto leftMemory.key = untouched crypto rightMemory.key ∧
      untouched crypto leftMemory.shareFP = untouched crypto rightMemory.shareFP := by
  constructor
  · rintro rfl
    have nodes : leftNodes = rightNodes :=
      segmentBytes_injective (leftSealed.plaintext.symm.trans rightSealed.plaintext)
    have keys := leftSealed.key.symm.trans rightSealed.key
    have fingerprints := leftSealed.shareFP.symm.trans rightSealed.shareFP
    rw [nodes] at keys
    exact ⟨nodes, List.append_cancel_left keys, List.append_cancel_left fingerprints⟩
  · rintro ⟨rfl, keyTails, shareFPTails⟩
    have key : left.key = right.key := by
      apply Fingerprint.eq_of_bytes
      rw [leftSealed.key, rightSealed.key, keyTails]
    have ciphertext : left.ciphertext = right.ciphertext := by
      rw [leftSealed.ciphertext, rightSealed.ciphertext, key]
    have shareFP : left.shareFP = right.shareFP := by
      apply Fingerprint.eq_of_bytes
      rw [leftSealed.shareFP, rightSealed.shareFP, ciphertext, shareFPTails]
    have plaintext := leftSealed.plaintext.trans rightSealed.plaintext.symm
    cases left
    cases right
    cases plaintext
    cases key
    cases ciphertext
    cases shareFP
    rfl

/-! ## Segments of two uploads -/

def fileShares : List (MetaNode × StackMemory) → List (DataShare × StackMemory)
  | [] => []
  | item :: rest => (⟨item.1, rest.isEmpty⟩, item.2) :: fileShares rest

/-- The next chunk that is cut: the number of shares until then, and the chunk. -/
def firstChunk (crypto : CryptoPrimitive) (collector : Collector) :
    List (DataShare × StackMemory) → Option (Nat × SealedChunk)
  | [] => none
  | item :: rest =>
      match collector.collectShare crypto item.2 item.1 with
      | (_, some _) =>
          some (1, (collector.addNode item.1.node).sealedChunk crypto item.2 item.1.isEnd)
      | (next, none) =>
          (firstChunk crypto next rest).map fun later => (later.1 + 1, later.2)

/-- Two records agree in what belongs to the share itself. -/
structure SameShare (left right : MetaNode) : Prop where
  shareFP : left.shareFP = right.shareFP
  secretSize : left.secretSize = right.secretSize
  shareSize : left.shareSize = right.shareSize

def MetaNode.rest (node : MetaNode) : BitVec 32 × List Byte := (node.secretID, node.unset)

private theorem eq_iff_rest {left right : List MetaNode}
    (same : List.Forall₂ SameShare left right) :
    left = right ↔ left.map MetaNode.rest = right.map MetaNode.rest := by
  induction same with
  | nil => exact ⟨fun _ => rfl, fun _ => rfl⟩
  | @cons leftNode rightNode _ _ same _ induction =>
      rw [List.map_cons, List.map_cons, List.cons.injEq, List.cons.injEq, induction]
      apply and_congr_left'
      constructor
      · rintro rfl
        rfl
      · intro rest
        cases leftNode
        cases rightNode
        cases same.shareFP
        cases same.secretSize
        cases same.shareSize
        cases rest
        rfl

/-- What the arrays have held at the last share of a chunk, where no hash is written. -/
def staleParts (crypto : CryptoPrimitive) (items : List (MetaNode × StackMemory)) :
    Option (List Byte × List Byte) :=
  items.getLast?.map fun item =>
    (untouched crypto item.2.key, untouched crypto item.2.shareFP)

private theorem staleParts_cons (crypto : CryptoPrimitive) (item : MetaNode × StackMemory)
    {items : List (MetaNode × StackMemory)} (more : items ≠ []) :
    staleParts crypto (item :: items) = staleParts crypto items := by
  cases items with
  | nil => exact absurd rfl more
  | cons next rest => rfl

section TwoUploads

variable {leftPending rightPending : List MetaNode} {leftCollector rightCollector : Collector}
variable {leftNodes rightNodes : List (MetaNode × StackMemory)}

private theorem firstChunk_agree (seals : crypto.SealsChunks) (size : crypto.hashSize ≤ fpSize)
    (agree : List.Forall₂ (fun left right => SameShare left.1 right.1) leftNodes rightNodes)
    (nonempty : leftNodes ≠ []) (leftHolds : Pending leftPending leftCollector)
    (rightHolds : Pending rightPending rightCollector)
    (segment : leftCollector.segSizeTemp = rightCollector.segSizeTemp) :
    ∃ count left right, 0 < count ∧
      firstChunk crypto leftCollector (fileShares leftNodes) = some (count, left) ∧
      firstChunk crypto rightCollector (fileShares rightNodes) = some (count, right) ∧
      (left = right ↔
        leftPending ++ (leftNodes.take count).map Prod.fst =
            rightPending ++ (rightNodes.take count).map Prod.fst ∧
          staleParts crypto (leftNodes.take count) =
            staleParts crypto (rightNodes.take count)) := by
  induction agree generalizing leftPending rightPending leftCollector rightCollector with
  | nil => exact absurd rfl nonempty
  | @cons leftItem rightItem leftRest rightRest same agree induction =>
      have ends : leftRest.isEmpty = rightRest.isEmpty := by
        cases agree with
        | nil => rfl
        | cons _ _ => rfl
      have segments : (leftCollector.addNode leftItem.1).segSizeTemp =
          (rightCollector.addNode rightItem.1).segSizeTemp := by
        rw [Collector.addNode, Collector.addNode, segment, same.shareSize]
      have cuts : (leftCollector.addNode leftItem.1).cutsAfter ⟨leftItem.1, leftRest.isEmpty⟩ =
          (rightCollector.addNode rightItem.1).cutsAfter
            ⟨rightItem.1, rightRest.isEmpty⟩ := by
        rw [Collector.cutsAfter, Collector.cutsAfter, segments, same.shareFP, ends]
      have leftAdded := leftHolds.addNode leftItem.1
      have rightAdded := rightHolds.addNode rightItem.1
      rw [fileShares, fileShares, firstChunk, firstChunk]
      simp only [Collector.collectShare, cuts]
      cases cut : (rightCollector.addNode rightItem.1).cutsAfter
        ⟨rightItem.1, rightRest.isEmpty⟩ with
      | true =>
          simp only [if_true]
          refine ⟨1, _, _, Nat.one_pos, rfl, rfl, ?_⟩
          rw [(sealedChunk_from seals size leftAdded leftItem.2 _).eq_iff
            (sealedChunk_from seals size rightAdded rightItem.2 _)]
          simp [staleParts]
      | false =>
          simp only [Bool.false_eq_true, if_false]
          have more : leftRest ≠ [] := by
            intro none
            rw [← ends, none, Collector.cutsAfter, List.isEmpty_nil, Bool.or_true] at cut
            cases cut
          rcases induction more leftAdded rightAdded segments with
            ⟨count, left, right, positive, leftFirst, rightFirst, iff⟩
          have taken {items : List (MetaNode × StackMemory)} (inhabited : items ≠ []) :
              items.take count ≠ [] := by
            intro none
            rcases List.take_eq_nil_iff.mp none with zero | empty
            · exact absurd zero (Nat.ne_of_gt positive)
            · exact inhabited empty
          have rightMore : rightRest ≠ [] := by
            rw [← List.isEmpty_eq_false_iff, ← ends, List.isEmpty_eq_false_iff]
            exact more
          refine ⟨count + 1, left, right, Nat.succ_pos count, ?_, ?_, ?_⟩
          · rw [leftFirst, Option.map_some]
          · rw [rightFirst, Option.map_some]
          · rw [iff, List.take_succ_cons, List.take_succ_cons, List.map_cons, List.map_cons,
              staleParts_cons crypto _ (taken more),
              staleParts_cons crypto _ (taken rightMore), List.append_assoc,
              List.append_assoc]
            rfl

end TwoUploads

private theorem segSizeTemp_start (crypto : CryptoPrimitive) (metaChunkBuffer : Buffer Byte)
    (items : List (DataShare × StackMemory))
    (fresh : ((Collection.start metaChunkBuffer).addAll crypto
      items).collector.metaChunkCounter = 0) :
    ((Collection.start metaChunkBuffer).addAll crypto items).collector.segSizeTemp = 0 := by
  let counted (collection : Collection) : Prop :=
    collection.collector.metaChunkCounter = 0 → collection.collector.segSizeTemp = 0
  refine List.foldlRecOn (motive := counted) items _ (fun _ => rfl) ?_ fresh
  rintro collection _ ⟨share, memory⟩ _
  simp only [counted, Collection.add_eq]
  split
  · exact fun _ => rfl
  · intro none
    cases none

/-- Two uploads that agree from the beginning of a segment on cut it at the same share. What
they make of it is the same just when the secrets have the same numbers, and the memory
that is never written has held the same. -/
theorem equal_segments_iff (openssl : OpenSSL) (securetype : SecureType)
    (leftBuffer rightBuffer : Buffer Byte)
    (leftBefore rightBefore : List (DataShare × StackMemory))
    {leftNodes rightNodes : List (MetaNode × StackMemory)}
    (leftFresh : ((Collection.start leftBuffer).addAll
      (openssl.cryptoPrimitive securetype.cryptoType) leftBefore).collector.metaChunkCounter =
        0)
    (rightFresh : ((Collection.start rightBuffer).addAll
      (openssl.cryptoPrimitive securetype.cryptoType)
        rightBefore).collector.metaChunkCounter = 0)
    (nonempty : leftNodes ≠ [])
    (agree : List.Forall₂ (fun left right => SameShare left.1 right.1) leftNodes
      rightNodes) :
    ∃ count left right,
      firstChunk (openssl.cryptoPrimitive securetype.cryptoType)
        ((Collection.start leftBuffer).addAll (openssl.cryptoPrimitive securetype.cryptoType)
          leftBefore).collector (fileShares leftNodes) = some (count, left) ∧
      firstChunk (openssl.cryptoPrimitive securetype.cryptoType)
        ((Collection.start rightBuffer).addAll (openssl.cryptoPrimitive securetype.cryptoType)
          rightBefore).collector (fileShares rightNodes) = some (count, right) ∧
      (left = right ↔
        (leftNodes.take count).map (fun item => MetaNode.rest item.1) =
            (rightNodes.take count).map (fun item => MetaNode.rest item.1) ∧
          staleParts (openssl.cryptoPrimitive securetype.cryptoType) (leftNodes.take count) =
            staleParts (openssl.cryptoPrimitive securetype.cryptoType)
              (rightNodes.take count)) := by
  have seals := openssl.sealsChunks securetype
  have size := (hashSize_bounds openssl securetype).2
  generalize openssl.cryptoPrimitive securetype.cryptoType = crypto at *
  have segment := (segSizeTemp_start crypto leftBuffer leftBefore leftFresh).trans
    (segSizeTemp_start crypto rightBuffer rightBefore rightFresh).symm
  have leftHolds : Pending [] ((Collection.start leftBuffer).addAll crypto
    leftBefore).collector := ⟨leftFresh, rfl⟩
  have rightHolds : Pending [] ((Collection.start rightBuffer).addAll crypto
    rightBefore).collector := ⟨rightFresh, rfl⟩
  rcases firstChunk_agree seals size agree nonempty leftHolds rightHolds segment with
    ⟨count, left, right, _, leftFirst, rightFirst, iff⟩
  refine ⟨count, left, right, leftFirst, rightFirst, ?_⟩
  have same : List.Forall₂ SameShare ((leftNodes.take count).map Prod.fst)
      ((rightNodes.take count).map Prod.fst) := by
    rw [List.forall₂_map_left_iff, List.forall₂_map_right_iff]
    exact List.forall₂_take count agree
  rw [iff, List.nil_append, List.nil_append, eq_iff_rest same, List.map_map, List.map_map]
  rfl

/-- A segment of two shares is uploaded twice. -/
theorem equal_segments_iff_again :
    ∃ chunk,
      firstChunk (plainOpenSSL.cryptoPrimitive SecureType.high.cryptoType)
        (Collection.start fun _ => 0).collector
        (fileShares [(numberedNode 0 0, .zero), (numberedNode 1 1, .zero)]) = some (2, chunk) ∧
      firstChunk (plainOpenSSL.cryptoPrimitive SecureType.high.cryptoType)
        (Collection.start fun _ => 1).collector
        (fileShares [(numberedNode 0 0, .zero), (numberedNode 1 1, .zero)]) =
          some (2, chunk) := by
  rcases equal_segments_iff plainOpenSSL .high (fun _ => 0) (fun _ => 1) [] [] rfl rfl
    (List.cons_ne_nil (numberedNode 0 0, .zero) [(numberedNode 1 1, .zero)])
    (.cons ⟨rfl, rfl, rfl⟩ (.cons ⟨rfl, rfl, rfl⟩ .nil)) with
    ⟨count, left, right, leftFirst, rightFirst, iff⟩
  rw [← iff.mpr ⟨rfl, rfl⟩] at rightFirst
  have both : count = 2 := congrArg (fun first => (first.getD (0, left)).1) leftFirst.symm
  rw [both] at leftFirst rightFirst
  exact ⟨left, leftFirst, rightFirst⟩

/-- The last segment of two files, of which one has a segment before it. The only
difference is in the number of the secret. -/
theorem equal_segments_at_another_place :
    ((Collection.start fun _ => 0).addAll
      (plainOpenSSL.cryptoPrimitive SecureType.high.cryptoType)
      [(cuttingShare, .zero)]).collector.metaChunkCounter = 0 ∧
    SameShare (numberedNode 0 0) (numberedNode 0 1) ∧
    ∃ count left right,
      firstChunk (plainOpenSSL.cryptoPrimitive SecureType.high.cryptoType)
        (Collection.start fun _ => 0).collector (fileShares [(numberedNode 0 0, .zero)]) =
          some (count, left) ∧
      firstChunk (plainOpenSSL.cryptoPrimitive SecureType.high.cryptoType)
        ((Collection.start fun _ => 0).addAll
          (plainOpenSSL.cryptoPrimitive SecureType.high.cryptoType)
          [(cuttingShare, .zero)]).collector
        (fileShares [(numberedNode 0 1, .zero)]) = some (count, right) ∧
      left.plaintext ≠ right.plaintext := by
  refine ⟨by decide +kernel, ⟨rfl, rfl, rfl⟩, 1, _, _, rfl, rfl, ?_⟩
  decide +kernel

/-! ## Two runs on the same shares -/

variable {cloud : Nat}

def MetaChunk.sent (chunk : MetaChunk) : Bool × Int × Nat × Nat × Fingerprint × List Byte :=
  (chunk.isEnd, chunk.secretID, chunk.secretSize, chunk.shareSize, chunk.shareFP,
    chunk.data.slice 0 chunk.shareSize)

def CollectedItem.shareFP? : CollectedItem → Option Fingerprint
  | .fileHeader _ _ => none
  | .share object _ => some object.shareFP

/-- Two clouds are sent the same fingerprints and chunks, and the key files are the
same. -/
structure CloudOutput.SameMetadata (left right : CloudOutput) : Prop where
  fingerprints : left.items.filterMap CollectedItem.shareFP? =
    right.items.filterMap CollectedItem.shareFP?
  chunks : left.collection.chunks.map MetaChunk.sent =
    right.collection.chunks.map MetaChunk.sent
  keyFile : left.collection.keyFile = right.collection.keyFile

variable {gf : GaloisField} {codec : CDCodec gf crypto}

/-- The memory has held the same where the thread never writes. -/
structure CollectMemory.SameUnwritten (left right : CollectMemory codec) : Prop where
  unset : left.node.unset = right.node.unset
  shareFP : untouched crypto left.node.shareFP = untouched crypto right.node.shareFP
  key : untouched crypto left.chunk.key = untouched crypto right.chunk.key
  chunkFP : untouched crypto left.chunk.shareFP = untouched crypto right.chunk.shareFP

/-- What has been collected in two runs. -/
structure Collection.InStep (left right : Collection) (nodes : List MetaNode) : Prop where
  chunks : left.chunks.map MetaChunk.sent = right.chunks.map MetaChunk.sent
  keyFile : left.keyFile = right.keyFile
  leftPending : Pending nodes left.collector
  rightPending : Pending nodes right.collector
  segSizeTemp : left.collector.segSizeTemp = right.collector.segSizeTemp
  chunkID : left.collector.metaChunkID = right.collector.metaChunkID

private theorem shareObject_congr (size : crypto.hashSize ≤ fpSize) {chunk : ShareChunk}
    {clouds : Nat} (holds : (ShareChunkItem.share chunk).HoldsShares clouds)
    (listed : cloud < clouds) {left right : NodeMemory}
    (same : untouched crypto left.shareFP = untouched crypto right.shareFP) :
    shareObject crypto left chunk cloud = shareObject crypto right chunk cloud := by
  have stored (memory : NodeMemory) := memory.data.slice_write_of_length 0
    (shareObject_length crypto memory holds listed)
  have shareFP : (shareObject crypto left chunk cloud).shareFP =
      (shareObject crypto right chunk cloud).shareFP := by
    apply Fingerprint.eq_of_bytes
    rw [shareObject, shareObject]
    simp only [fingerprintOf_generateHash size, same]
    have leftStored := stored left
    have rightStored := stored right
    rw [shareObject] at leftStored rightStored
    simp only at leftStored rightStored
    rw [leftStored, rightStored]
  rw [shareObject, shareObject] at shareFP ⊢
  simp only at shareFP
  rw [shareFP]

private theorem dataShare_congr {chunk : ShareChunk} {left right : NodeMemory}
    (same : left.unset = right.unset) (share : Uploader.ShareObject) :
    dataShare left chunk share = dataShare right chunk share := by
  rw [dataShare, dataShare]
  simp only [same]

private theorem cutChunk_congr (seals : crypto.SealsChunks) (size : crypto.hashSize ≤ fpSize)
    {left right : Collector} (leftPending : Pending nodes left)
    (rightPending : Pending nodes right) (chunkID : left.metaChunkID = right.metaChunkID)
    (key : untouched crypto leftMemory.key = untouched crypto rightMemory.key)
    (shareFP : untouched crypto leftMemory.shareFP = untouched crypto rightMemory.shareFP)
    (isEnd : Bool) :
    (left.cutChunk crypto leftMemory isEnd).1.sent =
        (right.cutChunk crypto rightMemory isEnd).1.sent ∧
      (left.cutChunk crypto leftMemory isEnd).2 =
        (right.cutChunk crypto rightMemory isEnd).2 := by
  have sealed := ((sealedChunk_from seals size leftPending leftMemory isEnd).eq_iff
    (sealedChunk_from seals size rightPending rightMemory isEnd)).mpr ⟨rfl, key, shareFP⟩
  have keys := congrArg SealedChunk.key sealed
  have ciphertexts := congrArg SealedChunk.ciphertext sealed
  have fingerprints := congrArg SealedChunk.shareFP sealed
  have counter := leftPending.counter.trans rightPending.counter.symm
  simp only [Collector.sealedChunk, Collector.cutChunk, counter] at keys
  simp only [Collector.sealedChunk, Collector.cutChunk, counter] at ciphertexts
  simp only [Collector.sealedChunk, Collector.cutChunk, counter] at fingerprints
  simp only [MetaChunk.sent, Collector.cutChunk, counter, chunkID, keys, ciphertexts,
    fingerprints, and_self]

theorem Collection.InStep.add (seals : crypto.SealsChunks) (size : crypto.hashSize ≤ fpSize)
    {left right : Collection} (inStep : left.InStep right nodes) (share : DataShare)
    (key : untouched crypto leftMemory.key = untouched crypto rightMemory.key)
    (shareFP : untouched crypto leftMemory.shareFP = untouched crypto rightMemory.shareFP) :
    ∃ reached, (left.add crypto (share, leftMemory)).InStep
      (right.add crypto (share, rightMemory)) reached := by
  have leftAdded := inStep.leftPending.addNode share.node
  have rightAdded := inStep.rightPending.addNode share.node
  have segment : (left.collector.addNode share.node).segSizeTemp =
      (right.collector.addNode share.node).segSizeTemp :=
    congrArg (· + share.node.shareSize.signExtend 64) inStep.segSizeTemp
  have cuts : (left.collector.addNode share.node).cutsAfter share =
      (right.collector.addNode share.node).cutsAfter share := by
    rw [Collector.cutsAfter, Collector.cutsAfter, segment]
  have chunkID : (left.collector.addNode share.node).metaChunkID =
      (right.collector.addNode share.node).metaChunkID := inStep.chunkID
  rw [Collection.add_eq, Collection.add_eq]
  simp only [cuts]
  cases (right.collector.addNode share.node).cutsAfter share with
  | true =>
      rcases cutChunk_congr seals size leftAdded rightAdded chunkID key shareFP share.isEnd
        with ⟨chunk, record⟩
      refine ⟨[], ?_, ?_, .reset _, .reset _, rfl, congrArg (· - 1) chunkID⟩
      · simp only [if_true, List.map_append, List.map_singleton, inStep.chunks, chunk]
      · simp only [if_true, inStep.keyFile, record]
  | false => exact ⟨_, inStep.chunks, inStep.keyFile, leftAdded, rightAdded, segment, chunkID⟩

theorem CloudOutput.add_sameMetadata (seals : crypto.SealsChunks)
    (size : crypto.hashSize ≤ fpSize) (listed : cloud < codec.n) {left right : CloudOutput}
    (fingerprints : left.items.filterMap CollectedItem.shareFP? =
      right.items.filterMap CollectedItem.shareFP?)
    (inStep : left.collection.InStep right.collection nodes) {item : ShareChunkItem}
    (holds : item.HoldsShares codec.n) {leftMemory rightMemory : CollectMemory codec}
    (same : leftMemory.SameUnwritten rightMemory) :
    (left.add codec cloud (item, leftMemory)).items.filterMap CollectedItem.shareFP? =
        (right.add codec cloud (item, rightMemory)).items.filterMap CollectedItem.shareFP? ∧
      ∃ reached, (left.add codec cloud (item, leftMemory)).collection.InStep
        (right.add codec cloud (item, rightMemory)).collection reached := by
  cases item with
  | file head =>
      refine ⟨?_, nodes, inStep⟩
      simp only [CloudOutput.add, List.filterMap_append, fingerprints]
      rfl
  | share chunk =>
      have object := shareObject_congr size holds listed same.shareFP
      constructor
      · simp only [CloudOutput.add, List.filterMap_append, fingerprints, object]
      · simp only [CloudOutput.add, object, dataShare_congr same.unset]
        exact inStep.add seals size _ same.key same.chunkFP

theorem CloudOutput.addAll_sameMetadata (seals : crypto.SealsChunks)
    (size : crypto.hashSize ≤ fpSize) (listed : cloud < codec.n)
    (leftMemory rightMemory : Nat → CollectMemory codec)
    (same : ∀ position, (leftMemory position).SameUnwritten (rightMemory position))
    (items : List (ShareChunkItem × Nat))
    (holds : ∀ item ∈ items, item.1.HoldsShares codec.n) {left right : CloudOutput}
    (fingerprints : left.items.filterMap CollectedItem.shareFP? =
      right.items.filterMap CollectedItem.shareFP?)
    (inStep : left.collection.InStep right.collection nodes) :
    (left.addAll codec cloud
        (items.map fun numbered => (numbered.1, leftMemory numbered.2))).SameMetadata
      (right.addAll codec cloud
        (items.map fun numbered => (numbered.1, rightMemory numbered.2))) := by
  induction items generalizing left right nodes with
  | nil => exact ⟨fingerprints, inStep.chunks, inStep.keyFile⟩
  | cons item items induction =>
      rcases List.forall_mem_cons.mp holds with ⟨first, rest⟩
      rcases CloudOutput.add_sameMetadata seals size listed fingerprints inStep first
        (same item.2) with ⟨later, reached, next⟩
      exact induction rest later next

/-- Two runs on the same shares send the same metadata if the memory that the thread never
writes holds the same in both. -/
theorem metadata_deterministic (openssl : OpenSSL) (securetype : SecureType)
    {codec : CDCodec gf (openssl.cryptoPrimitive securetype.cryptoType)} {cloud : Nat}
    (listed : cloud < codec.n) {items : List ShareChunkItem}
    (holds : ∀ item ∈ items, item.HoldsShares codec.n) (leftBuffer rightBuffer : Buffer Byte)
    {leftMemory rightMemory : Nat → CollectMemory codec}
    (same : ∀ position, (leftMemory position).SameUnwritten (rightMemory position)) :
    (CloudOutput.collect codec cloud leftBuffer leftMemory items).SameMetadata
      (CloudOutput.collect codec cloud rightBuffer rightMemory items) := by
  have seals := openssl.sealsChunks securetype
  have size := (hashSize_bounds openssl securetype).2
  have started : (Collection.start leftBuffer).InStep (Collection.start rightBuffer) [] :=
    ⟨rfl, rfl, ⟨rfl, rfl⟩, ⟨rfl, rfl⟩, rfl, rfl⟩
  refine CloudOutput.addAll_sameMetadata seals size listed leftMemory rightMemory same _ ?_
    rfl started
  intro item member
  exact holds item.1 (List.fst_mem_of_mem_zipIdx member)

/-- The bytes of a record that are never set hold `byte`, and all other memory is zero. -/
def unsetMemory (byte : Byte) : CollectMemory plainCodec where
  name := .zero plainCodec
  node := ⟨fun _ => 0, fun _ => 0, List.replicate unsetSize byte, List.length_replicate⟩
  chunk := .zero

def oneShare (isEnd : Bool) : ShareChunkItem := .share ⟨[1, 2, 3, 4], 0, 1, 1, isEnd⟩

theorem metadata_deterministic_twoShares :
    (CloudOutput.collect plainCodec 0 (fun _ => 0) (fun _ => unsetMemory 5)
        [oneShare false, oneShare true]).SameMetadata
      (CloudOutput.collect plainCodec 0 (fun _ => 9) (fun _ => unsetMemory 5)
        [oneShare false, oneShare true]) := by
  apply metadata_deterministic plainOpenSSL .high (show 0 < 4 by decide)
  · exact List.forall_mem_cons.mpr ⟨rfl, List.forall_mem_singleton.mpr rfl⟩
  · exact fun _ => ⟨rfl, rfl, rfl, rfl⟩

/-- What is in the bytes that are never set is sent. -/
theorem metadata_depends_on_unset :
    ¬ (CloudOutput.collect plainCodec 0 (fun _ => 0) (fun _ => unsetMemory 5)
        [oneShare true]).SameMetadata
      (CloudOutput.collect plainCodec 0 (fun _ => 0) (fun _ => unsetMemory 6) [oneShare true]) := by
  intro same
  have byte := congrArg (List.map fun chunk => chunk.2.2.2.2.2[32]?) same.chunks
  exact absurd byte (by decide +kernel)

end MetaDedup.Encoder
