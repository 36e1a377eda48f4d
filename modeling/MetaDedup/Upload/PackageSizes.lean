import MetaDedup.Client.ChunkSizes
import MetaDedup.Client.MetadataSegments
import MetaDedup.Upload.FileQueues

/-! # The sizes of packages

A round is closed by the bytes of its shares, so that its package is large where the
shares are small. The shares of a file are not, but a metadata chunk may have a single
record of 64 bytes: with enough of them the package does not fit into the buffer of the
server. -/

namespace MetaDedup.Upload

open Foundation Wire Uploader Encoder UploadLoop
open Chunker (defaultChunker)

/-- `META_LEN`. -/
def metaLen : Nat := 2 * 1024 * 1024

/-- All packages a thread sends for a queue fit into a buffer. -/
def PackagesFit (queue : List Item) (size : Nat) : Prop :=
  ∀ thread, Fresh queue thread → ∀ run : ThreadRun,
    Relation.ReflTransGen ThreadRun.Step ⟨thread, []⟩ run →
      ∀ package ∈ run.packages, package.length ≤ size

/-! ## Rounds -/

variable {placed : List ShareObject}

/-- The shares of a round fit into the container, unless it is a single one. -/
def RoundFits (round : List ShareObject) : Prop :=
  (shareData round).length ≤ uploadBufferSize ∨ round.length ≤ 1

private theorem packRounds_fit (fits : RoundFits placed)
    (left : List ShareObject) : ∀ round ∈ packRounds placed left, RoundFits round := by
  refine packRounds_forall (fun _ => .inr (le_refl _)) (fun placed share small => .inl ?_) fits
    left
  rw [shareData_append, List.length_append]
  omega

private theorem planRounds_consecutive {shares round : List ShareObject}
    (member : round ∈ planRounds shares) : round <:+: shares := by
  rcases List.append_of_mem member with ⟨before, after, split⟩
  refine ⟨before.flatten, after.flatten, ?_⟩
  rw [← planRounds_flatten shares, split, List.flatten_append, List.flatten_cons,
    List.append_assoc]

theorem Announced.length_eq {name : List Byte} {fileSize : Int} {past : List ShareObject}
    {rounds : List (List ShareObject)} {packages : List (List Byte)}
    (announced : Announced name fileSize past rounds packages) :
    ∀ package ∈ packages, ∃ round ∈ rounds, package.length = entryAt name round.length := by
  induction announced with
  | nil => exact fun package member => nomatch member
  | cons first _ induction =>
      intro package member
      rcases List.mem_cons.mp member with same | later
      · exact ⟨_, List.mem_cons_self, same ▸ first.size⟩
      · rcases induction package later with ⟨round, listed, size⟩
        exact ⟨round, List.mem_cons_of_mem _ listed, size⟩

theorem FileQueue.packagesFit {queue : FileQueue} {size : Nat}
    (rounds : ∀ round, round <:+: queue.shares → RoundFits round →
      entryAt queue.name round.length ≤ size) :
    PackagesFit queue.items size := by
  intro thread fresh run steps package member
  rcases ((invariant_start fresh.begins).run steps).announced with ⟨done, begins, announced⟩
  rcases announced.length_eq package member with ⟨round, listed, length⟩
  have planned := begins.subset listed
  rw [length]
  exact rounds round (planRounds_consecutive planned)
    (packRounds_fit (.inr (Nat.zero_le _)) _ round planned)

private theorem packagesFit_header (head data : Buffer Byte) (size : Nat) :
    PackagesFit [.fileHeader head data] size := by
  intro thread fresh run steps
  have silent : run.packages = [] ∧ run.thread.phase = .extract ∧
      (run.thread.ringBuffer = [.fileHeader head data] ∨ run.thread.ringBuffer = []) := by
    induction steps with
    | refl => exact ⟨rfl, fresh.phase, .inl fresh.ringBuffer⟩
    | tail _ step induction =>
        rcases induction with ⟨sent, phase, ring⟩
        cases step with
        | extract _ next =>
            rcases ring with same | empty
            · cases same.symm.trans next
              refine ⟨?_, phase, .inr rfl⟩
              rw [ThreadRun.packages, List.filterMap_append]
              exact List.append_eq_nil_iff.mpr ⟨sent, rfl⟩
            · cases empty.symm.trans next
        | getStatus waiting _ => cases phase.symm.trans waiting
  intro package member
  rw [silent.1] at member
  cases member

/-! ## Windows -/

theorem exists_window {α β : Type} {related : α → β → Prop} {first : List α} {second : List β}
    (pairs : List.Forall₂ related first second) {window : List β}
    (consecutive : window <:+: second) :
    ∃ other, other <:+: first ∧ List.Forall₂ related other window := by
  rcases consecutive with ⟨before, after, same⟩
  have cut : (second.drop before.length).take window.length = window := by
    rw [← same, List.append_assoc, List.drop_left, List.take_left]
  refine ⟨(first.drop before.length).take window.length, ?_, ?_⟩
  · exact (List.take_prefix _ _).isInfix.trans (List.drop_suffix _ _).isInfix
  · have parts := List.forall₂_take window.length (List.forall₂_drop before.length pairs)
    rwa [cut] at parts

private theorem flatten_consecutive {α : Type} {window lists : List (List α)}
    (consecutive : window <:+: lists) : window.flatten <:+: lists.flatten := by
  rcases consecutive with ⟨before, after, same⟩
  refine ⟨before.flatten, after.flatten, ?_⟩
  rw [← same, List.flatten_append, List.flatten_append]

/-! ## The data port -/

namespace CloudUpload

variable {openssl : OpenSSL} {securetype : SecureType} {gf : GaloisField}
variable {codec : CDCodec gf (openssl.cryptoPrimitive securetype.cryptoType)}
variable {content : List Byte} (upload : CloudUpload codec content)

section Data

variable (caontRS : codec.type = .caontRS)

include caontRS

private theorem dataObjects_sizes : List.Forall₂
    (fun (secret : Secret) (share : ShareObject) =>
      secret.data.length ≤ share.data.length * codec.k)
    upload.secrets upload.dataObjects := by
  have encoded := upload.encoded
  rw [← withMemory_fst upload.memory upload.chunks, List.forall₂_map_right_iff] at encoded
  rw [dataObjects, shareObjects, List.forall₂_map_right_iff]
  refine encoded.imp ?_
  intro secret item encodedAs
  rw [shareObject_length _ _ encodedAs.holdsShares upload.listed]
  exact encodedAs.data_le caontRS

omit caontRS in
private theorem sum_sizes_le {secrets : List Secret} {shares : List ShareObject} {parts : Nat}
    (sizes : List.Forall₂ (fun (secret : Secret) (share : ShareObject) =>
      secret.data.length ≤ share.data.length * parts) secrets shares) :
    ((secrets.map Secret.data).map List.length).sum ≤ (shareData shares).length * parts := by
  induction sizes with
  | nil => exact Nat.zero_le _
  | @cons secret share secrets shares first _ induction =>
      rw [List.map_cons, List.map_cons, List.sum_cons, shareData_cons, List.length_append,
        Nat.add_mul]
      omega

private theorem dataObjects_round (few : codec.k ≤ 11) {round : List ShareObject}
    (consecutive : round <:+: upload.dataObjects) (fits : RoundFits round) :
    round.length ≤ 45058 := by
  rcases fits with small | single
  · rcases exists_window (upload.dataObjects_sizes caontRS) consecutive with
      ⟨secrets, window, sizes⟩
    have chunks : secrets.map Secret.data <:+: fileChunks defaultChunker content := by
      rw [← emitted_data upload.added]
      exact window.map _
    have count := fileChunks_window default_min_pos (by decide) chunks
    have bytes := sum_sizes_le sizes
    have parts : (shareData round).length * codec.k ≤ uploadBufferSize * 11 :=
      Nat.mul_le_mul small few
    rw [List.length_map, sizes.length_eq] at count
    rw [uploadBufferSize] at parts
    change 2048 * _ ≤ _ + 2 * 2048 at count
    omega
  · omega

end Data

/-! ## The metadata port -/

variable {segments : List (List DataShare)}

def containerRecords : Nat := uploadBufferSize / metaNodeSize

/-- The number of shares among as many consecutive ones that may match the pattern: the
entries that fit behind a head and the longest share of a name, without those for the at most
512 segments that are cut because they are large and the one at the end of the file. -/
def matchLimit : Nat :=
  (metaLen - fileShareMDHeadSize - (secretSize + 64)) / shareMDEntrySize - 513

/-- Not too many of consecutive shares match the pattern. -/
def SparseMatches (shares : List DataShare) : Prop :=
  ∀ window, window <:+: shares → window.length ≤ containerRecords →
    window.countP (fun share => matchesPattern share.node.shareFP) ≤ matchLimit

private theorem length_of_large {segment : List DataShare}
    (bounded : ∀ share ∈ segment, share.node.shareSize.toNat ≤ secretSize + 64)
    (large : maxSegmentSize < segmentTotal segment) : 128 ≤ segment.length := by
  have total := List.sum_le_card_nsmul (segment.map fun share => share.node.shareSize.toNat)
    (secretSize + 64) (by
      intro size member
      rcases List.mem_map.mp member with ⟨share, listed, rfl⟩
      exact bounded share listed)
  rw [List.length_map, smul_eq_mul] at total
  rw [segmentTotal] at large
  rw [secretSize] at total
  rw [maxSegmentSize] at large
  omega

private theorem segments_count (closed : ∀ segment ∈ segments, Closed segment)
    (bounded : ∀ share ∈ segments.flatten, share.node.shareSize.toNat ≤ secretSize + 64) :
    128 * segments.length ≤
      128 * segments.flatten.countP (fun share => matchesPattern share.node.shareFP) +
        segments.flatten.length + 128 * segments.flatten.countP DataShare.isEnd := by
  induction segments with
  | nil => exact Nat.zero_le _
  | cons segment segments induction =>
      rcases List.forall_mem_cons.mp closed with ⟨first, rest⟩
      rw [List.flatten_cons] at bounded
      have others := induction rest fun share member =>
        bounded share (List.mem_append_right _ member)
      have here : 128 ≤ 128 * segment.countP (fun share => matchesPattern share.node.shareFP) +
          segment.length + 128 * segment.countP DataShare.isEnd := by
        rcases first with matched | large | isEnd
        · have positive := List.countP_pos_iff.mpr matched
          omega
        · have length := length_of_large
            (fun share member => bounded share (List.mem_append_left _ member)) large
          omega
        · have positive := List.countP_pos_iff.mpr isEnd
          omega
      rw [List.flatten_cons, List.countP_append, List.countP_append, List.length_append,
        List.length_cons]
      omega

private theorem segments_length_le (closed : ∀ segment ∈ segments, Closed segment) :
    segments.length ≤ segments.flatten.length := by
  rw [List.length_flatten, ← List.length_map (f := List.length)]
  apply List.length_le_sum_of_one_le
  intro size member
  rcases List.mem_map.mp member with ⟨segment, listed, rfl⟩
  rw [Nat.one_le_iff_ne_zero, Ne, List.length_eq_zero_iff]
  rintro rfl
  rcases closed [] listed with ⟨share, none, _⟩ | large | ⟨share, none, _⟩
  · cases none
  · cases large
  · cases none

theorem shares_length :
    (upload.shares.map Prod.fst).length = (fileChunks defaultChunker content).length := by
  rw [← upload.chunks_length, List.length_map, shares, dataShares, List.length_map, withMemory,
    List.length_map, List.length_zipIdx]

private theorem shares_end (nonempty : content ≠ []) :
    (upload.shares.map Prod.fst).countP DataShare.isEnd = 1 := by
  have marks := upload.chunks_marks nonempty
  rw [← dataShares_isEnd upload.cloud upload.memory] at marks
  have once := marks.count
  rw [List.count_eq_countP, List.countP_map] at once
  rw [List.countP_map]
  exact Eq.trans (List.countP_congr fun item _ => by simp) once

section Metadata

variable (caontRS : codec.type = .caontRS) (nonempty : content ≠ [])

include caontRS

private theorem exists_segments : ∃ segments : List (List DataShare),
    segments.flatten <+: upload.shares.map Prod.fst ∧
    (∀ segment ∈ segments, Closed segment) ∧
    List.Forall₂ (fun (segment : List DataShare) (share : ShareObject) =>
      share.data.length = segment.length * metaNodeSize) segments upload.metaObjects := by
  have small := smallShare_of_encoded caontRS upload.encoded upload.cloud upload.memory
  have counts : upload.collection.Counts _ := fileCollection_counts _ _ _ _
  rcases exists_partition (openssl.cryptoPrimitive securetype.cryptoType)
    upload.metaChunkBuffer small with ⟨segments, segment, partition⟩
  refine ⟨segments, ⟨segment, partition.joined⟩, partition.closed, ?_⟩
  have lengths : upload.metaObjects.map (fun share => share.data.length) =
      segments.map fun segment => segment.length * metaNodeSize := by
    refine Eq.trans ?_ partition.sizes
    rw [metaObjects, List.map_map]
    apply List.map_congr_left
    intro chunk listed
    exact (MetaChunk.shareObject_length chunk).trans (counts.sizes chunk listed).1
  rw [← List.forall₂_eq_eq_eq, List.forall₂_map_left_iff, List.forall₂_map_right_iff] at lengths
  exact lengths.flip

variable {round : List ShareObject}

theorem exists_round_segments (consecutive : round <:+: upload.metaObjects) :
    ∃ segments : List (List DataShare),
      segments.flatten <:+: upload.shares.map Prod.fst ∧
      (∀ segment ∈ segments, Closed segment) ∧ segments.length = round.length ∧
      (shareData round).length = segments.flatten.length * metaNodeSize := by
  rcases upload.exists_segments caontRS with ⟨all, joined, closed, pairs⟩
  rcases exists_window pairs consecutive with ⟨segments, window, sizes⟩
  refine ⟨segments, (flatten_consecutive window).trans joined.isInfix,
    fun segment member => closed segment (window.subset member), sizes.length_eq, ?_⟩
  clear window consecutive
  induction sizes with
  | nil => rfl
  | @cons segment share segments shares first _ induction =>
      rw [shareData_cons, List.length_append, List.flatten_cons, List.length_append, Nat.add_mul,
        induction, first]

private theorem metaObjects_round (consecutive : round <:+: upload.metaObjects)
    (fits : RoundFits round) : round.length ≤ containerRecords := by
  rcases fits with small | single
  · rcases upload.exists_round_segments caontRS consecutive with
      ⟨segments, _, closed, length, bytes⟩
    have count := segments_length_le closed
    rw [bytes, uploadBufferSize, metaNodeSize] at small
    rw [containerRecords, uploadBufferSize, metaNodeSize]
    omega
  · exact single.trans (by decide)

include nonempty

private theorem metaObjects_round_sparse (sparse : SparseMatches (upload.shares.map Prod.fst))
    (consecutive : round <:+: upload.metaObjects)
    (fits : RoundFits round) : round.length ≤ matchLimit + 513 := by
  rcases fits with small | single
  · rcases upload.exists_round_segments caontRS consecutive with
      ⟨segments, window, closed, length, bytes⟩
    rw [bytes, uploadBufferSize, metaNodeSize] at small
    have few : segments.flatten.length ≤ containerRecords := by
      rw [containerRecords, uploadBufferSize, metaNodeSize]
      omega
    have matched := sparse _ window few
    have ended := window.sublist.countP_le (p := DataShare.isEnd)
    rw [upload.shares_end nonempty] at ended
    have bounded : ∀ share ∈ segments.flatten,
        share.node.shareSize.toNat ≤ secretSize + 64 := by
      intro share member
      rcases List.mem_map.mp (window.subset member) with ⟨item, listed, rfl⟩
      exact (shareSize_bounds caontRS upload.encoded upload.cloud upload.memory item listed).2
    have count := segments_count closed bounded
    rw [containerRecords, uploadBufferSize, metaNodeSize] at few
    omega
  · exact single.trans (by decide)

end Metadata

/-! ## All packages -/

private theorem packagesFit_of_rounds (caontRS : codec.type = .caontRS) {queue : FileQueue}
    {items : List Item} {shares : List ShareObject} (queues : upload.Queues queue items shares)
    {limit size : Nat}
    (rounds : ∀ round, round <:+: shares → RoundFits round → round.length ≤ limit)
    (fits : fileShareMDHeadSize + (secretSize + 64) + shareMDEntrySize * limit ≤ size) :
    PackagesFit items size := by
  rw [← queues.items]
  apply FileQueue.packagesFit
  intro round consecutive small
  rw [queues.shares] at consecutive
  have name := upload.name_length caontRS
  have entries : shareMDEntrySize * round.length ≤ shareMDEntrySize * limit :=
    Nat.mul_le_mul_left _ (rounds round consecutive small)
  rw [queues.name, entryAt]
  omega

private theorem packagesFit_of_empty (empty : content = []) (size : Nat) :
    PackagesFit upload.dataQueue size ∧ PackagesFit upload.metaQueue size := by
  have none : upload.chunks = [] := by
    rw [← List.length_eq_zero_iff, upload.chunks_length, empty]
    rfl
  rw [dataQueue, metaQueue, output, none]
  constructor
  · rw [CloudOutput.dataQueue_file]
    exact packagesFit_header _ _ size
  · rw [CloudOutput.metaQueue_file]
    exact packagesFit_header _ _ size

end CloudUpload

/-- The packages on the data port fit into the buffers of both sides, and those on the
metadata port into the buffer of the client. They fit into the buffer of the server, too,
if of any 65536 consecutive shares of the cloud at most 46774 match the pattern. -/
theorem packages_fit {openssl : OpenSSL} {securetype : SecureType} {gf : GaloisField}
    {codec : CDCodec gf (openssl.cryptoPrimitive securetype.cryptoType)}
    (caontRS : codec.type = .caontRS) (few : codec.k ≤ 11) {content : List Byte}
    (upload : CloudUpload codec content) :
    PackagesFit upload.dataQueue metaLen ∧ PackagesFit upload.dataQueue uploadBufferSize ∧
      PackagesFit upload.metaQueue uploadBufferSize ∧
      (CloudUpload.SparseMatches (upload.shares.map Prod.fst) →
        PackagesFit upload.metaQueue metaLen) := by
  by_cases empty : content = []
  · exact ⟨(upload.packagesFit_of_empty empty _).1, (upload.packagesFit_of_empty empty _).1,
      (upload.packagesFit_of_empty empty _).2, fun _ => (upload.packagesFit_of_empty empty _).2⟩
  rcases upload.exists_dataQueue caontRS empty with ⟨dataQueue, data⟩
  rcases upload.exists_metaQueue caontRS empty with ⟨metaQueue, metadata⟩
  have dataRounds : ∀ round, round <:+: upload.dataObjects → RoundFits round → _ :=
    fun _ => upload.dataObjects_round caontRS few
  have metaRounds : ∀ round, round <:+: upload.metaObjects → RoundFits round → _ :=
    fun _ => upload.metaObjects_round caontRS
  refine ⟨?_, ?_, ?_, ?_⟩
  · exact upload.packagesFit_of_rounds caontRS data dataRounds (by decide)
  · exact upload.packagesFit_of_rounds caontRS data dataRounds (by decide)
  · exact upload.packagesFit_of_rounds caontRS metadata metaRounds (by decide)
  · intro sparse
    have sparseRounds : ∀ round, round <:+: upload.metaObjects → RoundFits round → _ :=
      fun _ => upload.metaObjects_round_sparse caontRS empty sparse
    exact upload.packagesFit_of_rounds caontRS metadata sparseRounds (by decide)

/-- A file of two chunks has two shares for each cloud. -/
theorem packages_fit_twoChunks :
    ∃ upload : CloudUpload plainCodec (zeroFile 2),
      CloudUpload.SparseMatches (upload.shares.map Prod.fst) ∧
      PackagesFit upload.dataQueue metaLen ∧ PackagesFit upload.metaQueue metaLen := by
  rcases CloudUpload.exists_upload plainCodec (zeroFile 2) (show 0 < 4 by decide) with
    ⟨upload, _⟩
  have two : (upload.shares.map Prod.fst).length = 2 := by
    rw [upload.shares_length, zeroFile, fileChunks_zero default_min_pos (by decide) (by decide),
      List.length_replicate]
  have sparse : CloudUpload.SparseMatches (upload.shares.map Prod.fst) := by
    intro window consecutive _
    have length := consecutive.length_le
    rw [two] at length
    exact (List.countP_le_length.trans length).trans (by decide)
  have fits := packages_fit rfl (by decide) upload
  exact ⟨upload, sparse, fits.1, fits.2.2.2 sparse⟩

/-! ## Repetitive files -/

private theorem packRounds_single {left : List ShareObject}
    (fits : (shareData (placed ++ left)).length ≤ uploadBufferSize) :
    packRounds placed left = [placed ++ left] := by
  induction left generalizing placed with
  | nil => rw [packRounds, List.append_nil]
  | cons share left induction =>
      have small : ¬share.data.length + (shareData placed).length > uploadBufferSize := by
        have split : shareData (placed ++ share :: left) =
            shareData placed ++ (share.data ++ shareData left) := by
          simp [shareData]
        rw [split, List.length_append, List.length_append] at fits
        omega
      rw [List.append_cons] at fits ⊢
      rw [packRounds, if_neg small, induction fits]

private theorem addAll_matched (crypto : CryptoPrimitive) {collection : Collection}
    {items : List (DataShare × StackMemory)}
    (matched : ∀ item ∈ items, matchesPattern item.1.node.shareFP = true) :
    (collection.addAll crypto items).chunks.length =
      collection.chunks.length + items.length := by
  induction items generalizing collection with
  | nil => rfl
  | cons item items induction =>
      rcases List.forall_mem_cons.mp matched with ⟨first, rest⟩
      have cuts : (collection.collector.addNode item.1.node).cutsAfter item.1 = true := by
        rw [Collector.cutsAfter, first, Bool.true_or, Bool.true_or]
      have one : (collection.add crypto item).chunks.length = collection.chunks.length + 1 := by
        rw [← Prod.mk.eta (p := item), Collection.add_eq]
        dsimp only
        rw [if_pos cuts, List.length_append, List.length_singleton]
      have others : ((collection.add crypto item).addAll crypto items).chunks.length = _ :=
        induction rest
      rw [one] at others
      rw [List.length_cons, Nat.add_comm items.length, ← Nat.add_assoc]
      exact others

theorem FileQueue.not_packagesFit {queue : FileQueue} {size : Nat}
    (fits : (shareData queue.shares).length ≤ uploadBufferSize)
    (large : size < entryAt queue.name queue.shares.length) : ¬PackagesFit queue.items size := by
  intro packagesFit
  rcases exists_fresh queue.items with ⟨thread, fresh⟩
  rcases @ThreadRun.exists_exit ⟨thread, []⟩ fresh.phase _ fresh.ringBuffer queue.items_end with
    ⟨final, run, exits⟩
  have announced := ((invariant_start fresh.begins).run run).announced_all exits
  have single : planRounds queue.shares = [queue.shares] := packRounds_single fits
  rw [single] at announced
  have small := packagesFit thread fresh final run
  generalize final.packages = packages at announced small
  cases announced with
  | cons first _ =>
      have length := small _ List.mem_cons_self
      rw [first.size] at length
      omega

private theorem zeroFile_chunks : (fileChunks defaultChunker (zeroFile 48000)).length = 48000 := by
  rw [zeroFile, fileChunks_zero default_min_pos (by decide) (by decide), List.length_replicate]

/-- A file of 48000 equal chunks of 2 KiB whose shares match the pattern: the metadata
thread of the first cloud sends a package that does not fit into the buffer of the
server. -/
theorem package_too_large :
    ∃ upload : CloudUpload matchingCodec (zeroFile 48000),
      upload.cloud = 0 ∧ ¬PackagesFit upload.metaQueue metaLen := by
  rcases CloudUpload.exists_upload matchingCodec (zeroFile 48000) (show 0 < 4 by decide) with
    ⟨upload, first⟩
  refine ⟨upload, first, ?_⟩
  have number := upload.shares_length
  rw [zeroFile_chunks] at number
  have matched := dataShares_matchesPattern upload.listed matching_matched upload.encoded
    upload.memory
  have length : upload.metaObjects.length = 48000 := by
    have cut : upload.collection.chunks.length = 0 + upload.shares.length :=
      addAll_matched _ matched
    rw [CloudUpload.metaObjects, List.length_map, cut, Nat.zero_add,
      ← List.length_map (f := Prod.fst), number]
  have fits : (shareData upload.metaObjects).length ≤ uploadBufferSize := by
    rcases upload.exists_round_segments rfl List.infix_rfl with ⟨segments, window, _, _, bytes⟩
    have records := window.length_le
    rw [bytes, uploadBufferSize, metaNodeSize]
    omega
  rcases upload.exists_metaQueue rfl (zeroFile_ne_nil (by decide)) with ⟨queue, queues⟩
  rw [← queues.items]
  rw [← queues.shares] at fits length
  apply FileQueue.not_packagesFit fits
  rw [length, entryAt, metaLen, shareMDEntrySize]
  omega

end MetaDedup.Upload
