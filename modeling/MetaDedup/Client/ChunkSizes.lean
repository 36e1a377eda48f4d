import MetaDedup.Client.UploadLoop

/-! # How many chunks there are

All chunks of a block but the last are at least as large as the smallest chunk, and all
blocks of a file but the last are much larger than that. So consecutive chunks of a file
cannot be many and small. -/

namespace MetaDedup.UploadLoop

open Foundation
open Chunker (defaultChunker)

/-! ## Sizes -/

def Large (limit : Nat) (sizes : List Nat) : Prop := ∀ size ∈ sizes.dropLast, limit ≤ size

section Sizes

variable {limit : Nat} {sizes window : List Nat}

theorem Large.tail {first : Nat} (large : Large limit (first :: sizes)) :
    Large limit sizes := by
  cases sizes with
  | nil => exact fun size member => by cases member
  | cons second rest =>
      intro size member
      apply large
      rw [List.dropLast_cons_cons]
      exact List.mem_cons_of_mem _ member

theorem Large.suffix (large : Large limit sizes) (ends : window <:+ sizes) :
    Large limit window := by
  rcases ends with ⟨before, same⟩
  subst same
  induction before with
  | nil => exact large
  | cons first before induction => exact induction large.tail

theorem Large.initial (large : Large limit sizes) (begins : window <+: sizes) :
    Large limit window := by
  rcases begins with ⟨after, same⟩
  subst same
  intro size member
  apply large
  cases after with
  | nil => rwa [List.append_nil]
  | cons next after =>
      rw [List.dropLast_append_cons]
      exact List.mem_append_left _ (List.dropLast_subset _ member)

theorem Large.count (large : Large limit sizes) :
    limit * sizes.length ≤ sizes.sum + limit := by
  induction sizes with
  | nil => exact Nat.zero_le _
  | cons first rest induction =>
      have others := induction large.tail
      rw [List.length_cons, List.sum_cons, Nat.mul_succ]
      cases rest with
      | nil =>
          rw [List.length_nil, Nat.mul_zero]
          omega
      | cons second rest =>
          have reached : limit ≤ first := large first (by simp)
          omega

structure BlockSizes (limit : Nat) (blocks : List (List Nat)) : Prop where
  large : ∀ block ∈ blocks, Large limit block
  full : Large limit (blocks.map List.sum)

variable {blocks : List (List Nat)}

theorem BlockSizes.tail {block : List Nat}
    (holds : BlockSizes limit (block :: blocks)) : BlockSizes limit blocks :=
  ⟨fun other member => holds.large other (List.mem_cons_of_mem _ member), holds.full.tail⟩

theorem BlockSizes.first_count {block : List Nat}
    (holds : BlockSizes limit (block :: blocks)) (followed : blocks ≠ []) :
    limit * block.length ≤ 2 * block.sum := by
  have few := (holds.large block List.mem_cons_self).count
  have reached : limit ≤ block.sum := by
    apply holds.full
    rw [List.map_cons, List.dropLast_cons_of_ne_nil (mt List.map_eq_nil_iff.mp followed)]
    exact List.mem_cons_self
  omega

theorem BlockSizes.count_initial (holds : BlockSizes limit blocks)
    (begins : window <+: blocks.flatten) :
    limit * window.length ≤ 2 * window.sum + limit := by
  induction blocks generalizing window with
  | nil =>
      rw [List.prefix_nil.mp begins]
      exact Nat.zero_le _
  | cons block blocks induction =>
      rcases begins with ⟨after, same⟩
      rw [List.flatten_cons] at same
      rcases List.append_eq_append_iff.mp same with ⟨rest, inside, _⟩ | ⟨later, split, follows⟩
      · have few := ((holds.large block List.mem_cons_self).initial ⟨rest, inside.symm⟩).count
        omega
      · by_cases followed : blocks = []
        · have few := (holds.large block List.mem_cons_self).count
          rw [followed, List.flatten_nil] at follows
          have none : later = [] := (List.append_eq_nil_iff.mp follows.symm).1
          rw [split, none, List.append_nil]
          omega
        · have first := holds.first_count followed
          have others := induction holds.tail ⟨after, follows.symm⟩
          rw [split, List.length_append, List.sum_append, Nat.mul_add]
          omega

theorem BlockSizes.count (holds : BlockSizes limit blocks)
    (consecutive : window <:+: blocks.flatten) :
    limit * window.length ≤ 2 * window.sum + 2 * limit := by
  induction blocks with
  | nil =>
      rw [List.infix_nil.mp consecutive]
      exact Nat.zero_le _
  | cons block blocks induction =>
      rcases consecutive with ⟨before, after, same⟩
      rw [List.flatten_cons, List.append_assoc] at same
      rcases List.append_eq_append_iff.mp same with ⟨rest, inside, follows⟩ | ⟨skipped, _, split⟩
      · -- The window begins in the first block.
        have ends := (holds.large block List.mem_cons_self).suffix ⟨before, inside.symm⟩
        rcases List.append_eq_append_iff.mp follows with ⟨left, short, _⟩ | ⟨later, long, next⟩
        · have few := (ends.initial ⟨left, short.symm⟩).count
          omega
        · have few := ends.count
          have others := holds.tail.count_initial ⟨after, next.symm⟩
          rw [long, List.length_append, List.sum_append, Nat.mul_add]
          omega
      · exact induction holds.tail ⟨skipped, after, by rw [split, List.append_assoc]⟩

end Sizes

/-! ## The chunks of a file -/

section File

variable {chunker : Chunker} (positive : 0 < chunker.minChunkSize)

def blockSizes (chunker : Chunker) (content : List Byte) : List (List Nat) :=
  (fileBlocks content).map fun block => (blockChunks chunker block).map List.length

private theorem blockSizes_flatten (content : List Byte) :
    (blockSizes chunker content).flatten = (fileChunks chunker content).map List.length := by
  rw [blockSizes, fileChunks, ← List.flatMap_def, List.map_flatMap]

private theorem splitBlocks_full (fuel : Nat) (content : List Byte) :
    Large bufferSize ((splitBlocks fuel content).map List.length) := by
  induction fuel generalizing content with
  | zero => exact fun size member => by cases member
  | succ fuel induction =>
      rw [splitBlocks]
      split
      · exact fun size member => by cases member
      · intro size member
        rw [List.map_cons] at member
        by_cases followed : (splitBlocks fuel (content.drop bufferSize)).map List.length = []
        · rw [followed] at member
          cases member
        · rw [List.dropLast_cons_of_ne_nil followed] at member
          rcases List.mem_cons.mp member with same | later
          · rw [same, List.length_take]
            by_contra short
            have none : content.drop bufferSize = [] := List.drop_eq_nil_of_le (by omega)
            rw [none, splitBlocks_nil] at followed
            exact followed rfl
          · exact induction _ size later

include positive

theorem blockChunks_large {block : List Byte} (nonempty : block ≠ []) :
    Large chunker.minChunkSize ((blockChunks chunker block).map List.length) := by
  intro size member
  rw [← List.map_dropLast] at member
  rcases List.mem_map.mp member with ⟨chunk, listed, rfl⟩
  exact cutAt_large (blockEnds_boundaries positive nonempty) chunk listed

private theorem blockSizes_holds (bounded : chunker.minChunkSize ≤ bufferSize)
    (content : List Byte) :
    BlockSizes chunker.minChunkSize (blockSizes chunker content) := by
  constructor
  · intro sizes member
    rcases List.mem_map.mp member with ⟨block, listed, rfl⟩
    exact blockChunks_large positive (splitBlocks_ne_nil _ _ block listed)
  · have sums : (blockSizes chunker content).map List.sum =
        (fileBlocks content).map List.length := by
      rw [blockSizes, List.map_map]
      apply List.map_congr_left
      intro block listed
      rw [Function.comp_apply, ← List.length_flatten,
        blockChunks_flatten positive (splitBlocks_ne_nil _ _ block listed)]
    rw [sums]
    exact fun size member => bounded.trans (splitBlocks_full _ _ size member)

theorem fileChunks_window (bounded : chunker.minChunkSize ≤ bufferSize) {content : List Byte}
    {window : List (List Byte)} (consecutive : window <:+: fileChunks chunker content) :
    chunker.minChunkSize * window.length ≤
      2 * (window.map List.length).sum + 2 * chunker.minChunkSize := by
  have sizes : window.map List.length <:+: (blockSizes chunker content).flatten := by
    rw [blockSizes_flatten]
    exact consecutive.map _
  have few := (blockSizes_holds positive bounded content).count sizes
  rwa [List.length_map] at few

theorem fileChunks_length_le (bounded : chunker.minChunkSize ≤ bufferSize)
    (content : List Byte) :
    chunker.minChunkSize * (fileChunks chunker content).length ≤
      2 * content.length + 2 * chunker.minChunkSize := by
  have window := fileChunks_window positive bounded
    (List.infix_rfl : fileChunks chunker content <:+: _)
  rwa [← List.length_flatten, fileChunks_flatten positive] at window

theorem fileChunks_short {content : List Byte} (nonempty : content ≠ [])
    (short : content.length ≤ chunker.minChunkSize)
    (bounded : chunker.minChunkSize ≤ bufferSize) : fileChunks chunker content = [content] := by
  have whole := blockChunks_flatten positive nonempty
  have sizes := blockChunks_sizes positive nonempty
  have large := blockChunks_large positive nonempty
  rw [fileChunks, fileBlocks_single nonempty (short.trans bounded), List.flatMap_singleton]
  cases chunks : blockChunks chunker content with
  | nil =>
      rw [chunks] at whole
      exact absurd whole.symm nonempty
  | cons first rest =>
      rw [chunks] at whole sizes large
      cases rest with
      | nil => rw [← whole, List.flatten_singleton]
      | cons second rest =>
          have reached : chunker.minChunkSize ≤ first.length := large first.length (by simp)
          have filled := (sizes second (by simp)).1
          rw [← whole, List.flatten_cons, List.flatten_cons, List.length_append,
            List.length_append] at short
          omega

end File

end MetaDedup.UploadLoop
