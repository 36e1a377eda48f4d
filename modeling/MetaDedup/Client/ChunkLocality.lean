import MetaDedup.Client.ChunkBoundaries

/-! # Chunk boundaries are local

The window never looks behind the chunk it is in, so that a boundary depends only on
the bytes after the one before it. Chunking what follows a boundary gives the same
boundaries, and a change of a buffer leaves the boundaries in front of it alone. -/

namespace MetaDedup.Chunker

open Foundation

variable {chunker : Chunker} {buffer other : Buffer Byte} {bufferSize otherSize : Nat}

/-! ## Windows -/

theorem windowHash_congr {last otherLast : Nat}
    (same : ∀ index < chunker.slidingWinSize,
      buffer (last - index) = other (otherLast - index)) :
    chunker.windowHash buffer last = chunker.windowHash other otherLast := by
  rw [windowHash, windowHash]
  congr 1
  apply Finset.sum_congr rfl
  intro index member
  rw [same index (Finset.mem_range.mp member)]

private theorem anchor_advance {offset : Nat} {index : Int}
    (inside : chunker.slidingWinSize ≤ index + 1) :
    chunker.Anchor (buffer.advance offset) index ↔
      chunker.Anchor buffer (index + offset) := by
  rw [Anchor, Anchor, windowHash_congr]
  intro position bounded
  rw [Buffer.advance_apply]
  congr 1
  omega

theorem anchor_congr {common : Nat} (agree : ∀ position < common, buffer position = other position)
    {index : Int} (inside : index < common) (natural : 0 ≤ index) :
    chunker.Anchor buffer index ↔ chunker.Anchor other index := by
  rw [Anchor, Anchor, windowHash_congr]
  intro position _
  exact agree _ (by omega)

/-! ## What follows a boundary -/

section Suffix

variable (window : chunker.slidingWinSize ≤ chunker.minChunkSize) {offset : Nat}
  (whole : bufferSize = otherSize + offset)

include window whole

theorem NextEnd.advance {previous next : Int} (begun : -1 ≤ previous)
    (first : chunker.NextEnd (buffer.advance offset) otherSize previous next) :
    chunker.NextEnd buffer bufferSize (previous + offset) (next + offset) := by
  have limit : chunker.upperLimit bufferSize (previous + offset) =
      chunker.upperLimit otherSize previous + offset := by
    rw [upperLimit, upperLimit]
    omega
  have lower := first.lower
  have upper := first.upper
  refine ⟨by omega, by omega, ?_, ?_⟩
  · intro earlier after before
    have same : chunker.Anchor (buffer.advance offset) (earlier - offset) ↔
        chunker.Anchor buffer (earlier - offset + offset) := anchor_advance (by omega)
    rw [Int.sub_add_cancel] at same
    rw [← same]
    exact first.least _ (by omega) (by omega)
  · rcases first.reason with anchor | last
    · exact .inl ((anchor_advance (by omega)).mp anchor)
    · exact .inr (by omega)

theorem Boundaries.advance {previous : Int} {ends : List Int} (begun : -1 ≤ previous)
    (boundaries : chunker.Boundaries (buffer.advance offset) otherSize previous ends) :
    chunker.Boundaries buffer bufferSize (previous + offset) (ends.map (· + (offset : Int))) := by
  induction boundaries with
  | next room first _ induction =>
      have lower := first.lower
      exact .next (by omega) (first.advance window whole begun) (induction (by omega))
  | complete full last => exact .complete (by omega) (by omega)
  | @tail previous full unfinished =>
      have last : (otherSize : Int) - 1 + offset = bufferSize - 1 := by omega
      rw [List.map_singleton, last]
      exact .tail (by omega) (by omega)

end Suffix

theorem Boundaries.after (positive : 0 < chunker.minChunkSize) {previous : Int}
    {ends : List Int} (boundaries : chunker.Boundaries buffer bufferSize previous ends)
    {boundary : Int} (member : boundary ∈ ends) :
    chunker.Boundaries buffer bufferSize boundary
      (ends.filter fun last => boundary < last) := by
  induction boundaries with
  | @next previous next ends room first rest induction =>
      have later := rest.mem_gt positive (first.upper.trans (min_le_right _ _))
      rcases List.mem_cons.mp member with same | found
      · have all : ends.filter (fun last => decide (boundary < last)) = ends := by
          rw [List.filter_eq_self]
          intro last listed
          rw [same]
          exact decide_eq_true (later last listed)
        rw [List.filter_cons, if_neg (by simp [same]), all, same]
        exact rest
      · have behind := later boundary found
        have skipped : decide (boundary < next) = false := decide_eq_false (by omega)
        rw [List.filter_cons, skipped]
        exact induction found
  | complete => cases member
  | tail full unfinished =>
      have same := List.mem_singleton.mp member
      have none : [(bufferSize - 1 : Int)].filter (fun last => decide (boundary < last)) = [] := by
        rw [same]
        simp
      rw [none]
      exact .complete (by omega) same

/-! ## Two buffers -/

section Common

variable {common : Nat} (agree : ∀ position < common, buffer position = other position)
  (positive : 0 < chunker.minChunkSize) (shorter : common ≤ otherSize)

include agree positive shorter

theorem NextEnd.congr {previous next : Int} (begun : -1 ≤ previous) (inside : next < common)
    (notLast : next ≠ bufferSize - 1)
    (first : chunker.NextEnd buffer bufferSize previous next) :
    chunker.NextEnd other otherSize previous next := by
  have lower := first.lower
  have upper := first.upper
  rw [upperLimit] at upper
  refine ⟨lower, ?_, ?_, ?_⟩
  · rw [upperLimit]
    omega
  · intro earlier after before
    rw [← anchor_congr agree (by omega) (by omega)]
    exact first.least earlier after before
  · rcases first.reason with anchor | last
    · exact .inl ((anchor_congr agree inside (by omega)).mp anchor)
    · refine .inr ?_
      rw [upperLimit] at last ⊢
      omega

theorem Boundaries.mem_of_agree {previous : Int} {ends others : List Int}
    (begun : -1 ≤ previous) (boundaries : chunker.Boundaries buffer bufferSize previous ends)
    (second : chunker.Boundaries other otherSize previous others) {last : Int}
    (member : last ∈ ends) (inside : last < common) (notLast : last ≠ bufferSize - 1) :
    last ∈ others := by
  induction boundaries generalizing others with
  | @next previous next ends room first rest induction =>
      have lower := first.lower
      have upper : next ≤ bufferSize - 1 := first.upper.trans (min_le_right _ _)
      have reached : next ≤ last := by
        rcases List.mem_cons.mp member with same | later
        · omega
        · exact (rest.mem_gt positive upper last later).le
      have bound : last ≤ bufferSize - 1 := by
        rcases List.mem_cons.mp member with same | later
        · omega
        · exact rest.mem_le last later
      have found := first.congr agree positive shorter begun (by omega) (by omega)
      cases second with
      | next _ again others =>
          cases found.unique again
          rcases List.mem_cons.mp member with same | later
          · rw [same]
            exact List.mem_cons_self
          · exact List.mem_cons_of_mem _ (induction (by omega) others later)
      | complete full => omega
      | tail full => omega
  | complete => cases member
  | tail => exact absurd (List.mem_singleton.mp member) notLast

end Common

theorem Boundaries.congr (positive : 0 < chunker.minChunkSize)
    (agree : ∀ position < bufferSize, buffer position = other position) {previous : Int}
    {ends : List Int} (begun : -1 ≤ previous)
    (boundaries : chunker.Boundaries buffer bufferSize previous ends) :
    chunker.Boundaries other bufferSize previous ends := by
  induction boundaries with
  | next room first _ induction =>
      have lower := first.lower
      have upper := first.upper.trans (min_le_right _ _)
      refine .next room ⟨lower, first.upper, ?_, ?_⟩ (induction (by omega))
      · intro earlier after before
        rw [← anchor_congr agree (by omega) (by omega)]
        exact first.least earlier after before
      · rw [← anchor_congr agree (by omega) (by omega)]
        exact first.reason
  | complete full last => exact .complete full last
  | tail full unfinished => exact .tail full unfinished

theorem varSizeChunking_congr (positive : 0 < chunker.minChunkSize)
    (agree : ∀ position < bufferSize, buffer position = other position)
    (nonempty : 1 ≤ bufferSize) :
    chunker.varSizeChunking buffer bufferSize = chunker.varSizeChunking other bufferSize :=
  ((varSizeChunking_boundaries positive nonempty).congr positive agree (le_refl _)).unique
    (varSizeChunking_boundaries positive nonempty)

private theorem varSizeChunking_zero (buffer : Buffer Byte) :
    chunker.varSizeChunking buffer 0 = [-1] := by
  rw [varSizeChunking, divide, addTail, if_neg (by simp)]
  rfl

/-- Chunking is local. The ends after one of the ends of a buffer are those of what
follows it, and an end in front of the first difference of two buffers, unless it is the
final one, is an end of both. -/
theorem varSizeChunking_local (chunker : Chunker)
    (window : chunker.slidingWinSize ≤ chunker.minChunkSize) :
    (∀ (buffer : Buffer Byte) (bufferSize : Nat),
      ∀ boundary ∈ chunker.varSizeChunking buffer bufferSize, boundary < bufferSize - 1 →
        (chunker.varSizeChunking buffer bufferSize).filter (fun last => boundary < last) =
          (chunker.varSizeChunking (buffer.advance (boundary + 1).toNat)
            (bufferSize - (boundary + 1).toNat)).map (fun last => boundary + 1 + last)) ∧
    ∀ (buffer other : Buffer Byte) (bufferSize otherSize common : Nat),
      common ≤ bufferSize → common ≤ otherSize →
      (∀ position < common, buffer position = other position) →
      ∀ last ∈ chunker.varSizeChunking buffer bufferSize, last < common →
        (chunker.varSizeChunking buffer bufferSize).getLast? ≠ some last →
        last ∈ chunker.varSizeChunking other otherSize := by
  have positive : 0 < chunker.minChunkSize := chunker.window_pos.trans_le window
  constructor
  · intro buffer bufferSize boundary member inside
    rcases Nat.eq_zero_or_pos bufferSize with zero | nonempty
    · rw [zero, varSizeChunking_zero] at member
      rw [zero, List.mem_singleton.mp member] at inside
      exact absurd inside (by decide)
    · have found : chunker.Boundaries buffer bufferSize (-1)
          (chunker.varSizeChunking buffer bufferSize) :=
        varSizeChunking_boundaries positive nonempty
      have natural := found.mem_gt positive (by omega) boundary member
      have whole : bufferSize = bufferSize - (boundary + 1).toNat + (boundary + 1).toNat := by
        omega
      have suffix : chunker.Boundaries (buffer.advance (boundary + 1).toNat)
          (bufferSize - (boundary + 1).toNat) (-1) _ :=
        varSizeChunking_boundaries positive (by omega)
      have shifted := suffix.advance window whole (le_refl _)
      have start : -1 + ((boundary + 1).toNat : Int) = boundary := by omega
      rw [start] at shifted
      rw [(found.after positive member).unique shifted]
      apply List.map_congr_left
      intro last _
      omega
  · intro buffer other bufferSize otherSize common _ shorter agree last member inside notLast
    rcases Nat.eq_zero_or_pos bufferSize with zero | nonempty
    · rw [zero, varSizeChunking_zero] at member notLast
      rw [List.mem_singleton.mp member] at notLast
      exact absurd rfl notLast
    · have found : chunker.Boundaries buffer bufferSize (-1)
          (chunker.varSizeChunking buffer bufferSize) :=
        varSizeChunking_boundaries positive nonempty
      have natural := found.mem_gt positive (by omega) last member
      rw [found.getLast_of_lt (by omega)] at notLast
      exact found.mem_of_agree agree positive shorter (le_refl _)
        (varSizeChunking_boundaries positive (by omega)) member inside
        fun same => notLast (congrArg some same.symm)

/-- The ends after the one at 6, and the ends that are left when a buffer is cut off. -/
theorem varSizeChunking_local_sample :
    (sampleChunker.varSizeChunking sampleBytes 20).filter (fun last => 6 < last) =
        (sampleChunker.varSizeChunking (sampleBytes.advance 7) 13).map (fun last => 7 + last) ∧
      3 ∈ sampleChunker.varSizeChunking sampleBytes 5 :=
  ⟨(varSizeChunking_local sampleChunker (by decide)).1 sampleBytes 20 6 (by decide) (by decide),
    (varSizeChunking_local sampleChunker (by decide)).2 sampleBytes sampleBytes 20 5 5 (by decide)
      (by decide) (fun _ _ => rfl) 3 (by decide) (by decide) (by decide)⟩

end MetaDedup.Chunker
