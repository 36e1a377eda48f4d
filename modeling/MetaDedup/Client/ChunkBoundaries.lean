import MetaDedup.Client.Chunker

/-! # The boundaries of chunks

What the chunker is for: a chunk ends at the first anchor that is not too close to the
end before it, or where it would become too large, or with the buffer. The loops of
`varSizeChunking` find exactly these boundaries. -/

namespace MetaDedup.Chunker

open Foundation

variable (chunker : Chunker) (buffer : Buffer Byte) (bufferSize : Nat)

def Anchor (index : Int) : Prop :=
  chunker.windowHash buffer index.toNat &&& chunker.anchorMask.toNat = 0

instance (index : Int) : Decidable (chunker.Anchor buffer index) :=
  inferInstanceAs (Decidable (_ = _))

def upperLimit (previous : Int) : Int := min (previous + chunker.maxChunkSize) (bufferSize - 1)

/-- The end of the chunk after `previous`: the least anchor of the range, or the limit
of the range if it has no anchor. -/
structure NextEnd (previous next : Int) : Prop where
  lower : previous + chunker.minChunkSize ≤ next
  upper : next ≤ chunker.upperLimit bufferSize previous
  least : ∀ earlier, previous + chunker.minChunkSize ≤ earlier → earlier < next →
    ¬ chunker.Anchor buffer earlier
  reason : chunker.Anchor buffer next ∨ next = chunker.upperLimit bufferSize previous

inductive Boundaries : Int → List Int → Prop
  | next {previous next : Int} {ends : List Int}
      (room : previous + chunker.minChunkSize ≤ bufferSize - 1)
      (first : chunker.NextEnd buffer bufferSize previous next)
      (rest : Boundaries next ends) : Boundaries previous (next :: ends)
  | complete {previous : Int} (full : bufferSize - 1 < previous + chunker.minChunkSize)
      (last : previous = bufferSize - 1) : Boundaries previous []
  | tail {previous : Int} (full : bufferSize - 1 < previous + chunker.minChunkSize)
      (unfinished : previous ≠ bufferSize - 1) : Boundaries previous [(bufferSize - 1 : Int)]

def chunkSizes : Int → List Int → List Int
  | _, [] => []
  | previous, next :: ends => (next - previous) :: chunkSizes next ends

variable {chunker buffer bufferSize}

/-! ## Uniqueness -/

variable {previous : Int} {ends : List Int}

theorem NextEnd.not_lt {next other : Int}
    (first : chunker.NextEnd buffer bufferSize previous next)
    (second : chunker.NextEnd buffer bufferSize previous other) : ¬ next < other := by
  intro less
  rcases first.reason with anchor | limit
  · exact second.least next first.lower less anchor
  · have upper := second.upper
    omega

theorem NextEnd.unique {next other : Int}
    (first : chunker.NextEnd buffer bufferSize previous next)
    (second : chunker.NextEnd buffer bufferSize previous other) : next = other := by
  have below := first.not_lt second
  have above := second.not_lt first
  omega

theorem Boundaries.unique {others : List Int}
    (first : chunker.Boundaries buffer bufferSize previous ends)
    (second : chunker.Boundaries buffer bufferSize previous others) : ends = others := by
  induction first generalizing others with
  | next room first _ induction =>
      cases second with
      | next _ other rest =>
          cases first.unique other
          rw [induction rest]
      | complete full => omega
      | tail full => omega
  | complete full last =>
      cases second with
      | next room => omega
      | complete => rfl
      | tail _ other => exact absurd last other
  | tail full other =>
      cases second with
      | next room => omega
      | complete _ last => exact absurd last other
      | tail => rfl

/-! ## Order and sizes -/

theorem Boundaries.mem_le (boundaries : chunker.Boundaries buffer bufferSize previous ends) :
    ∀ last ∈ ends, last ≤ bufferSize - 1 := by
  induction boundaries with
  | next room first _ induction =>
      intro last member
      rcases List.mem_cons.mp member with same | later
      · rw [same]
        exact first.upper.trans (min_le_right _ _)
      · exact induction last later
  | complete =>
      intro last member
      cases member
  | tail =>
      intro last member
      rw [List.mem_singleton.mp member]

section Order

variable (positive : 0 < chunker.minChunkSize)

include positive

variable {previous : Int} {ends : List Int}

theorem Boundaries.mem_gt (boundaries : chunker.Boundaries buffer bufferSize previous ends)
    (inside : previous ≤ bufferSize - 1) : ∀ last ∈ ends, previous < last := by
  induction boundaries with
  | next room first _ induction =>
      intro last member
      have lower := first.lower
      have upper := first.upper.trans (min_le_right _ _)
      rcases List.mem_cons.mp member with same | later
      · omega
      · have after := induction upper last later
        omega
  | complete =>
      intro last member
      cases member
  | tail full other =>
      intro last member
      rw [List.mem_singleton.mp member]
      omega

theorem Boundaries.pairwise (boundaries : chunker.Boundaries buffer bufferSize previous ends) :
    ends.Pairwise (· < ·) := by
  induction boundaries with
  | next room first rest induction =>
      have upper := first.upper.trans (min_le_right _ _)
      exact List.Pairwise.cons (rest.mem_gt positive upper) induction
  | complete => exact List.Pairwise.nil
  | tail => exact List.pairwise_singleton _ _

omit positive in
theorem Boundaries.getLast (boundaries : chunker.Boundaries buffer bufferSize previous ends) :
    ends.getLast?.getD previous = bufferSize - 1 := by
  induction boundaries with
  | next room first rest induction =>
      rw [List.getLast?_cons, Option.getD_some]
      exact induction
  | complete _ last => exact last
  | tail => rfl

omit positive in
theorem Boundaries.getLast_of_lt (boundaries : chunker.Boundaries buffer bufferSize previous ends)
    (inside : previous < bufferSize - 1) :
    ends.getLast? = some (bufferSize - 1 : Int) := by
  have last := boundaries.getLast
  cases found : ends.getLast? with
  | none =>
      rw [found, Option.getD_none] at last
      omega
  | some value =>
      rw [found, Option.getD_some] at last
      rw [last]

omit positive in
theorem Boundaries.sizes (boundaries : chunker.Boundaries buffer bufferSize previous ends) :
    ∀ size ∈ (chunkSizes previous ends).dropLast,
      chunker.minChunkSize ≤ size ∧ size ≤ chunker.maxChunkSize := by
  induction boundaries with
  | @next previous next ends room first rest induction =>
      intro size member
      cases ends with
      | nil => cases member
      | cons after ends =>
          rw [chunkSizes, chunkSizes, List.dropLast_cons_cons] at member
          rcases List.mem_cons.mp member with same | later
          · have lower := first.lower
            have upper := first.upper.trans (min_le_left _ _)
            omega
          · exact induction size later
  | complete =>
      intro size member
      cases member
  | tail =>
      intro size member
      cases member

end Order

/-! ## The loops -/

private theorem anchor_iff {winFp : BitVec 32} {index : Int}
    (current : winFp.toNat = chunker.windowHash buffer index.toNat) :
    winFp &&& chunker.anchorMask = anchorValue ↔ chunker.Anchor buffer index := by
  rw [Anchor, ← current, ← BitVec.toNat_and, ← BitVec.toNat_inj]
  rfl

private theorem slide_spec {limit : Int} {fuel : Nat} {index : Int} {winFp : BitVec 32}
    (natural : 0 ≤ index) (below : index ≤ limit) (enough : limit - index ≤ fuel)
    (current : winFp.toNat = chunker.windowHash buffer index.toNat) :
    index ≤ chunker.slide buffer limit fuel index winFp ∧
      chunker.slide buffer limit fuel index winFp ≤ limit ∧
      (∀ earlier, index ≤ earlier → earlier < chunker.slide buffer limit fuel index winFp →
        ¬ chunker.Anchor buffer earlier) ∧
      (chunker.Anchor buffer (chunker.slide buffer limit fuel index winFp) ∨
        chunker.slide buffer limit fuel index winFp = limit) := by
  induction fuel generalizing index winFp with
  | zero =>
      rw [slide]
      refine ⟨le_refl _, below, ?_, .inr (by omega)⟩
      intro earlier lower upper
      omega
  | succ fuel induction =>
      rw [slide]
      split
      next moves =>
        have cast : index + 1 = ((index.toNat : Nat) : Int) + 1 := by omega
        have next : (chunker.rollFingerprint buffer (index + 1) winFp).toNat =
            chunker.windowHash buffer (index + 1).toNat := by
          have place : (index + 1).toNat = index.toNat + 1 := by omega
          rw [place, cast]
          exact chunker.rollFingerprint_toNat buffer current
        rcases induction (by omega) (by omega) (by omega) next with
          ⟨lower, upper, least, reason⟩
        refine ⟨by omega, upper, ?_, reason⟩
        intro earlier after before
        rcases Int.lt_or_eq_of_le after with later | same
        · exact least earlier (by omega) before
        · rw [← same]
          exact fun anchor => moves.1 ((anchor_iff current).mpr anchor)
      next stops =>
        refine ⟨le_refl _, below, fun earlier after before => by omega, ?_⟩
        by_cases anchor : winFp &&& chunker.anchorMask = anchorValue
        · exact .inl ((anchor_iff current).mp anchor)
        · exact .inr (by
            have last := not_and.mp stops anchor
            omega)

private theorem chunkEnd_nextEnd (buffer : Buffer Byte) (begun : -1 ≤ previous)
    (positive : 0 < chunker.minChunkSize)
    (room : previous + chunker.minChunkSize ≤ bufferSize - 1) :
    chunker.NextEnd buffer bufferSize previous
      (chunker.chunkEnd buffer (chunker.upperLimit bufferSize previous)
        (previous + chunker.minChunkSize)) := by
  have order := chunker.min_lt_avg.trans chunker.avg_lt_max
  have natural : 0 ≤ previous + chunker.minChunkSize := by omega
  have current : (chunker.firstFingerprint buffer (previous + chunker.minChunkSize)).toNat =
      chunker.windowHash buffer (previous + chunker.minChunkSize).toNat := by
    rw [← chunker.firstFingerprint_toNat, Int.toNat_of_nonneg natural]
  have below : previous + chunker.minChunkSize ≤ chunker.upperLimit bufferSize previous :=
    le_min (by omega) room
  rcases slide_spec natural below (Int.self_le_toNat _) current with
    ⟨lower, upper, least, reason⟩
  exact ⟨lower, upper, least, reason⟩

private theorem clipped_limit (previous : Int) :
    (if previous + chunker.maxChunkSize ≥ bufferSize then (bufferSize - 1 : Int)
      else previous + chunker.maxChunkSize) = chunker.upperLimit bufferSize previous := by
  rw [upperLimit]
  omega

private theorem divide_boundaries (positive : 0 < chunker.minChunkSize) {fuel : Nat}
    (begun : -1 ≤ previous) (inside : previous ≤ bufferSize - 1)
    (enough : bufferSize - 1 - previous ≤ fuel)
    (divided : chunker.divide buffer bufferSize fuel (previous + chunker.minChunkSize)
      (previous + chunker.maxChunkSize) = ends) :
    chunker.Boundaries buffer bufferSize previous
      (if ends.getLast?.getD previous = bufferSize - 1 then ends
        else ends ++ [(bufferSize - 1 : Int)]) := by
  induction fuel generalizing previous ends with
  | zero =>
      have last : previous = bufferSize - 1 := by omega
      rw [divide] at divided
      rw [← divided, List.getLast?_nil, Option.getD_none, if_pos last]
      exact .complete (by omega) last
  | succ fuel induction =>
      rw [divide] at divided
      split at divided
      next room =>
        have fits : previous + chunker.minChunkSize ≤ bufferSize - 1 := by omega
        have first := chunkEnd_nextEnd buffer begun positive fits
        have lower := first.lower
        have upper := first.upper.trans (min_le_right _ _)
        simp only [clipped_limit] at divided
        have rest := induction (by omega) upper (by omega) rfl
        rw [← divided, List.getLast?_cons, Option.getD_some]
        split at rest
        next last =>
          rw [if_pos last]
          exact .next fits first rest
        next other =>
          rw [if_neg other]
          exact .next fits first rest
      next full =>
        rw [← divided, List.getLast?_nil, Option.getD_none]
        split
        next last => exact .complete (by omega) last
        next other => exact .tail (by omega) other

theorem varSizeChunking_boundaries (positive : 0 < chunker.minChunkSize)
    (nonempty : 1 ≤ bufferSize) :
    chunker.Boundaries buffer bufferSize (-1) (chunker.varSizeChunking buffer bufferSize) := by
  have same : ∀ ends : List Int, addTail bufferSize ends =
      if ends.getLast?.getD (-1) = bufferSize - 1 then ends
      else ends ++ [(bufferSize - 1 : Int)] := by
    intro ends
    rw [addTail]
    cases ends.getLast? with
    | none =>
        have other : (-1 : Int) ≠ bufferSize - 1 := by omega
        rw [Option.getD_none, if_neg other, if_neg (by simp)]
    | some last => simp only [Option.getD_some, Option.some.injEq]
  have enough : (bufferSize : Int) - 1 - -1 ≤ bufferSize := by omega
  rw [varSizeChunking, same]
  exact divide_boundaries positive (le_refl (-1)) (by omega) enough rfl

/-- The chunker computes the boundaries of the specification and nothing else. Its
fingerprints are the hashes of their windows, for the first window of a chunk and after
each move. The ends increase, the last one is the end of the buffer, and every chunk but
the last has a size between the bounds. -/
theorem varSizeChunking_eq_reference (chunker : Chunker)
    (window : chunker.slidingWinSize ≤ chunker.minChunkSize) (buffer : Buffer Byte)
    (bufferSize : Nat) (nonempty : 1 ≤ bufferSize) :
    let ends := chunker.varSizeChunking buffer bufferSize
    (∀ others, chunker.Boundaries buffer bufferSize (-1) others ↔ others = ends) ∧
      (∀ last : Nat,
        (chunker.firstFingerprint buffer last).toNat = chunker.windowHash buffer last) ∧
      (∀ (last : Nat) (winFp : BitVec 32), winFp.toNat = chunker.windowHash buffer last →
        (chunker.rollFingerprint buffer (last + 1) winFp).toNat =
          chunker.windowHash buffer (last + 1)) ∧
      ends.Pairwise (· < ·) ∧ ends.getLast? = some (bufferSize - 1 : Int) ∧
      ∀ size ∈ (chunkSizes (-1) ends).dropLast,
        chunker.minChunkSize ≤ size ∧ size ≤ chunker.maxChunkSize := by
  intro ends
  have positive : 0 < chunker.minChunkSize := chunker.window_pos.trans_le window
  have found : chunker.Boundaries buffer bufferSize (-1) ends :=
    varSizeChunking_boundaries positive nonempty
  refine ⟨fun others => ⟨fun other => other.unique found, fun same => same ▸ found⟩,
    chunker.firstFingerprint_toNat buffer, fun _ _ => chunker.rollFingerprint_toNat buffer,
    found.pairwise positive, ?_, found.sizes⟩
  exact found.getLast_of_lt (by omega)

/-- Twenty bytes have anchors at 3, 6, 15 and 18; the chunk that ends at 12 is as large
as a chunk may be, and the last one is a tail. -/
theorem varSizeChunking_eq_reference_sample :
    sampleChunker.Boundaries sampleBytes 20 (-1) [3, 6, 12, 15, 18, 19] := by
  rcases varSizeChunking_eq_reference sampleChunker (by decide) sampleBytes 20 (by decide)
    with ⟨reference, _⟩
  exact (reference _).mpr rfl

end MetaDedup.Chunker
