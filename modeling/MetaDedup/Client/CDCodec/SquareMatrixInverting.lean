import MetaDedup.Client.GaloisField
import MetaDedup.Foundation.Loop
import MetaDedup.Foundation.RowReduction

/-! # Inverting the square matrix of a decoder

`squareMatrixInverting` reduces `squareMatrix_` to the identity and applies the
same row operations to `inverseMatrix_`, which starts as the identity. -/

namespace MetaDedup.CDCodec

open Foundation RowReduction

variable {gf : GaloisField} {k : Nat}

abbrev SquareMatrix (gf : GaloisField) (k : Nat) :=
  Matrix (Fin k) (Fin k) gf.Element

structure InvertingMatrices (gf : GaloisField) (k : Nat) where
  squareMatrix : SquareMatrix gf k
  inverseMatrix : SquareMatrix gf k

def xorMultipleOfRow (matrix : SquareMatrix gf k) (target source : Fin k)
    (multFactor : gf.Element) : SquareMatrix gf k :=
  if multFactor = 1 then
    matrix.updateRow target (matrix target + matrix source)
  else addRow matrix target source multFactor

namespace InvertingMatrices

def findPivot (matrices : InvertingMatrices gf k) (i : Fin k) :
    Option (InvertingMatrices gf k) :=
  if matrices.squareMatrix i i = 0 then
    ((List.finRange k).find?
      (fun j => i < j ∧ matrices.squareMatrix j i ≠ 0)).map fun j =>
        { squareMatrix := swapRows matrices.squareMatrix i j
          inverseMatrix := swapRows matrices.inverseMatrix i j }
  else some matrices

def normalizeRow (matrices : InvertingMatrices gf k) (i : Fin k) :
    InvertingMatrices gf k :=
  let tmp := matrices.squareMatrix i i
  if tmp ≠ 1 then
    let multFactor : gf.Element := ⟨gf.divide 1#8 tmp.byte⟩
    { squareMatrix := scaleRow matrices.squareMatrix i multFactor
      inverseMatrix := scaleRow matrices.inverseMatrix i multFactor }
  else matrices

def eliminateBelow (i : Fin k) (matrices : InvertingMatrices gf k) (j : Fin k) :
    InvertingMatrices gf k :=
  let multFactor := matrices.squareMatrix j i
  if multFactor ≠ 0 then
    { squareMatrix := xorMultipleOfRow matrices.squareMatrix j i multFactor
      inverseMatrix := xorMultipleOfRow matrices.inverseMatrix j i multFactor }
  else matrices

def forwardPass (matrices : InvertingMatrices gf k) (i : Fin k) :
    Option (InvertingMatrices gf k) := do
  let pivoted ← matrices.findPivot i
  let normalized := pivoted.normalizeRow i
  return ((List.finRange k).filter (fun j => i < j)).foldl (eliminateBelow i) normalized

/-- Clear column `i` of row `j` in the backward pass. Only `inverseMatrix_` is
combined with row `i`; the element of `squareMatrix_` is simply zeroed. -/
def eliminateAbove (i : Fin k) (matrices : InvertingMatrices gf k) (j : Fin k) :
    InvertingMatrices gf k :=
  let multFactor := matrices.squareMatrix j i
  if multFactor ≠ 0 then
    { squareMatrix := setEntry matrices.squareMatrix j i 0
      inverseMatrix := xorMultipleOfRow matrices.inverseMatrix j i multFactor }
  else matrices

def backwardPass (matrices : InvertingMatrices gf k) (i : Fin k) :
    InvertingMatrices gf k :=
  ((List.finRange k).filter (fun j => j < i)).foldl (eliminateAbove i) matrices

end InvertingMatrices

open InvertingMatrices

/-- The matrices after a successful inversion; `none` when the function returns
0. -/
def squareMatrixInverting (squareMatrix : SquareMatrix gf k) :
    Option (InvertingMatrices gf k) := do
  let triangular ← (List.finRange k).foldlM forwardPass
    { squareMatrix := squareMatrix, inverseMatrix := 1 }
  return (List.finRange k).reverse.foldl backwardPass triangular

theorem xorMultipleOfRow_eq_addRow (matrix : SquareMatrix gf k)
    (target source : Fin k) (multFactor : gf.Element) :
    xorMultipleOfRow matrix target source multFactor =
      addRow matrix target source multFactor := by
  unfold xorMultipleOfRow
  split
  · rename_i unit
    rw [unit, addRow, one_smul]
  · rfl

/-! ## The forward pass -/

variable {i : Fin k}

/-- The inverse matrix records the row operations made on `original`. -/
def InvertingMatrices.Records (matrices : InvertingMatrices gf k)
    (original : SquareMatrix gf k) : Prop :=
  Tracks original matrices.squareMatrix matrices.inverseMatrix

variable {original : SquareMatrix gf k} {matrices next : InvertingMatrices gf k}

private theorem findPivot_spec (records : matrices.Records original)
    (cleared : ClearedBelow matrices.squareMatrix i.val)
    (found : matrices.findPivot i = some next) :
    next.Records original ∧ ClearedBelow next.squareMatrix i.val ∧
      next.squareMatrix i i ≠ 0 := by
  unfold findPivot at found
  split at found
  · rcases Option.map_eq_some_iff.mp found with ⟨j, pivot, swapped⟩
    have property := List.find?_some pivot
    simp only [decide_eq_true_eq] at property
    rw [← swapped]
    refine ⟨records.swapRows i j, cleared.swapRows le_rfl (le_of_lt property.1), ?_⟩
    change swapRows matrices.squareMatrix i j i i ≠ 0
    rw [swapRows_apply, Equiv.swap_apply_left]
    exact property.2
  · rename_i nonzero
    rw [← Option.some.inj found]
    exact ⟨records, cleared, nonzero⟩

private theorem findPivot_none (records : matrices.Records original)
    (cleared : ClearedBelow matrices.squareMatrix i.val)
    (missing : matrices.findPivot i = none) : original.det = 0 := by
  unfold findPivot at missing
  split at missing
  · rename_i zero
    have absent := List.find?_eq_none.mp (Option.map_eq_none_iff.mp missing)
    apply records.det_eq_zero
    apply cleared.det_eq_zero
    intro row late
    rcases lt_or_eq_of_le late with lower | same
    · have notPivot := absent row (List.mem_finRange row)
      simp only [decide_eq_true_eq, not_and, not_not] at notPivot
      exact notPivot lower
    · rw [← same]
      exact zero
  · exact absurd missing (Option.some_ne_none _)

private theorem normalizeRow_spec (records : matrices.Records original)
    (cleared : ClearedBelow matrices.squareMatrix i.val)
    (nonzero : matrices.squareMatrix i i ≠ 0) :
    (matrices.normalizeRow i).Records original ∧
      ClearedBelow (matrices.normalizeRow i).squareMatrix i.val ∧
      (matrices.normalizeRow i).squareMatrix i i = 1 := by
  unfold normalizeRow
  by_cases unit : matrices.squareMatrix i i = 1
  · rw [if_neg (not_not.mpr unit)]
    exact ⟨records, cleared, unit⟩
  · rw [if_pos unit]
    have byteNonzero := mt (GaloisField.Element.eq_zero_iff _).mpr nonzero
    have inverse : (⟨gf.divide 1#8 (matrices.squareMatrix i i).byte⟩ : gf.Element) =
        (matrices.squareMatrix i i)⁻¹ := by
      apply GaloisField.Element.ext
      rw [GaloisField.Element.inv_byte, if_neg byteNonzero]
    simp only [inverse]
    refine ⟨records.scaleRow i (inv_ne_zero nonzero), cleared.scaleRow le_rfl _, ?_⟩
    rw [scaleRow_apply, if_pos rfl, inv_mul_cancel₀ nonzero]

/-- The state of the elimination loop of row `i` once the rows before `passed`
have been looked at. -/
structure EliminatingBelow (original : SquareMatrix gf k) (i : Fin k)
    (passed : Nat) (matrices : InvertingMatrices gf k) : Prop where
  records : matrices.Records original
  cleared : ClearedBelow matrices.squareMatrix i.val
  unit : matrices.squareMatrix i i = 1
  zeros : ∀ j, i < j → j.val < passed → matrices.squareMatrix j i = 0

theorem EliminatingBelow.eliminate {j : Fin k} (lower : i < j)
    (loop : EliminatingBelow original i j.val matrices) :
    EliminatingBelow original i (j.val + 1) (eliminateBelow i matrices j) := by
  unfold eliminateBelow
  by_cases zero : matrices.squareMatrix j i = 0
  · rw [if_neg (not_not.mpr zero)]
    refine ⟨loop.records, loop.cleared, loop.unit, ?_⟩
    intro row lowerRow passed
    rcases Nat.lt_succ_iff_lt_or_eq.mp passed with earlier | same
    · exact loop.zeros row lowerRow earlier
    · rw [Fin.ext same]
      exact zero
  · rw [if_pos zero, xorMultipleOfRow_eq_addRow, xorMultipleOfRow_eq_addRow]
    refine ⟨loop.records.addRow (ne_of_gt lower) _,
      loop.cleared.addRow (le_of_lt lower) le_rfl _, ?_, ?_⟩
    · change addRow _ j i _ i i = 1
      rw [addRow_apply, if_neg (ne_of_lt lower)]
      exact loop.unit
    · intro row lowerRow passed
      change addRow _ j i _ row i = 0
      rw [addRow_apply]
      split
      · rw [loop.unit, mul_one, GaloisField.Element.add_self]
      · rename_i different
        have earlier : row.val < j.val :=
          lt_of_le_of_ne (Nat.lt_succ_iff.mp passed) (Fin.val_ne_of_ne different)
        exact loop.zeros row lowerRow earlier

private theorem forwardPass_spec (records : matrices.Records original)
    (cleared : ClearedBelow matrices.squareMatrix i.val)
    (passed : matrices.forwardPass i = some next) :
    next.Records original ∧ ClearedBelow next.squareMatrix (i.val + 1) := by
  rcases Option.bind_eq_some_iff.mp passed with ⟨pivoted, found, eliminated⟩
  have pivot := findPivot_spec records cleared found
  have normal := normalizeRow_spec pivot.1 pivot.2.1 pivot.2.2
  have finished := Loop.foldl_finRange
    (fun matrices j => if i < j then eliminateBelow i matrices j else matrices)
    (EliminatingBelow original i) ?pass (pivoted.normalizeRow i)
    ⟨normal.1, normal.2.1, normal.2.2, fun _ _ early => nomatch early⟩
  case pass =>
    intro j state loop
    by_cases lower : i < j
    · rw [if_pos lower]
      exact loop.eliminate lower
    · rw [if_neg lower]
      refine ⟨loop.records, loop.cleared, loop.unit, ?_⟩
      intro row lowerRow early
      refine loop.zeros row lowerRow (lt_of_le_of_ne (Nat.lt_succ_iff.mp early) ?_)
      rintro same
      exact lower (Fin.ext same ▸ lowerRow)
  have reached : next = (List.finRange k).foldl
      (fun matrices j => if i < j then eliminateBelow i matrices j else matrices)
      (pivoted.normalizeRow i) := by
    rw [← Option.some.inj eliminated, List.foldl_filter]
    simp only [decide_eq_true_eq]
  rw [reached]
  exact ⟨finished.records, finished.cleared.succ finished.unit
    fun row lower => finished.zeros row lower row.isLt⟩

private theorem forwardPass_none (records : matrices.Records original)
    (cleared : ClearedBelow matrices.squareMatrix i.val)
    (stuck : matrices.forwardPass i = none) : original.det = 0 := by
  have absent := Option.bind_eq_none_iff.mp stuck
  cases pivot : matrices.findPivot i with
  | none => exact findPivot_none records cleared pivot
  | some pivoted => exact absurd (absent pivoted pivot) (Option.some_ne_none _)

/-! ## The backward pass -/

/-- The state of the loop that clears column `i` above the diagonal once the
rows before `passed` have been looked at. -/
structure EliminatingAbove (original : SquareMatrix gf k) (i : Fin k)
    (passed : Nat) (matrices : InvertingMatrices gf k) : Prop where
  records : matrices.Records original
  triangular : ClearedBelow matrices.squareMatrix k
  cleared : ClearedFrom matrices.squareMatrix (i.val + 1)
  zeros : ∀ j, j < i → j.val < passed → matrices.squareMatrix j i = 0

theorem EliminatingAbove.eliminate {j : Fin k} (upper : j < i)
    (loop : EliminatingAbove original i j.val matrices) :
    EliminatingAbove original i (j.val + 1) (eliminateAbove i matrices j) := by
  unfold eliminateAbove
  by_cases zero : matrices.squareMatrix j i = 0
  · rw [if_neg (not_not.mpr zero)]
    refine ⟨loop.records, loop.triangular, loop.cleared, ?_⟩
    intro row upperRow passed
    rcases Nat.lt_succ_iff_lt_or_eq.mp passed with earlier | same
    · exact loop.zeros row upperRow earlier
    · rw [Fin.ext same]
      exact zero
  · rw [if_pos zero, xorMultipleOfRow_eq_addRow]
    -- zeroing the element is the row operation that the inverse undergoes
    have operation : addRow matrices.squareMatrix j i (matrices.squareMatrix j i) =
        setEntry matrices.squareMatrix j i 0 := by
      rw [addRow_eq_setEntry loop.triangular loop.cleared, GaloisField.Element.add_self]
    have records := loop.records.addRow (ne_of_lt upper) (matrices.squareMatrix j i)
    rw [operation] at records
    refine ⟨records, loop.triangular.setEntry upper _,
      loop.cleared.setEntry (Nat.lt_succ_self _) _, ?_⟩
    intro row upperRow passed
    change setEntry _ j i 0 row i = 0
    rw [setEntry_apply]
    split
    · rfl
    · rename_i different
      have otherRow : row ≠ j := fun same => different ⟨same, rfl⟩
      exact loop.zeros row upperRow
        (lt_of_le_of_ne (Nat.lt_succ_iff.mp passed) (Fin.val_ne_of_ne otherRow))

private theorem backwardPass_spec (records : matrices.Records original)
    (triangular : ClearedBelow matrices.squareMatrix k)
    (cleared : ClearedFrom matrices.squareMatrix (i.val + 1)) :
    (matrices.backwardPass i).Records original ∧
      ClearedBelow (matrices.backwardPass i).squareMatrix k ∧
      ClearedFrom (matrices.backwardPass i).squareMatrix i.val := by
  have finished := Loop.foldl_finRange
    (fun matrices j => if j < i then eliminateAbove i matrices j else matrices)
    (EliminatingAbove original i) ?pass matrices
    ⟨records, triangular, cleared, fun _ _ early => nomatch early⟩
  case pass =>
    intro j state loop
    by_cases upper : j < i
    · rw [if_pos upper]
      exact loop.eliminate upper
    · rw [if_neg upper]
      refine ⟨loop.records, loop.triangular, loop.cleared, ?_⟩
      intro row upperRow early
      refine loop.zeros row upperRow (lt_of_le_of_ne (Nat.lt_succ_iff.mp early) ?_)
      rintro same
      exact upper (Fin.ext same ▸ upperRow)
  have reached : matrices.backwardPass i = (List.finRange k).foldl
      (fun matrices j => if j < i then eliminateAbove i matrices j else matrices)
      matrices := by
    rw [backwardPass, List.foldl_filter]
    simp only [decide_eq_true_eq]
  rw [reached]
  exact ⟨finished.records, finished.triangular, finished.cleared.pred
    finished.triangular fun row upper => finished.zeros row upper row.isLt⟩

/-! ## The inversion -/

variable {squareMatrix : SquareMatrix gf k}

/-- The forward pass ends with a triangular matrix, unless the input is
singular. -/
theorem forward_cases (squareMatrix : SquareMatrix gf k) :
    (∃ triangular, (List.finRange k).foldlM forwardPass
        { squareMatrix := squareMatrix, inverseMatrix := 1 } = some triangular ∧
      triangular.Records squareMatrix ∧ ClearedBelow triangular.squareMatrix k) ∨
    ((List.finRange k).foldlM forwardPass
        { squareMatrix := squareMatrix, inverseMatrix := 1 } = none ∧
      squareMatrix.det = 0) := by
  have loop := Loop.foldlM_finRange forwardPass
    (fun passed state => state.Records squareMatrix ∧
      ClearedBelow state.squareMatrix passed)
    (fun _ _ _ invariant passed => forwardPass_spec invariant.1 invariant.2 passed)
    { squareMatrix := squareMatrix, inverseMatrix := 1 }
    ⟨Tracks.identity squareMatrix, ClearedBelow.zero squareMatrix⟩
  rcases loop with finished | ⟨failed, index, current, invariant, stuck⟩
  · exact .inl finished
  · exact .inr ⟨failed, forwardPass_none invariant.1 invariant.2 stuck⟩

private theorem backward_spec (records : matrices.Records original)
    (triangular : ClearedBelow matrices.squareMatrix k) :
    ((List.finRange k).reverse.foldl backwardPass matrices).Records original ∧
      ((List.finRange k).reverse.foldl backwardPass matrices).squareMatrix = 1 := by
  have loop := Loop.foldl_finRange_reverse backwardPass
    (fun left state => state.Records original ∧
      ClearedBelow state.squareMatrix k ∧ ClearedFrom state.squareMatrix left)
    (fun _ _ invariant => backwardPass_spec invariant.1 invariant.2.1 invariant.2.2)
    matrices ⟨records, triangular, clearedFrom_size _⟩
  exact ⟨loop.1, eq_one_of_clearedFrom loop.2.2⟩

/-- A successful inversion leaves the identity in `squareMatrix_` and a
two-sided inverse of the input in `inverseMatrix_`. -/
theorem squareMatrixInverting_some
    (inverted : squareMatrixInverting squareMatrix = some matrices) :
    matrices.squareMatrix = 1 ∧
      matrices.inverseMatrix * squareMatrix = 1 ∧
      squareMatrix * matrices.inverseMatrix = 1 := by
  rcases Option.bind_eq_some_iff.mp inverted with ⟨triangular, forward, backward⟩
  rcases forward_cases squareMatrix with ⟨final, reached, records, below⟩ | ⟨failed, _⟩
  · rw [forward] at reached
    rw [← Option.some.inj reached] at records below
    have finished := backward_spec records below
    rw [Option.some.inj backward] at finished
    have tracks : Tracks squareMatrix matrices.squareMatrix matrices.inverseMatrix :=
      finished.1
    rw [finished.2] at tracks
    exact ⟨finished.2, tracks.inverse⟩
  · rw [forward] at failed
    exact absurd failed (Option.some_ne_none _)

private theorem squareMatrixInverting_none (failed : squareMatrixInverting squareMatrix = none) :
    squareMatrix.det = 0 := by
  rcases forward_cases squareMatrix with ⟨final, reached, _⟩ | ⟨_, singular⟩
  · have succeeded := Option.bind_eq_none_iff.mp failed final reached
    exact absurd succeeded (Option.some_ne_none _)
  · exact singular

theorem squareMatrixInverting_exists (nonsingular : squareMatrix.det ≠ 0) :
    ∃ matrices, squareMatrixInverting squareMatrix = some matrices := by
  cases result : squareMatrixInverting squareMatrix with
  | none => exact absurd (squareMatrixInverting_none result) nonsingular
  | some matrices => exact ⟨matrices, rfl⟩

end MetaDedup.CDCodec
