import Mathlib.LinearAlgebra.Matrix.Block
import Mathlib.LinearAlgebra.Matrix.NonsingularInverse

/-! # Row reduction of a square matrix

Elementary row operations on a square matrix over a field, carried out on the
matrix and on a second matrix that records them. The record starts as the
identity; when the reduced matrix has become the identity, the record is its
inverse. -/

namespace MetaDedup.Foundation.RowReduction

variable {F : Type*} {k : Nat}

/-! ## Row operations -/

def swapRows (matrix : Matrix (Fin k) (Fin k) F) (first second : Fin k) :
    Matrix (Fin k) (Fin k) F :=
  matrix.submatrix (Equiv.swap first second) id

def setEntry (matrix : Matrix (Fin k) (Fin k) F) (row column : Fin k)
    (value : F) : Matrix (Fin k) (Fin k) F :=
  matrix.updateRow row (Function.update (matrix row) column value)

theorem swapRows_apply (matrix : Matrix (Fin k) (Fin k) F)
    (first second row column : Fin k) :
    swapRows matrix first second row column =
      matrix (Equiv.swap first second row) column := rfl

theorem setEntry_apply (matrix : Matrix (Fin k) (Fin k) F)
    (setRow setColumn row column : Fin k) (value : F) :
    setEntry matrix setRow setColumn value row column =
      if row = setRow ∧ column = setColumn then value
      else matrix row column := by
  rw [setEntry, Matrix.updateRow_apply, Function.update_apply]
  by_cases sameRow : row = setRow
  · subst sameRow
    by_cases sameColumn : column = setColumn <;> simp [sameColumn]
  · simp [sameRow]

variable [Field F]

def scaleRow (matrix : Matrix (Fin k) (Fin k) F) (row : Fin k) (factor : F) :
    Matrix (Fin k) (Fin k) F :=
  matrix.updateRow row (factor • matrix row)

/-- Add `factor` times the row `source` to the row `target`. -/
def addRow (matrix : Matrix (Fin k) (Fin k) F) (target source : Fin k)
    (factor : F) : Matrix (Fin k) (Fin k) F :=
  matrix.updateRow target (matrix target + factor • matrix source)

theorem scaleRow_apply (matrix : Matrix (Fin k) (Fin k) F)
    (scaled row column : Fin k) (factor : F) :
    scaleRow matrix scaled factor row column =
      if row = scaled then factor * matrix scaled column
      else matrix row column := by
  simp [scaleRow, Matrix.updateRow_apply]

theorem addRow_apply (matrix : Matrix (Fin k) (Fin k) F)
    (target source row column : Fin k) (factor : F) :
    addRow matrix target source factor row column =
      if row = target then
        matrix target column + factor * matrix source column
      else matrix row column := by
  simp [addRow, Matrix.updateRow_apply]

/-! ## The record of the operations -/

/-- `record` is invertible and turns `original` into `current`. -/
structure Tracks (original current record : Matrix (Fin k) (Fin k) F) :
    Prop where
  product : record * original = current
  nonsingular : record.det ≠ 0

namespace Tracks

variable {original current record : Matrix (Fin k) (Fin k) F}

theorem identity (original : Matrix (Fin k) (Fin k) F) :
    Tracks original original 1 where
  product := Matrix.one_mul original
  nonsingular := by simp

section

variable (tracks : Tracks original current record)
include tracks

theorem swapRows (first second : Fin k) :
    Tracks original (swapRows current first second)
      (swapRows record first second) where
  product := by
    rw [← tracks.product]
    rfl
  nonsingular := by
    have permuted := Matrix.det_permute (Equiv.swap first second) record
    intro zero
    apply tracks.nonsingular
    have vanishes : ((Equiv.Perm.sign (Equiv.swap first second) : ℤ) : F) *
        record.det = 0 := by
      rw [← permuted]
      exact zero
    rcases mul_eq_zero.mp vanishes with signZero | detZero
    · rcases Int.units_eq_one_or (Equiv.Perm.sign (Equiv.swap first second))
        with sign | sign <;> simp [sign] at signZero
    · exact detZero

theorem scaleRow (row : Fin k) {factor : F} (nonzero : factor ≠ 0) :
    Tracks original (scaleRow current row factor)
      (scaleRow record row factor) where
  product := by
    rw [RowReduction.scaleRow, Matrix.updateRow_mul, tracks.product]
    congr 1
    rw [Matrix.smul_vecMul, ← tracks.product]
    rfl
  nonsingular := by
    rw [RowReduction.scaleRow, Matrix.det_updateRow_smul,
      Matrix.updateRow_eq_self]
    exact mul_ne_zero nonzero tracks.nonsingular

theorem addRow {target source : Fin k} (different : target ≠ source) (factor : F) :
    Tracks original (addRow current target source factor)
      (addRow record target source factor) where
  product := by
    rw [RowReduction.addRow, Matrix.updateRow_mul, tracks.product]
    congr 1
    rw [Matrix.add_vecMul, Matrix.smul_vecMul, ← tracks.product]
    rfl
  nonsingular := by
    rw [RowReduction.addRow, Matrix.det_updateRow_add_smul_self _ different]
    exact tracks.nonsingular

theorem det_eq_zero
    (singular : current.det = 0) : original.det = 0 := by
  rw [← tracks.product, Matrix.det_mul] at singular
  rcases mul_eq_zero.mp singular with recordZero | originalZero
  · exact absurd recordZero tracks.nonsingular
  · exact originalZero

end

theorem inverse (tracks : Tracks original 1 record) :
    record * original = 1 ∧ original * record = 1 :=
  ⟨tracks.product, mul_eq_one_comm.mp tracks.product⟩

end Tracks

/-! ## Partial triangular form -/

/-- The first `columns` columns have a unit diagonal and zeros below it. -/
structure ClearedBelow (matrix : Matrix (Fin k) (Fin k) F) (columns : Nat) :
    Prop where
  diagonal : ∀ column : Fin k, column.val < columns → matrix column column = 1
  below : ∀ row column : Fin k, column.val < columns → column < row →
    matrix row column = 0

theorem ClearedBelow.zero (matrix : Matrix (Fin k) (Fin k) F) :
    ClearedBelow matrix 0 where
  diagonal _ bound := absurd bound (Nat.not_lt_zero _)
  below _ _ bound _ := absurd bound (Nat.not_lt_zero _)

namespace ClearedBelow

variable {matrix : Matrix (Fin k) (Fin k) F} {columns : Nat}

theorem succ {pivot : Fin k} (cleared : ClearedBelow matrix pivot.val)
    (unit : matrix pivot pivot = 1) (zeros : ∀ row, pivot < row → matrix row pivot = 0) :
    ClearedBelow matrix (pivot.val + 1) where
  diagonal column bound := by
    rcases Nat.lt_succ_iff_lt_or_eq.mp bound with earlier | same
    · exact cleared.diagonal column earlier
    · rw [Fin.ext same]
      exact unit
  below row column bound lower := by
    rcases Nat.lt_succ_iff_lt_or_eq.mp bound with earlier | same
    · exact cleared.below row column earlier lower
    · rw [Fin.ext same] at lower ⊢
      exact zeros row lower

variable (cleared : ClearedBelow matrix columns)
include cleared

theorem swapRows {first second : Fin k}
    (firstLate : columns ≤ first.val) (secondLate : columns ≤ second.val) :
    ClearedBelow (swapRows matrix first second) columns where
  diagonal column bound := by
    have notFirst : column ≠ first := by rintro rfl; omega
    have notSecond : column ≠ second := by rintro rfl; omega
    rw [swapRows_apply, Equiv.swap_apply_of_ne_of_ne notFirst notSecond]
    exact cleared.diagonal column bound
  below row column bound lower := by
    rw [swapRows_apply]
    apply cleared.below _ column bound
    rcases eq_or_ne row first with isFirst | notFirst
    · rw [isFirst, Equiv.swap_apply_left]
      exact Fin.lt_def.mpr (by omega)
    · rcases eq_or_ne row second with isSecond | notSecond
      · rw [isSecond, Equiv.swap_apply_right]
        exact Fin.lt_def.mpr (by omega)
      · rwa [Equiv.swap_apply_of_ne_of_ne notFirst notSecond]

theorem scaleRow {scaled : Fin k} (late : columns ≤ scaled.val) (factor : F) :
    ClearedBelow (scaleRow matrix scaled factor) columns where
  diagonal column bound := by
    have different : column ≠ scaled := by rintro rfl; omega
    rw [scaleRow_apply, if_neg different]
    exact cleared.diagonal column bound
  below row column bound lower := by
    have scaledZero : matrix scaled column = 0 :=
      cleared.below scaled column bound (Fin.lt_def.mpr (by omega))
    rw [scaleRow_apply, cleared.below row column bound lower, scaledZero,
      mul_zero, ite_self]

theorem addRow {target source : Fin k}
    (targetLate : columns ≤ target.val) (sourceLate : columns ≤ source.val)
    (factor : F) : ClearedBelow (addRow matrix target source factor) columns where
  diagonal column bound := by
    have different : column ≠ target := by rintro rfl; omega
    rw [addRow_apply, if_neg different]
    exact cleared.diagonal column bound
  below row column bound lower := by
    have targetZero : matrix target column = 0 :=
      cleared.below target column bound (Fin.lt_def.mpr (by omega))
    have sourceZero : matrix source column = 0 :=
      cleared.below source column bound (Fin.lt_def.mpr (by omega))
    rw [addRow_apply, cleared.below row column bound lower, targetZero,
      sourceZero, mul_zero, add_zero, ite_self]

theorem setEntry {row column : Fin k} (above : row < column) (value : F) :
    ClearedBelow (setEntry matrix row column value) columns where
  diagonal index bound := by
    have elsewhere : ¬ (index = row ∧ index = column) := by
      rintro ⟨rfl, rfl⟩
      exact lt_irrefl _ above
    rw [setEntry_apply, if_neg elsewhere]
    exact cleared.diagonal index bound
  below lowRow lowColumn bound lower := by
    have elsewhere : ¬ (lowRow = row ∧ lowColumn = column) := by
      rintro ⟨rfl, rfl⟩
      exact lt_asymm above lower
    rw [setEntry_apply, if_neg elsewhere]
    exact cleared.below lowRow lowColumn bound lower

end ClearedBelow

variable {matrix : Matrix (Fin k) (Fin k) F}

/-- A partially reduced matrix whose next column is zero from the diagonal on
is singular: its leading block is upper triangular with a zero on the
diagonal. -/
theorem ClearedBelow.det_eq_zero {pivot : Fin k} (cleared : ClearedBelow matrix pivot.val)
    (noPivot : ∀ row, pivot ≤ row → matrix row pivot = 0) :
    matrix.det = 0 := by
  have corner : ∀ row, ¬ row ≤ pivot → ∀ column, column ≤ pivot →
      matrix row column = 0 := by
    intro row beyond column within
    rcases lt_or_eq_of_le within with earlier | same
    · exact cleared.below row column earlier
        (lt_of_le_of_lt within (not_le.mp beyond))
    · rw [same]
      exact noPivot row (le_of_lt (not_le.mp beyond))
  rw [Matrix.twoBlockTriangular_det matrix (· ≤ pivot) corner]
  have triangular :
      (Matrix.toSquareBlockProp matrix (· ≤ pivot)).IsUpperTriangular := by
    intro row column above
    have smaller : column.val < row.val := above
    rcases lt_or_eq_of_le column.property with earlier | same
    · exact cleared.below row.val column.val earlier smaller
    · exact absurd (lt_of_lt_of_le smaller row.property) (by simp [same])
  rw [Matrix.det_of_isUpperTriangular triangular]
  have vanishes : ∏ index : {index // index ≤ pivot},
      Matrix.toSquareBlockProp matrix (· ≤ pivot) index index = 0 := by
    apply Finset.prod_eq_zero (Finset.mem_univ ⟨pivot, le_refl pivot⟩)
    exact noPivot pivot (le_refl pivot)
  rw [vanishes, zero_mul]

/-- The columns from `columns` on agree with the identity matrix. -/
def ClearedFrom (matrix : Matrix (Fin k) (Fin k) F) (columns : Nat) : Prop :=
  ∀ row column : Fin k, columns ≤ column.val →
    matrix row column = if row = column then 1 else 0

theorem clearedFrom_size (matrix : Matrix (Fin k) (Fin k) F) :
    ClearedFrom matrix k :=
  fun _ column late => absurd column.isLt (not_lt.mpr late)

theorem ClearedFrom.pred {pivot : Fin k}
    (cleared : ClearedFrom matrix (pivot.val + 1)) (below : ClearedBelow matrix k)
    (zeros : ∀ row, row < pivot → matrix row pivot = 0) :
    ClearedFrom matrix pivot.val := by
  intro row column late
  rcases Nat.eq_or_lt_of_le late with same | later
  · rw [← Fin.ext same]
    rcases lt_trichotomy row pivot with above | equal | lower
    · rw [zeros row above, if_neg (ne_of_lt above)]
    · rw [equal, below.diagonal pivot pivot.isLt, if_pos rfl]
    · rw [below.below row pivot pivot.isLt lower, if_neg (ne_of_gt lower)]
  · exact cleared row column later

theorem ClearedFrom.setEntry {columns : Nat} (cleared : ClearedFrom matrix columns)
    {row column : Fin k} (early : column.val < columns) (value : F) :
    ClearedFrom (setEntry matrix row column value) columns := by
  intro otherRow otherColumn late
  have elsewhere : ¬ (otherRow = row ∧ otherColumn = column) := by
    rintro ⟨_, rfl⟩
    omega
  rw [setEntry_apply, if_neg elsewhere]
  exact cleared otherRow otherColumn late

theorem eq_one_of_clearedFrom (cleared : ClearedFrom matrix 0) : matrix = 1 := by
  ext row column
  rw [cleared row column (Nat.zero_le _), Matrix.one_apply]

/-- In a triangular matrix whose later columns are already cleared, the row of
the column being processed is a unit row. Adding a multiple of it to another
row therefore changes a single entry. -/
theorem addRow_eq_setEntry {target source : Fin k} (below : ClearedBelow matrix k)
    (above : ClearedFrom matrix (source.val + 1)) (factor : F) :
    addRow matrix target source factor =
      setEntry matrix target source (matrix target source + factor) := by
  ext row column
  have unitRow : matrix source column = if source = column then 1 else 0 := by
    rcases lt_trichotomy column source with left | same | right
    · rw [below.below source column column.isLt left, if_neg (ne_of_gt left)]
    · rw [same, below.diagonal source source.isLt, if_pos rfl]
    · exact above source column right
  rw [addRow_apply, setEntry_apply]
  by_cases targeted : row = target
  · subst targeted
    rw [if_pos rfl, unitRow]
    by_cases here : source = column
    · subst here
      simp
    · simp [here, Ne.symm here]
  · simp [targeted]

end MetaDedup.Foundation.RowReduction
