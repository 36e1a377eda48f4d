import Mathlib.Algebra.Polynomial.BigOperators
import Mathlib.LinearAlgebra.Lagrange
import Mathlib.LinearAlgebra.Matrix.ToLinearEquiv

/-! # Cauchy matrices and the codes built from them

The entry of a Cauchy matrix at row `i` and column `j` is the inverse of
`x i + y j`. Every square submatrix of it is nonsingular, and so is every
square selection of rows of an identity matrix stacked on a Cauchy matrix. -/

namespace MetaDedup.Foundation.CauchyCode

open Polynomial Function

variable {F : Type*} [Field F] {ι κ : Type*}

/-! ## The kernel of a Cauchy matrix -/

/-- The numerator obtained by clearing denominators in
`∑ j, coefficient j / (X + y j)`. -/
noncomputable def numerator [DecidableEq κ] (columns : Finset κ) (y : κ → F)
    (coefficient : κ → F) : F[X] :=
  ∑ column ∈ columns, C (coefficient column) *
    ∏ other ∈ columns.erase column, (X + C (y other))

private theorem degree_numerator_lt [DecidableEq κ] (columns : Finset κ)
    (y : κ → F) (coefficient : κ → F) :
    (numerator columns y coefficient).degree < columns.card := by
  rw [numerator, Polynomial.degree_lt_iff_coeff_zero]
  intro exponent large
  rw [Polynomial.finsetSum_coeff]
  apply Finset.sum_eq_zero
  intro column member
  rw [Polynomial.coeff_C_mul, Polynomial.coeff_eq_zero_of_natDegree_lt, mul_zero]
  rw [Polynomial.natDegree_prod_of_monic _ _ fun other _ =>
    Polynomial.monic_X_add_C (y other)]
  simp only [Polynomial.natDegree_X_add_C, Finset.sum_const, smul_eq_mul, mul_one]
  rw [Finset.card_erase_of_mem member]
  have positive := Finset.card_pos.mpr ⟨column, member⟩
  omega

private theorem eval_numerator [DecidableEq κ] (columns : Finset κ) (y : κ → F)
    (coefficient : κ → F) (point : F) (nonzero : ∀ column ∈ columns, point + y column ≠ 0) :
    (numerator columns y coefficient).eval point =
      (∏ column ∈ columns, (point + y column)) *
        ∑ column ∈ columns, (point + y column)⁻¹ * coefficient column := by
  rw [numerator, Polynomial.eval_finsetSum, Finset.mul_sum]
  apply Finset.sum_congr rfl
  intro column member
  rw [Polynomial.eval_mul, Polynomial.eval_C, Polynomial.eval_prod,
    ← Finset.mul_prod_erase columns _ member]
  simp only [Polynomial.eval_add, Polynomial.eval_X, Polynomial.eval_C]
  field_simp [nonzero column member]

private theorem eval_numerator_pole [DecidableEq κ] (columns : Finset κ)
    (y : κ → F) (coefficient : κ → F) {column : κ} (member : column ∈ columns) :
    (numerator columns y coefficient).eval (-y column) =
      coefficient column *
        ∏ other ∈ columns.erase column, (-y column + y other) := by
  rw [numerator, Polynomial.eval_finsetSum,
    Finset.sum_eq_single_of_mem column member]
  · simp [Polynomial.eval_prod]
  · intro other _ different
    rw [Polynomial.eval_mul, Polynomial.eval_prod]
    have factorZero : ∏ index ∈ columns.erase other,
        (X + C (y index)).eval (-y column) = 0 := by
      apply Finset.prod_eq_zero
        (Finset.mem_erase.mpr ⟨different.symm, member⟩)
      simp
    rw [factorZero, mul_zero]

/-- A vector supported on at most as many columns as there are rows is zero
when every row of the Cauchy matrix annihilates it. -/
theorem kernel_trivial (rows : Finset ι) (columns : Finset κ) (x : ι → F) (y : κ → F)
    (xInjective : Set.InjOn x rows) (yInjective : Set.InjOn y columns)
    (nonzero : ∀ row ∈ rows, ∀ column ∈ columns, x row + y column ≠ 0)
    (enough : columns.card ≤ rows.card) (coefficient : κ → F)
    (annihilated : ∀ row ∈ rows,
      ∑ column ∈ columns, (x row + y column)⁻¹ * coefficient column = 0) :
    ∀ column ∈ columns, coefficient column = 0 := by
  classical
  have numeratorZero : numerator columns y coefficient = 0 := by
    apply Polynomial.eq_zero_of_degree_lt_of_eval_index_eq_zero rows xInjective
    · exact lt_of_lt_of_le (degree_numerator_lt columns y coefficient)
        (by exact_mod_cast enough)
    · intro row member
      rw [eval_numerator columns y coefficient (x row) (nonzero row member),
        annihilated row member, mul_zero]
  intro column member
  have value := eval_numerator_pole columns y coefficient member
  rw [numeratorZero, Polynomial.eval_zero] at value
  rcases mul_eq_zero.mp value.symm with zero | productZero
  · exact zero
  · rcases Finset.prod_eq_zero_iff.mp productZero with ⟨other, otherMember, equal⟩
    have samePoint : y other = y column := by
      rw [neg_add_eq_zero] at equal
      exact equal.symm
    rw [Finset.mem_erase] at otherMember
    exact absurd (yInjective otherMember.2 member samePoint) otherMember.1

/-! ## Row selections -/

variable {k : Nat}

theorem cauchy_det_ne_zero (x y : Fin k → F)
    (xInjective : Injective x) (yInjective : Injective y)
    (nonzero : ∀ row column, x row + y column ≠ 0) :
    (Matrix.of fun row column => (x row + y column)⁻¹).det ≠ 0 := by
  intro singular
  rcases Matrix.exists_mulVec_eq_zero_iff.mpr singular with
    ⟨vector, vectorNonzero, annihilated⟩
  apply vectorNonzero
  funext column
  apply kernel_trivial Finset.univ Finset.univ x y xInjective.injOn
    yInjective.injOn (fun row _ column _ => nonzero row column) (le_refl _)
    vector _ column (Finset.mem_univ column)
  intro row _
  exact congrFun annihilated row

/-- Row `identifier` of an identity matrix stacked on a Cauchy matrix. -/
def systematicRow (x : Nat → F) (y : Fin k → F) (identifier : Nat) :
    Fin k → F :=
  fun column =>
    if identifier < k then if identifier = column.val then 1 else 0
    else (x (identifier - k) + y column)⁻¹

/-- There are as many Cauchy rows as columns that no identity row is for. -/
private theorem card_le_of_avoids {identifiers : Fin k → Nat} (distinct : Injective identifiers)
    {columns : Finset (Fin k)}
    (avoids : ∀ position, ∀ column ∈ columns, identifiers position ≠ column.val) :
    columns.card ≤ (Finset.univ.filter fun position => ¬ identifiers position < k).card := by
  let identityRows := Finset.univ.filter fun position => identifiers position < k
  have apart : Disjoint (identityRows.image identifiers) (columns.image Fin.val) := by
    simp only [Finset.disjoint_left, Finset.mem_image, not_exists, not_and]
    rintro _ ⟨position, _, rfl⟩ column member same
    exact avoids position column member same.symm
  have within : identityRows.image identifiers ∪ columns.image Fin.val ⊆ Finset.range k := by
    intro value member
    simp only [Finset.mem_union, Finset.mem_image, Finset.mem_filter, identityRows] at member
    rcases member with ⟨position, ⟨_, small⟩, rfl⟩ | ⟨column, _, rfl⟩
    · exact Finset.mem_range.mpr small
    · exact Finset.mem_range.mpr column.isLt
  have count := Finset.card_le_card within
  rw [Finset.card_union_of_disjoint apart, Finset.card_image_of_injective _ distinct,
    Finset.card_image_of_injective _ Fin.val_injective, Finset.card_range] at count
  have split := Finset.card_filter_add_card_filter_not (s := Finset.univ)
    (fun position : Fin k => identifiers position < k)
  rw [Finset.card_univ, Fintype.card_fin] at split
  change identityRows.card + _ = k at split
  omega

/-- Any `k` distinct rows of an identity matrix stacked on an `m`-row Cauchy
matrix form a nonsingular matrix. The identity rows force their columns of a
kernel vector to zero; the Cauchy rows are as many as the columns that are
left. -/
theorem systematic_det_ne_zero {m : Nat} (x : Nat → F) (y : Fin k → F)
    (xInjective : Set.InjOn x {index | index < m}) (yInjective : Injective y)
    (nonzero : ∀ row, row < m → ∀ column, x row + y column ≠ 0)
    (identifiers : Fin k → Nat) (distinct : Injective identifiers)
    (bounded : ∀ position, identifiers position < k + m) :
    (Matrix.of fun position => systematicRow x y (identifiers position)).det
      ≠ 0 := by
  classical
  intro singular
  rcases Matrix.exists_mulVec_eq_zero_iff.mpr singular with
    ⟨vector, vectorNonzero, annihilated⟩
  have equation : ∀ position, ∑ column,
      systematicRow x y (identifiers position) column * vector column = 0 :=
    congrFun annihilated
  let support := Finset.univ.filter fun column => vector column ≠ 0
  have avoids : ∀ position, ∀ column ∈ support, identifiers position ≠ column.val := by
    intro position column member same
    apply (Finset.mem_filter.mp member).2
    simpa [systematicRow, same, ← Fin.ext_iff] using equation position
  have supportZero : ∀ column ∈ support, vector column = 0 := by
    apply kernel_trivial _ support (fun position => x (identifiers position - k)) y _
      yInjective.injOn _ (card_le_of_avoids distinct avoids)
    · intro position member
      have large := (Finset.mem_filter.mp member).2
      rw [Finset.sum_filter_of_ne fun column _ => right_ne_zero_of_mul]
      simpa [systematicRow, large] using equation position
    · intro first firstMember second secondMember same
      have firstLarge := (Finset.mem_filter.mp firstMember).2
      have secondLarge := (Finset.mem_filter.mp secondMember).2
      have firstBound := bounded first
      have secondBound := bounded second
      have sameIndex := xInjective (show identifiers first - k < m by omega)
        (show identifiers second - k < m by omega) same
      exact distinct (by omega)
    · intro position member column _
      have large := (Finset.mem_filter.mp member).2
      have bound := bounded position
      exact nonzero _ (by omega) column
  apply vectorNonzero
  funext column
  by_contra present
  exact present (supportZero column (Finset.mem_filter.mpr ⟨Finset.mem_univ _, present⟩))

end MetaDedup.Foundation.CauchyCode
