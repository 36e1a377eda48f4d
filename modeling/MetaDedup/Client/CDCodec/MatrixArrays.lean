import Mathlib.Logic.Function.Basic
import MetaDedup.Client.CDCodec.SquareMatrixInverting
import MetaDedup.Foundation.Buffer

/-! # The matrix arrays of a decoder

`squareMatrix_` and `inverseMatrix_` are arrays of `k_ * k_` elements in which the
element in row `i` and column `j` has the index `k_ * i + j`. The loops of
`squareMatrixInverting` work on these indices. Seen as matrices, the arrays undergo
the row operations of the inversion. -/

namespace MetaDedup.CDCodec

open Foundation RowReduction Function

/-- The two arrays; what lies behind their `k_ * k_` elements is never touched. -/
structure MatrixArrays where
  squareMatrix : Buffer Byte
  inverseMatrix : Buffer Byte

namespace MatrixArrays

def both (arrays : MatrixArrays) (assign : Buffer Byte → Buffer Byte) : MatrixArrays where
  squareMatrix := assign arrays.squareMatrix
  inverseMatrix := assign arrays.inverseMatrix

def swapElements (first second : Nat) (array : Buffer Byte) : Buffer Byte :=
  update (update array first (array second)) second (array first)

def multiplyElement (gf : GaloisField) (target : Nat) (multFactor : Byte)
    (array : Buffer Byte) : Buffer Byte :=
  update array target (gf.multiply (array target) multFactor)

/-- XOR a multiple of one element into another; the factor one needs no
multiplication. -/
def xorElement (gf : GaloisField) (target source : Nat) (multFactor : Byte)
    (array : Buffer Byte) : Buffer Byte :=
  if multFactor = 1#8 then
    update array target (array target ^^^ array source)
  else
    update array target (array target ^^^ gf.multiply (array source) multFactor)

def storeIdentity (k : Nat) (arrays : MatrixArrays) : MatrixArrays :=
  { arrays with
    inverseMatrix := (List.range (k * k)).foldl (fun array i =>
      update array i (if i / k = i % k then 1#8 else 0#8)) arrays.inverseMatrix }

def swapRows (k i j : Nat) (arrays : MatrixArrays) : MatrixArrays :=
  (List.range k).foldl (fun arrays h =>
    arrays.both (swapElements (k * i + h) (k * j + h))) arrays

def findPivot (k i : Nat) (arrays : MatrixArrays) : Option MatrixArrays :=
  if arrays.squareMatrix (k * i + i) = 0#8 then
    ((List.range' (i + 1) (k - (i + 1))).find?
      (fun j => arrays.squareMatrix (k * j + i) ≠ 0#8)).map fun j => arrays.swapRows k i j
  else some arrays

def normalizeRow (gf : GaloisField) (k i : Nat) (arrays : MatrixArrays) : MatrixArrays :=
  let tmp := arrays.squareMatrix (k * i + i)
  if tmp ≠ 1#8 then
    let multFactor := gf.divide 1#8 tmp
    (List.range k).foldl (fun arrays j =>
      arrays.both (multiplyElement gf (k * i + j) multFactor)) arrays
  else arrays

def eliminateBelow (gf : GaloisField) (k i : Nat) (arrays : MatrixArrays) (j : Nat) :
    MatrixArrays :=
  let multFactor := arrays.squareMatrix (k * j + i)
  if multFactor ≠ 0#8 then
    (List.range k).foldl (fun arrays l =>
      arrays.both (xorElement gf (k * j + l) (k * i + l) multFactor)) arrays
  else arrays

def forwardPass (gf : GaloisField) (k : Nat) (arrays : MatrixArrays) (i : Nat) :
    Option MatrixArrays := do
  let pivoted ← arrays.findPivot k i
  let normalized := pivoted.normalizeRow gf k i
  return (List.range' (i + 1) (k - (i + 1))).foldl (eliminateBelow gf k i) normalized

/-- Clear column `i` of row `j` in the backward pass, in `inverseMatrix_` only. -/
def eliminateAbove (gf : GaloisField) (k i : Nat) (arrays : MatrixArrays) (j : Nat) :
    MatrixArrays :=
  let multFactor := arrays.squareMatrix (k * j + i)
  if multFactor ≠ 0#8 then
    { squareMatrix := update arrays.squareMatrix (k * j + i) 0#8
      inverseMatrix := (List.range k).foldl (fun array l =>
        xorElement gf (k * j + l) (k * i + l) multFactor array) arrays.inverseMatrix }
  else arrays

def backwardPass (gf : GaloisField) (k : Nat) (arrays : MatrixArrays) (i : Nat) :
    MatrixArrays :=
  (List.range i).foldl (eliminateAbove gf k i) arrays

/-- The arrays when the function returns 1; `none` when it returns 0. -/
def squareMatrixInverting (gf : GaloisField) (k : Nat) (arrays : MatrixArrays) :
    Option MatrixArrays := do
  let triangular ← (List.range k).foldlM (forwardPass gf k) (arrays.storeIdentity k)
  return (List.range k).reverse.foldl (backwardPass gf k) triangular

end MatrixArrays

/-! ## Arrays as matrices -/

variable {column : Nat}

variable {gf : GaloisField} {k : Nat}

def rowsOf (gf : GaloisField) (k : Nat) (array : Buffer Byte) : SquareMatrix gf k :=
  fun row column => ⟨array (k * row.val + column.val)⟩

def MatrixArrays.matrices (gf : GaloisField) (k : Nat) (arrays : MatrixArrays) :
    InvertingMatrices gf k where
  squareMatrix := rowsOf gf k arrays.squareMatrix
  inverseMatrix := rowsOf gf k arrays.inverseMatrix

@[simp] theorem rowsOf_byte (array : Buffer Byte) (row column : Fin k) :
    (rowsOf gf k array row column).byte = array (k * row.val + column.val) := rfl

theorem index_eq_iff {row row' column' : Nat} (inside : column < k)
    (inside' : column' < k) :
    k * row + column = k * row' + column' ↔ row = row' ∧ column = column' := by
  constructor
  · intro same
    have rows := congrArg (· / k) same
    have columns := congrArg (· % k) same
    simp only [Nat.mul_add_div (Nat.zero_lt_of_lt inside), Nat.div_eq_of_lt inside,
      Nat.div_eq_of_lt inside', Nat.add_zero] at rows
    simp only [Nat.mul_add_mod, Nat.mod_eq_of_lt inside, Nat.mod_eq_of_lt inside'] at columns
    exact ⟨rows, columns⟩
  · rintro ⟨rfl, rfl⟩
    rfl

theorem index_mod (row : Nat) (inside : column < k) :
    (k * row + column) % k = column := by
  rw [Nat.mul_add_mod, Nat.mod_eq_of_lt inside]

theorem rowsOf_foldl (assign : Nat → Buffer Byte → Buffer Byte)
    (frame : ∀ array, ∀ column < k, ∀ index, index % k ≠ column →
      assign column array index = array index)
    (locality : ∀ left right : Buffer Byte, ∀ column < k,
      (∀ index, index % k = column → left index = right index) →
      ∀ index, index % k = column → assign column left index = assign column right index)
    (array : Buffer Byte) (row column : Fin k) :
    rowsOf gf k ((List.range k).foldl (fun array column => assign column array) array)
        row column =
      ⟨assign column.val array (k * row.val + column.val)⟩ := by
  rw [rowsOf, Buffer.foldl_columns (fun array column => assign column array) (· % k) k
    frame locality, index_mod row.val column.isLt, if_pos column.isLt]

theorem index_ne {index : Nat} (row : Nat) (inside : column < k)
    (other : index % k ≠ column) : index ≠ k * row + column := by
  rintro rfl
  exact other (index_mod row inside)

open MatrixArrays

private theorem rowsOf_swapElements (i j : Fin k) (array : Buffer Byte) :
    rowsOf gf k ((List.range k).foldl (fun array h =>
        swapElements (k * i.val + h) (k * j.val + h) array) array) =
      RowReduction.swapRows (rowsOf gf k array) i j := by
  funext row column
  rw [rowsOf_foldl (fun h => swapElements (k * i.val + h) (k * j.val + h))]
  case frame =>
    intro array h inside index other
    rw [swapElements, update_of_ne (index_ne _ inside other),
      update_of_ne (index_ne _ inside other)]
  case locality =>
    intro left right h inside agree index same
    simp only [swapElements, update_apply, agree _ (index_mod i.val inside),
      agree _ (index_mod j.val inside), agree _ same]
  rw [RowReduction.swapRows_apply, Equiv.swap_apply_def, swapElements, update_apply,
    update_apply]
  simp only [index_eq_iff column.isLt column.isLt, and_true, Fin.val_inj]
  by_cases second : row = j
  · by_cases first : row = i
    · rw [if_pos second, if_pos first, ← second, ← first]
      rfl
    · rw [if_pos second, if_neg first, if_pos second]
      rfl
  · rw [if_neg second, if_neg second]
    by_cases first : row = i
    · rw [if_pos first, if_pos first]
      rfl
    · rw [if_neg first, if_neg first]
      rfl

private theorem rowsOf_multiplyElement (i : Fin k) (multFactor : Byte) (array : Buffer Byte) :
    rowsOf gf k ((List.range k).foldl (fun array j =>
        multiplyElement gf (k * i.val + j) multFactor array) array) =
      scaleRow (rowsOf gf k array) i ⟨multFactor⟩ := by
  funext row column
  rw [rowsOf_foldl (fun j => multiplyElement gf (k * i.val + j) multFactor)]
  case frame =>
    intro array j inside index other
    rw [multiplyElement, update_of_ne (index_ne _ inside other)]
  case locality =>
    intro left right j inside agree index same
    simp only [multiplyElement, update_apply, agree _ (index_mod i.val inside),
      agree _ same]
  rw [scaleRow_apply, multiplyElement, update_apply]
  simp only [index_eq_iff column.isLt column.isLt, and_true, Fin.val_inj]
  apply GaloisField.Element.ext
  by_cases scaled : row = i
  · simp [scaled, gf.multiply_comm]
  · simp [scaled]

private theorem xorElement_apply (target source index : Nat) (multFactor : Byte)
    (array : Buffer Byte) :
    xorElement gf target source multFactor array index =
      if index = target then array target ^^^ gf.multiply (array source) multFactor
      else array index := by
  unfold xorElement
  split
  · rename_i unit
    rw [unit, gf.multiply_one, update_apply]
  · rw [update_apply]

theorem rowsOf_xorElement (target source : Fin k) (multFactor : Byte)
    (array : Buffer Byte) :
    rowsOf gf k ((List.range k).foldl (fun array l =>
        xorElement gf (k * target.val + l) (k * source.val + l) multFactor array) array) =
      xorMultipleOfRow (rowsOf gf k array) target source ⟨multFactor⟩ := by
  funext row column
  rw [rowsOf_foldl
    (fun l => xorElement gf (k * target.val + l) (k * source.val + l) multFactor)]
  case frame =>
    intro array l inside index other
    rw [xorElement_apply, if_neg (index_ne _ inside other)]
  case locality =>
    intro left right l inside agree index same
    simp only [xorElement_apply, agree _ (index_mod target.val inside),
      agree _ (index_mod source.val inside), agree _ same]
  rw [xorMultipleOfRow_eq_addRow, addRow_apply, xorElement_apply]
  simp only [index_eq_iff column.isLt column.isLt, and_true, Fin.val_inj]
  apply GaloisField.Element.ext
  by_cases changed : row = target
  · simp [changed, gf.multiply_comm]
  · simp [changed]

private theorem matrices_storeIdentity (arrays : MatrixArrays) :
    (arrays.storeIdentity k).matrices gf k =
      { squareMatrix := rowsOf gf k arrays.squareMatrix, inverseMatrix := 1 } := by
  have identity : rowsOf gf k (arrays.storeIdentity k).inverseMatrix = 1 := by
    funext row column
    apply GaloisField.Element.ext
    have stored := Buffer.foldl_blocks
      (fun array i => update array i (if i / k = i % k then 1#8 else 0#8))
      (fun i => if i / k = i % k then 1#8 else 0#8) 0 1 (k * k) ?pass
      arrays.inverseMatrix (k * row.val + column.val)
    case pass =>
      intro array index _ position
      rw [update_apply]
      by_cases same : position = index
      · have within : 0 + 1 * index ≤ position ∧ position < 0 + 1 * index + 1 := by omega
        rw [if_pos same, if_pos within, same]
      · have outside : ¬(0 + 1 * index ≤ position ∧ position < 0 + 1 * index + 1) := by omega
        rw [if_neg same, if_neg outside]
    have inside := Layout.block_lt row.isLt column.isLt
    have quotient : (k * row.val + column.val) / k = row.val := by
      rw [Nat.mul_add_div (Nat.zero_lt_of_lt column.isLt), Nat.div_eq_of_lt column.isLt,
        Nat.add_zero]
    rw [if_pos (by omega), quotient, index_mod row.val column.isLt] at stored
    refine stored.trans ?_
    rw [Matrix.one_apply]
    simp only [Fin.val_inj]
    split
    · rfl
    · rfl
  rw [MatrixArrays.matrices, identity]
  rfl

/-! ## The loops as row operations -/

theorem foldl_both (assign : Nat → Buffer Byte → Buffer Byte) (columns : List Nat)
    (arrays : MatrixArrays) :
    columns.foldl (fun arrays column => arrays.both (assign column)) arrays =
      { squareMatrix := columns.foldl (fun array column => assign column array)
          arrays.squareMatrix
        inverseMatrix := columns.foldl (fun array column => assign column array)
          arrays.inverseMatrix } := by
  induction columns generalizing arrays with
  | nil => rfl
  | cons column rest induction => exact induction _

theorem rows_below (i : Fin k) :
    List.range' (i.val + 1) (k - (i.val + 1)) =
      ((List.finRange k).filter (fun j => i < j)).map Fin.val :=
  Loop.range'_eq_filter (by omega) (fun j => i.val < j) (by
    intro j inside
    rw [decide_eq_true_eq]
    omega)

private theorem rows_above (i : Fin k) :
    List.range i.val = ((List.finRange k).filter (fun j => j < i)).map Fin.val := by
  rw [List.range_eq_range']
  exact Loop.range'_eq_filter (by omega) (fun j => j < i.val) (by
    intro j inside
    rw [decide_eq_true_eq]
    omega)

private theorem matrices_swapRows (i j : Fin k) (arrays : MatrixArrays) :
    (arrays.swapRows k i.val j.val).matrices gf k =
      { squareMatrix := RowReduction.swapRows (arrays.matrices gf k).squareMatrix i j
        inverseMatrix := RowReduction.swapRows (arrays.matrices gf k).inverseMatrix i j } := by
  rw [MatrixArrays.swapRows,
    foldl_both (fun h => swapElements (k * i.val + h) (k * j.val + h)), MatrixArrays.matrices,
    rowsOf_swapElements, rowsOf_swapElements]
  rfl

private theorem matrices_findPivot (i : Fin k) (arrays : MatrixArrays) :
    (arrays.findPivot k i.val).map (MatrixArrays.matrices gf k) =
      (arrays.matrices gf k).findPivot i := by
  have element : ∀ row column : Fin k, (arrays.matrices gf k).squareMatrix row column = 0 ↔
      arrays.squareMatrix (k * row.val + column.val) = 0#8 :=
    fun row column => GaloisField.Element.eq_zero_iff _
  unfold MatrixArrays.findPivot InvertingMatrices.findPivot
  simp only [element, ne_eq]
  split
  · rw [rows_below, List.find?_map, List.find?_filter]
    simp only [Option.map_map, Function.comp_def, matrices_swapRows, decide_eq_true_eq]
  · rfl

private theorem matrices_normalizeRow (i : Fin k) (arrays : MatrixArrays) :
    (arrays.normalizeRow gf k i.val).matrices gf k =
      (arrays.matrices gf k).normalizeRow i := by
  have unit : (arrays.matrices gf k).squareMatrix i i = 1 ↔
      arrays.squareMatrix (k * i.val + i.val) = 1#8 := GaloisField.Element.ext_iff
  unfold MatrixArrays.normalizeRow InvertingMatrices.normalizeRow
  simp only [unit, ne_eq]
  split
  · rw [foldl_both (fun j => multiplyElement gf (k * i.val + j) _), MatrixArrays.matrices,
      rowsOf_multiplyElement, rowsOf_multiplyElement]
    rfl
  · rfl

private theorem matrices_eliminateBelow (i j : Fin k) (arrays : MatrixArrays) :
    (arrays.eliminateBelow gf k i.val j.val).matrices gf k =
      InvertingMatrices.eliminateBelow i (arrays.matrices gf k) j := by
  have zero : (arrays.matrices gf k).squareMatrix j i = 0 ↔
      arrays.squareMatrix (k * j.val + i.val) = 0#8 := GaloisField.Element.eq_zero_iff _
  unfold MatrixArrays.eliminateBelow InvertingMatrices.eliminateBelow
  simp only [zero, ne_eq]
  split
  · rw [foldl_both (fun l => xorElement gf (k * j.val + l) (k * i.val + l) _),
      MatrixArrays.matrices, rowsOf_xorElement, rowsOf_xorElement]
    rfl
  · rfl

private theorem matrices_forwardPass (i : Fin k) (arrays : MatrixArrays) :
    (arrays.forwardPass gf k i.val).map (MatrixArrays.matrices gf k) =
      (arrays.matrices gf k).forwardPass i := by
  unfold MatrixArrays.forwardPass InvertingMatrices.forwardPass
  rw [← matrices_findPivot]
  cases arrays.findPivot k i.val with
  | none => rfl
  | some pivoted =>
      simp only [Option.map_some, Option.bind_eq_bind, Option.bind_some, Option.pure_def,
        Option.some.injEq]
      rw [rows_below, List.foldl_map, ← matrices_normalizeRow]
      exact (List.foldl_hom (MatrixArrays.matrices gf k)
        fun arrays j => (matrices_eliminateBelow i j arrays).symm).symm

private theorem rowsOf_update (row column : Fin k) (value : Byte) (array : Buffer Byte) :
    rowsOf gf k (update array (k * row.val + column.val) value) =
      setEntry (rowsOf gf k array) row column ⟨value⟩ := by
  funext other otherColumn
  rw [setEntry_apply, rowsOf, update_apply]
  simp only [index_eq_iff otherColumn.isLt column.isLt, Fin.val_inj]
  split
  · rfl
  · rfl

private theorem matrices_eliminateAbove (i j : Fin k) (arrays : MatrixArrays) :
    (arrays.eliminateAbove gf k i.val j.val).matrices gf k =
      InvertingMatrices.eliminateAbove i (arrays.matrices gf k) j := by
  have zero : (arrays.matrices gf k).squareMatrix j i = 0 ↔
      arrays.squareMatrix (k * j.val + i.val) = 0#8 := GaloisField.Element.eq_zero_iff _
  unfold MatrixArrays.eliminateAbove InvertingMatrices.eliminateAbove
  simp only [zero, ne_eq]
  split
  · rw [MatrixArrays.matrices, rowsOf_update, rowsOf_xorElement]
    rfl
  · rfl

private theorem matrices_backwardPass (i : Fin k) (arrays : MatrixArrays) :
    (arrays.backwardPass gf k i.val).matrices gf k =
      (arrays.matrices gf k).backwardPass i := by
  rw [MatrixArrays.backwardPass, InvertingMatrices.backwardPass, rows_above, List.foldl_map]
  exact (List.foldl_hom (MatrixArrays.matrices gf k)
    fun arrays j => (matrices_eliminateAbove i j arrays).symm).symm

private theorem matrices_squareMatrixInverting (arrays : MatrixArrays) :
    (arrays.squareMatrixInverting gf k).map (MatrixArrays.matrices gf k) =
      CDCodec.squareMatrixInverting (rowsOf gf k arrays.squareMatrix) := by
  unfold MatrixArrays.squareMatrixInverting CDCodec.squareMatrixInverting
  have forward := Loop.foldlM_view (MatrixArrays.matrices gf k)
    (fun arrays (i : Fin k) => MatrixArrays.forwardPass gf k arrays i.val)
    InvertingMatrices.forwardPass (List.finRange k)
    (fun i _ arrays => matrices_forwardPass i arrays) (arrays.storeIdentity k)
  rw [matrices_storeIdentity] at forward
  rw [← forward, ← List.map_coe_finRange_eq_range, List.foldlM_map]
  cases (List.finRange k).foldlM
      (fun arrays (i : Fin k) => MatrixArrays.forwardPass gf k arrays i.val)
      (arrays.storeIdentity k) with
  | none => rfl
  | some triangular =>
      simp only [Option.map_some, Option.bind_eq_bind, Option.bind_some, Option.pure_def,
        Option.some.injEq]
      rw [← List.map_reverse, List.foldl_map]
      exact (List.foldl_hom (MatrixArrays.matrices gf k)
        fun arrays i => (matrices_backwardPass i arrays).symm).symm

/-- The inversion of the arrays returns 1 exactly for an invertible matrix. It then
leaves the identity in `squareMatrix_` and a two-sided inverse in `inverseMatrix_`. -/
theorem squareMatrixInverting_inverts (gf : GaloisField) (k : Nat) (arrays : MatrixArrays) :
    ((arrays.squareMatrixInverting gf k).isSome = true ↔
      IsUnit (rowsOf gf k arrays.squareMatrix)) ∧
    ∀ final, arrays.squareMatrixInverting gf k = some final →
      rowsOf gf k final.inverseMatrix * rowsOf gf k arrays.squareMatrix = 1 ∧
        rowsOf gf k arrays.squareMatrix * rowsOf gf k final.inverseMatrix = 1 ∧
        rowsOf gf k final.squareMatrix = 1 := by
  have computes : (arrays.squareMatrixInverting gf k).map (MatrixArrays.matrices gf k) = _ :=
    matrices_squareMatrixInverting arrays
  have succeeded : ∀ final, arrays.squareMatrixInverting gf k = some final →
      rowsOf gf k final.inverseMatrix * rowsOf gf k arrays.squareMatrix = 1 ∧
        rowsOf gf k arrays.squareMatrix * rowsOf gf k final.inverseMatrix = 1 ∧
        rowsOf gf k final.squareMatrix = 1 := by
    intro final returned
    rw [returned, Option.map_some] at computes
    rcases squareMatrixInverting_some computes.symm with ⟨identity, left, right⟩
    exact ⟨left, right, identity⟩
  refine ⟨⟨?_, ?_⟩, succeeded⟩
  · intro returned
    rcases Option.isSome_iff_exists.mp returned with ⟨final, inverted⟩
    rcases succeeded final inverted with ⟨left, right, _⟩
    exact ⟨⟨_, _, right, left⟩, rfl⟩
  · intro unit
    rw [Matrix.isUnit_iff_isUnit_det, isUnit_iff_ne_zero] at unit
    rcases squareMatrixInverting_exists unit with ⟨final, inverted⟩
    rw [inverted] at computes
    rcases Option.map_eq_some_iff.mp computes with ⟨reached, returned, _⟩
    rw [returned]
    rfl

end MetaDedup.CDCodec
