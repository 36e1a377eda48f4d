import MetaDedup.Client.CDCodec.Codec
import MetaDedup.Foundation.CauchyCode

/-! # Dispersal of a package over the shares

Whatever a package holds, its `n` shares are the products of the rows of the
distribution matrix with the `k` blocks of the package, and any `k` of the shares
determine the blocks. -/

namespace MetaDedup.CDCodec

open Foundation RegionArithmetic CauchyCode Function

variable {gf : GaloisField} {crypto : CryptoPrimitive} {codec : CDCodec gf crypto}

theorem one_lt_k (codec : CDCodec gf crypto) : 1 < codec.k := by
  have bound := codec.accepted.2.2.1
  unfold k
  omega

theorem k_pos (codec : CDCodec gf crypto) : 0 < codec.k :=
  Nat.lt_of_succ_lt codec.one_lt_k

theorem k_add_m (codec : CDCodec gf crypto) : codec.k + codec.m = codec.n := by
  have bound := codec.accepted.2.1.2
  unfold k
  omega

theorem bytesPerSecretWord_pos (codec : CDCodec gf crypto) :
    0 < codec.bytesPerSecretWord :=
  crypto.hashSize_pos

/-- The field has enough elements for the rows and columns of the Cauchy
matrix. -/
def FitsField (codec : CDCodec gf crypto) : Prop :=
  match codec.type with
  | .crsss => codec.n + codec.k ≤ 256
  | .aontRS | .oldCaontRS | .caontRS => codec.n ≤ 256

/-! ## Any `k` rows are independent -/

variable {kShareIDList : Fin codec.k → Nat}

def point (gf : GaloisField) (index : Nat) : gf.Element := ⟨BitVec.ofNat 8 index⟩

theorem point_injective {left right : Nat} (leftBound : left < 256)
    (rightBound : right < 256) (equal : point gf left = point gf right) :
    left = right := by
  have bytes := congrArg (fun element : gf.Element => element.byte.toNat) equal
  simp only [point, BitVec.toNat_ofNat] at bytes
  omega

theorem divide_xor_eq_inv {row column : Nat} (rowBound : row < 256)
    (columnBound : column < 256) (different : row ≠ column) :
    (⟨gf.divide 1#8 (BitVec.ofNat 8 (row ^^^ column))⟩ : gf.Element) =
      (point gf row + point gf column)⁻¹ := by
  have nonzero : (point gf row + point gf column).byte ≠ 0#8 := by
    intro zero
    have equal := BitVec.xor_eq_zero_iff.mp zero
    exact different (point_injective rowBound columnBound (GaloisField.Element.ext equal))
  apply GaloisField.Element.ext
  rw [GaloisField.Element.inv_byte, if_neg nonzero, BitVec.ofNat_xor]
  rfl

theorem point_add_ne_zero {row column : Nat} (rowBound : row < 256)
    (columnBound : column < 256) (different : row ≠ column) :
    point gf row + point gf column ≠ 0 := by
  intro zero
  have equal : point gf row = point gf column := by
    rw [eq_neg_of_add_eq_zero_left zero]
    rfl
  exact different (point_injective rowBound columnBound equal)

private theorem distributionMatrix_crsss (crsss : codec.type = .crsss) (i : Nat) (j : Fin codec.k) :
    codec.distributionMatrix i j =
      ⟨gf.divide 1#8 (BitVec.ofNat 8 (i ^^^ (codec.n + j.val)))⟩ := by
  unfold distributionMatrix
  rw [crsss]

theorem distributionMatrix_systematic (systematic : codec.type ≠ .crsss) (i : Nat)
    (j : Fin codec.k) :
    codec.distributionMatrix i j =
      if i < codec.k then if i = j.val then 1 else 0
      else ⟨gf.divide 1#8 (BitVec.ofNat 8 ((i - codec.k) ^^^ (codec.m + j.val)))⟩ := by
  unfold distributionMatrix
  split
  · exact absurd (by assumption) systematic
  · rfl
  · rfl
  · rfl

private theorem fitsField_crsss (crsss : codec.type = .crsss) (fits : codec.FitsField) :
    codec.n + codec.k ≤ 256 := by
  unfold FitsField at fits
  rwa [crsss] at fits

private theorem fitsField_systematic (systematic : codec.type ≠ .crsss)
    (fits : codec.FitsField) : codec.n ≤ 256 := by
  unfold FitsField at fits
  split at fits
  · exact absurd (by assumption) systematic
  · exact fits
  · exact fits
  · exact fits

private theorem shareRows_det_ne_zero_crsss (crsss : codec.type = .crsss) (fits : codec.FitsField)
    (distinct : Injective kShareIDList)
    (bounded : ∀ position, kShareIDList position < codec.n) :
    (codec.shareRows kShareIDList).det ≠ 0 := by
  have room := fitsField_crsss crsss fits
  have cauchy : codec.shareRows kShareIDList = Matrix.of fun row column =>
      (point gf (kShareIDList row) + point gf (codec.n + column.val))⁻¹ := by
    ext1 row column
    have rowBound := bounded row
    have columnBound := column.isLt
    rw [shareRows, Matrix.of_apply, distributionMatrix_crsss crsss]
    exact divide_xor_eq_inv (by omega) (by omega) (by omega)
  rw [cauchy]
  apply cauchy_det_ne_zero
  · intro left right equal
    have leftBound := bounded left
    have rightBound := bounded right
    exact distinct (point_injective (by omega) (by omega) equal)
  · intro left right equal
    have sameColumn := point_injective (by omega) (by omega) equal
    exact Fin.ext (by omega)
  · intro row column
    have rowBound := bounded row
    exact point_add_ne_zero (by omega) (by omega) (by omega)

private theorem shareRows_det_ne_zero_systematic (systematic : codec.type ≠ .crsss)
    (fits : codec.FitsField) (distinct : Injective kShareIDList)
    (bounded : ∀ position, kShareIDList position < codec.n) :
    (codec.shareRows kShareIDList).det ≠ 0 := by
  have room := fitsField_systematic systematic fits
  have total := codec.k_add_m
  have stacked : codec.shareRows kShareIDList = Matrix.of fun row =>
      systematicRow (point gf) (fun column => point gf (codec.m + column.val))
        (kShareIDList row) := by
    ext1 row column
    have rowBound := bounded row
    rw [shareRows, Matrix.of_apply, distributionMatrix_systematic systematic,
      Matrix.of_apply, systematicRow]
    by_cases identity : kShareIDList row < codec.k
    · rw [if_pos identity, if_pos identity]
    · rw [if_neg identity, if_neg identity]
      exact divide_xor_eq_inv (by omega) (by omega) (by omega)
  rw [stacked]
  apply systematic_det_ne_zero (m := codec.m)
  · intro left leftBound right rightBound equal
    have leftSmall : left < codec.m := leftBound
    have rightSmall : right < codec.m := rightBound
    exact point_injective (by omega) (by omega) equal
  · intro left right equal
    have sameColumn := point_injective (by omega) (by omega) equal
    exact Fin.ext (by omega)
  · intro row rowBound column
    exact point_add_ne_zero (by omega) (by omega) (by omega)
  · exact distinct
  · intro position
    rw [total]
    exact bounded position

private theorem shareRows_det_ne_zero (fits : codec.FitsField) (distinct : Injective kShareIDList)
    (bounded : ∀ position, kShareIDList position < codec.n) :
    (codec.shareRows kShareIDList).det ≠ 0 := by
  by_cases crsss : codec.type = .crsss
  · exact shareRows_det_ne_zero_crsss crsss fits distinct bounded
  · exact shareRows_det_ne_zero_systematic crsss fits distinct bounded

/-! ## Shares and blocks -/

variable {left right : Buffer Byte} {position shareSize : Nat}

def share (codec : CDCodec gf crypto) (package : Buffer Byte) (shareSize id : Nat)
    (position : Nat) : Byte :=
  (codec.distributionMatrix id ⬝ᵥ
    blockColumn gf codec.k package shareSize position).byte

def HoldsShares (codec : CDCodec gf crypto) (shareBuffer package : Buffer Byte)
    (shareSize : Nat) (kShareIDList : Fin codec.k → Nat) : Prop :=
  ∀ (j : Fin codec.k) (position : Nat), position < shareSize →
    shareBuffer (shareSize * j.val + position) =
      codec.share package shareSize (kShareIDList j) position

theorem blockColumn_congr {blockSize : Nat}
    (agree : ∀ position < blockSize * codec.k, left position = right position)
    (inside : position < blockSize) :
    blockColumn gf codec.k left blockSize position =
      blockColumn gf codec.k right blockSize position := by
  funext j
  apply GaloisField.Element.ext
  exact agree _ (Layout.block_lt j.isLt inside)

theorem share_congr (agree : ∀ position < shareSize * codec.k, left position = right position)
    (id : Nat) (inside : position < shareSize) :
    codec.share left shareSize id position = codec.share right shareSize id position := by
  rw [share, share, blockColumn_congr agree inside]

theorem share_systematic (systematic : codec.type ≠ .crsss) (package : Buffer Byte)
    (shareSize : Nat) {id : Nat} (early : id < codec.k) (position : Nat) :
    codec.share package shareSize id position = package (shareSize * id + position) := by
  have unitRow : codec.distributionMatrix id = Pi.single ⟨id, early⟩ 1 := by
    funext j
    rw [distributionMatrix_systematic systematic, if_pos early, Pi.single_apply]
    simp only [Fin.ext_iff, eq_comm]
  rw [share, unitRow, single_one_dotProduct]
  rfl

theorem crsss_shareBuffer (package shareBuffer : Buffer Byte) (shareSize : Nat)
    {id : Nat} (bounded : id < codec.n) (inside : position < shareSize) :
    multiplyBlocks codec.distributionMatrix codec.n package shareSize shareBuffer 0
      (shareSize * id + position) = codec.share package shareSize id position := by
  have block := multiplyBlocks_block codec.k_pos codec.distributionMatrix package
    shareBuffer 0 bounded inside
  rwa [Nat.zero_add] at block

theorem systematicShares_shareBuffer (systematic : codec.type ≠ .crsss)
    (buffers : codec.Buffers) {alignedSecretSize : Nat}
    (whole : alignedSecretSize + codec.bytesPerSecretWord = shareSize * codec.k)
    (shareBuffer : Buffer Byte) {id : Nat} (bounded : id < codec.n)
    (inside : position < shareSize) :
    (codec.systematicShares buffers alignedSecretSize shareSize shareBuffer).shareBuffer
      (shareSize * id + position) =
      codec.share buffers.erasureCodingData shareSize id position := by
  have total := codec.k_add_m
  simp only [systematicShares, whole]
  by_cases early : id < codec.k
  · have fits : shareSize * id + position < shareSize * codec.k :=
      Layout.block_lt early inside
    rw [share_systematic systematic _ _ early, multiplyBlocks_apply codec.k_pos,
      if_neg (by omega), Buffer.copy_apply, if_pos (by omega), Nat.sub_zero]
  · have parity : id = codec.k + (id - codec.k) := by omega
    have row : id - codec.k < codec.m := by omega
    have place : shareSize * id + position =
        shareSize * codec.k + (shareSize * (id - codec.k) + position) := by
      rw [← Nat.add_assoc, ← Nat.mul_add, ← parity]
    rw [place, multiplyBlocks_block codec.k_pos _ _ _ _ row inside, ← parity]
    rfl

private theorem holdsShares_iff_mulVec {shareBuffer package : Buffer Byte} :
    codec.HoldsShares shareBuffer package shareSize kShareIDList ↔
      ∀ position < shareSize,
        blockColumn gf codec.k shareBuffer shareSize position =
          (codec.shareRows kShareIDList).mulVec
            (blockColumn gf codec.k package shareSize position) := by
  constructor
  · intro holds position inside
    funext j
    exact GaloisField.Element.ext (holds j position inside)
  · intro columns j position inside
    exact congrArg GaloisField.Element.byte (congrFun (columns position inside) j)

private theorem eq_of_blockColumn_eq {blockSize : Nat}
    (columns : ∀ position < blockSize,
      blockColumn gf codec.k left blockSize position =
        blockColumn gf codec.k right blockSize position)
    (inside : position < blockSize * codec.k) :
    left position = right position := by
  have sizePositive : 0 < blockSize := by
    rcases Nat.eq_zero_or_pos blockSize with zero | positive
    · rw [zero, Nat.zero_mul] at inside
      cases inside
    · exact positive
  have block : position / blockSize < codec.k :=
    Nat.div_lt_of_lt_mul inside
  have column := columns (position % blockSize) (Nat.mod_lt _ sizePositive)
  have byte := congrArg GaloisField.Element.byte
    (congrFun column ⟨position / blockSize, block⟩)
  simpa only [blockColumn, Nat.div_add_mod] using byte

/-- Recovery succeeds for any `k` distinct shares, and finds the only package
that has those shares. -/
theorem recoverBlocks_spec (fits : codec.FitsField) (distinct : Injective kShareIDList)
    (bounded : ∀ position, kShareIDList position < codec.n)
    (buffers : codec.Buffers) (shareBuffer : Buffer Byte) (shareSize : Nat) :
    ∃ data, codec.recoverBlocks buffers shareBuffer kShareIDList shareSize =
        .ok { buffers with erasureCodingData := data } ∧
      ∀ package, codec.HoldsShares shareBuffer package shareSize kShareIDList ↔
        ∀ position < shareSize * codec.k, data position = package position := by
  rcases squareMatrixInverting_exists (shareRows_det_ne_zero fits distinct bounded) with
    ⟨matrices, inverted⟩
  have inverse := squareMatrixInverting_some inverted
  have data_column : ∀ data, data = multiplyBlocks
      (fun i j => if bounded : i < codec.k then matrices.inverseMatrix ⟨i, bounded⟩ j
        else 0) codec.k shareBuffer shareSize buffers.erasureCodingData 0 →
      ∀ position < shareSize, blockColumn gf codec.k data shareSize position =
        matrices.inverseMatrix.mulVec
          (blockColumn gf codec.k shareBuffer shareSize position) := by
    intro data equal position inside
    funext i
    apply GaloisField.Element.ext
    have block := multiplyBlocks_block codec.k_pos
      (fun i j => if bounded : i < codec.k then matrices.inverseMatrix ⟨i, bounded⟩ j
        else 0) shareBuffer buffers.erasureCodingData 0 i.isLt inside
    rw [Nat.zero_add] at block
    rw [equal]
    simpa [blockColumn, Matrix.mulVec] using block
  refine ⟨_, by rw [recoverBlocks, inverted], ?_⟩
  intro package
  have columns := data_column _ rfl
  rw [holdsShares_iff_mulVec]
  constructor
  · intro holds position inside
    refine eq_of_blockColumn_eq ?_ inside
    intro position inside
    rw [columns position inside, holds position inside, Matrix.mulVec_mulVec,
      inverse.2.1, Matrix.one_mulVec]
  · intro agree position inside
    rw [← blockColumn_congr agree inside, columns position inside,
      Matrix.mulVec_mulVec, inverse.2.2, Matrix.one_mulVec]

end MetaDedup.CDCodec
