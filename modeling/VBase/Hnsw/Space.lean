import VBase.Foundation.Simd
import Mathlib.Algebra.Field.Defs

/-! # The spaces of hnswlib

The constructor of a space picks a distance function by the dimension it is given,
and the function picked for a multiple of 16 or 4 reads only whole blocks of 16 or 4
components. This is no loss when the function is then told that same dimension.
Numbers are exact, and vectors are read through pointers.
-/

namespace VBase.Hnsw

variable {D : Type} [CommRing D]

/-! ## Loops over blocks of components -/

/-- The loop of the `SIMD16Ext` functions, in registers of eight lanes or of four. -/
def simd16Ext (avx : Bool) (term : Nat → D) (qty : Nat) : D :=
  let lanes := if avx then 8 else 4
  (Simd.accumulate lanes term (qty / 16 * (16 / lanes)) (List.replicate lanes 0)).sum

theorem simd16Ext_eq (avx : Bool) (term : Nat → D) (qty : Nat) :
    simd16Ext avx term qty = ∑ i ∈ Finset.range (qty / 16 * 16), term i := by
  rw [simd16Ext, Simd.accumulate_zero_sum]
  congr 2
  cases avx <;> simp <;> omega

/-- Whole blocks first, then the components that are left. -/
theorem sum_blocks_add_tail (term : Nat → D) {size : Nat} (hsize : 0 < size) (qty : Nat) :
    ∑ i ∈ Finset.range (qty / size * size / size * size), term i +
        ∑ i ∈ Finset.range (qty - qty / size * size), term (qty / size * size + i) =
      ∑ i ∈ Finset.range qty, term i := by
  rw [Nat.mul_div_cancel _ hsize, ← Finset.sum_range_add,
    Nat.add_sub_cancel' (Nat.div_mul_le_self qty size)]

/-! ## Squared Euclidean distance -/

section L2

variable (avx : Bool) (pVect1 pVect2 : Nat → D) (qty : Nat)

def squaredDiff (i : Nat) : D :=
  let t := pVect1 i - pVect2 i
  t * t

def l2Sqr : D := Simd.scalar (squaredDiff pVect1 pVect2) qty

def l2SqrSIMD16Ext : D := simd16Ext avx (squaredDiff pVect1 pVect2) qty

def l2SqrSIMD16ExtResiduals : D :=
  let qty16 := qty / 16 * 16
  let res := l2SqrSIMD16Ext avx pVect1 pVect2 qty16
  let resTail := l2Sqr (fun i => pVect1 (qty16 + i)) (fun i => pVect2 (qty16 + i)) (qty - qty16)
  res + resTail

def l2SqrSIMD4Ext : D :=
  (Simd.accumulate 4 (squaredDiff pVect1 pVect2) (qty / 4) (List.replicate 4 0)).sum

def l2SqrSIMD4ExtResiduals : D :=
  let qty4 := qty / 4 * 4
  let res := l2SqrSIMD4Ext pVect1 pVect2 qty4
  let resTail := l2Sqr (fun i => pVect1 (qty4 + i)) (fun i => pVect2 (qty4 + i)) (qty - qty4)
  res + resTail

variable {pVect1 pVect2 qty} in
theorem l2SqrSIMD4Ext_eq : l2SqrSIMD4Ext pVect1 pVect2 qty =
    ∑ i ∈ Finset.range (qty / 4 * 4), squaredDiff pVect1 pVect2 i := by
  rw [l2SqrSIMD4Ext, Simd.accumulate_zero_sum, Nat.mul_comm]

theorem l2SqrSIMD16ExtResiduals_eq : l2SqrSIMD16ExtResiduals avx pVect1 pVect2 qty =
    ∑ i ∈ Finset.range qty, squaredDiff pVect1 pVect2 i := by
  rw [← sum_blocks_add_tail (squaredDiff pVect1 pVect2) (by decide : 0 < 16) qty,
    ← simd16Ext_eq avx, ← Simd.scalar_eq]
  rfl

theorem l2SqrSIMD4ExtResiduals_eq : l2SqrSIMD4ExtResiduals pVect1 pVect2 qty =
    ∑ i ∈ Finset.range qty, squaredDiff pVect1 pVect2 i := by
  rw [← sum_blocks_add_tail (squaredDiff pVect1 pVect2) (by decide : 0 < 4) qty,
    ← l2SqrSIMD4Ext_eq, ← Simd.scalar_eq]
  rfl

end L2

/-! ## Inner product -/

section InnerProduct

variable (avx : Bool) (pVect1 pVect2 : Nat → D) (qty : Nat)

def product (i : Nat) : D := pVect1 i * pVect2 i

def innerProduct : D := Simd.scalar (product pVect1 pVect2) qty

def innerProductDistance : D := 1 - innerProduct pVect1 pVect2 qty

/-- Blocks of 16 in a register of eight lanes, whose halves are added before the rest is read in
blocks of four. -/
def innerProductSIMD4ExtAVX : D :=
  let qty16 := qty / 16
  let qty4 := qty / 4
  let sum256 := Simd.accumulate 8 (product pVect1 pVect2) (qty16 * 2) (List.replicate 8 0)
  let sumProd := Simd.add (sum256.take 4) (sum256.drop 4)
  (Simd.accumulate 4 (fun i => product pVect1 pVect2 (16 * qty16 + i)) (qty4 - 4 * qty16)
    sumProd).sum

def innerProductSIMD4ExtSSE : D :=
  let qty16 := qty / 16
  let qty4 := qty / 4
  let sumProd := Simd.accumulate 4 (product pVect1 pVect2) (qty16 * 4) (List.replicate 4 0)
  (Simd.accumulate 4 (fun i => product pVect1 pVect2 (16 * qty16 + i)) (qty4 - 4 * qty16)
    sumProd).sum

def innerProductSIMD4Ext : D :=
  if avx then innerProductSIMD4ExtAVX pVect1 pVect2 qty
  else innerProductSIMD4ExtSSE pVect1 pVect2 qty

def innerProductDistanceSIMD4Ext : D := 1 - innerProductSIMD4Ext avx pVect1 pVect2 qty

def innerProductSIMD16Ext : D := simd16Ext avx (product pVect1 pVect2) qty

def innerProductDistanceSIMD16Ext : D := 1 - innerProductSIMD16Ext avx pVect1 pVect2 qty

def innerProductDistanceSIMD16ExtResiduals : D :=
  let qty16 := qty / 16 * 16
  let res := innerProductSIMD16Ext avx pVect1 pVect2 qty16
  let resTail := innerProduct (fun i => pVect1 (qty16 + i)) (fun i => pVect2 (qty16 + i))
    (qty - qty16)
  1 - (res + resTail)

def innerProductDistanceSIMD4ExtResiduals : D :=
  let qty4 := qty / 4 * 4
  let res := innerProductSIMD4Ext avx pVect1 pVect2 qty4
  let resTail := innerProduct (fun i => pVect1 (qty4 + i)) (fun i => pVect2 (qty4 + i))
    (qty - qty4)
  1 - (res + resTail)

variable {pVect1 pVect2 qty} in
/-- The second loop of the `SIMD4Ext` functions, whatever registers the first one used. -/
theorem quads_after_blocks {sumProd : List D} (hlength : sumProd.length = 4)
    (hsum : sumProd.sum = ∑ i ∈ Finset.range (16 * (qty / 16)), product pVect1 pVect2 i) :
    (Simd.accumulate 4 (fun i => product pVect1 pVect2 (16 * (qty / 16) + i))
        (qty / 4 - 4 * (qty / 16)) sumProd).sum =
      ∑ i ∈ Finset.range (qty / 4 * 4), product pVect1 pVect2 i := by
  have hsplit : qty / 4 * 4 = 16 * (qty / 16) + 4 * (qty / 4 - 4 * (qty / 16)) := by omega
  rw [(Simd.accumulate_spec _ _ hlength).2, hsum, hsplit, Finset.sum_range_add]

theorem innerProductSIMD4Ext_eq : innerProductSIMD4Ext avx pVect1 pVect2 qty =
    ∑ i ∈ Finset.range (qty / 4 * 4), product pVect1 pVect2 i := by
  cases avx with
  | true =>
      have hlength := (Simd.accumulate_spec (product pVect1 pVect2) (qty / 16 * 2)
        (List.length_replicate (n := 8) (a := (0 : D)))).1
      have htake := List.length_take_of_le (hlength ▸ (by decide : 4 ≤ 8))
      have hdrop := (List.length_drop (i := 4)).trans (congrArg (· - 4) hlength)
      have hhalves := htake.trans hdrop.symm
      refine quads_after_blocks ((Simd.add_length hhalves).trans htake) ?_
      rw [Simd.add_sum hhalves, List.sum_take_add_sum_drop, Simd.accumulate_zero_sum]
      congr 2
      omega
  | false =>
      refine quads_after_blocks ?_ ?_
      · exact (Simd.accumulate_spec _ _ List.length_replicate).1
      · rw [Simd.accumulate_zero_sum]
        congr 2
        omega

theorem innerProductDistanceSIMD16ExtResiduals_eq :
    innerProductDistanceSIMD16ExtResiduals avx pVect1 pVect2 qty =
      1 - ∑ i ∈ Finset.range qty, product pVect1 pVect2 i := by
  rw [← sum_blocks_add_tail (product pVect1 pVect2) (by decide : 0 < 16) qty,
    ← simd16Ext_eq avx, ← Simd.scalar_eq]
  rfl

theorem innerProductDistanceSIMD4ExtResiduals_eq :
    innerProductDistanceSIMD4ExtResiduals avx pVect1 pVect2 qty =
      1 - ∑ i ∈ Finset.range qty, product pVect1 pVect2 i := by
  rw [← sum_blocks_add_tail (product pVect1 pVect2) (by decide : 0 < 4) qty,
    ← innerProductSIMD4Ext_eq avx, ← Simd.scalar_eq]
  rfl

end InnerProduct

/-! ## Spaces -/

/-- `SpaceInterface`: the distance function and the dimension that it is told. -/
structure SpaceInterface (D : Type) where
  getDistFunc : (Nat → D) → (Nat → D) → Nat → D
  dim : Nat

/-- `L2Space(dim)`, compiled with SSE and AVX; `avx` is `AVXCapable()`. -/
def l2Space (avx : Bool) (dim : Nat) : SpaceInterface D where
  getDistFunc :=
    if dim % 16 = 0 then l2SqrSIMD16Ext avx
    else if dim % 4 = 0 then l2SqrSIMD4Ext
    else if 16 < dim then l2SqrSIMD16ExtResiduals avx
    else if 4 < dim then l2SqrSIMD4ExtResiduals
    else l2Sqr
  dim := dim

def innerProductSpace (avx : Bool) (dim : Nat) : SpaceInterface D where
  getDistFunc :=
    if dim % 16 = 0 then innerProductDistanceSIMD16Ext avx
    else if dim % 4 = 0 then innerProductDistanceSIMD4Ext avx
    else if 16 < dim then innerProductDistanceSIMD16ExtResiduals avx
    else if 4 < dim then innerProductDistanceSIMD4ExtResiduals avx
    else innerProductDistance
  dim := dim

/-- The components that a function picked for `dim` reads when it is told `qty`. -/
def covered (dim qty : Nat) : Nat :=
  if dim % 16 = 0 then qty / 16 * 16
  else if dim % 4 = 0 then qty / 4 * 4
  else qty

theorem covered_self (dim : Nat) : covered dim dim = dim := by
  unfold covered
  split
  · omega
  · split <;> omega

/-- What a function picked for `dim` computes. -/
theorem l2Space_getDistFunc (avx : Bool) (dim : Nat) (pVect1 pVect2 : Nat → D) (qty : Nat) :
    (l2Space avx dim).getDistFunc pVect1 pVect2 qty =
      ∑ i ∈ Finset.range (covered dim qty), squaredDiff pVect1 pVect2 i := by
  unfold l2Space covered
  dsimp only
  split
  · exact simd16Ext_eq avx _ qty
  · split
    · exact l2SqrSIMD4Ext_eq
    · split
      · exact l2SqrSIMD16ExtResiduals_eq avx pVect1 pVect2 qty
      · split
        · exact l2SqrSIMD4ExtResiduals_eq pVect1 pVect2 qty
        · exact Simd.scalar_eq _ qty

theorem innerProductSpace_getDistFunc (avx : Bool) (dim : Nat) (pVect1 pVect2 : Nat → D)
    (qty : Nat) :
    (innerProductSpace avx dim).getDistFunc pVect1 pVect2 qty =
      1 - ∑ i ∈ Finset.range (covered dim qty), product pVect1 pVect2 i := by
  unfold innerProductSpace covered
  dsimp only
  split
  · exact congrArg (1 - ·) (simd16Ext_eq avx _ qty)
  · split
    · exact congrArg (1 - ·) (innerProductSIMD4Ext_eq avx pVect1 pVect2 qty)
    · split
      · exact innerProductDistanceSIMD16ExtResiduals_eq avx pVect1 pVect2 qty
      · split
        · exact innerProductDistanceSIMD4ExtResiduals_eq avx pVect1 pVect2 qty
        · exact congrArg (1 - ·) (Simd.scalar_eq _ qty)

end VBase.Hnsw
