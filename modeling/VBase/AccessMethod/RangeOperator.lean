import VBase.AccessMethod.Operator
import Mathlib.Algebra.Order.BigOperators.Ring.Finset
import Mathlib.Tactic.NormNum.Basic

/-! # What the operators compute

The distance operators read whole blocks of 16 components, so they compute the distance
of all arrays of a length only if the length is a multiple of 16. The range operators
take the radius from the front of their second array and compare the distance from the
rest of it with the radius. They do not compare the lengths of the arrays, and their
arguments play different parts, although each is declared as its own commutator.
-/

namespace VBase.AccessMethod

open VBase.Hnsw

/-! ## Every dimension -/

section Dimension

variable (D : Type) [Field D]

/-- The distance operators compute the distance of all arrays of length `n`. -/
def ComputesDistance (n : Nat) : Prop :=
  ∀ (avx : Bool) (lhs rhs : List D), lhs.length = n → rhs.length = n →
    ∀ afterLhs afterRhs : Nat → D,
      l2Distance avx lhs rhs afterLhs afterRhs =
          Except.ok (∑ i ∈ Finset.range n, (lhs.getD i 0 - rhs.getD i 0) ^ 2) ∧
        innerProductDistance avx lhs rhs afterLhs afterRhs =
          Except.ok (1 - ∑ i ∈ Finset.range n, lhs.getD i 0 * rhs.getD i 0)

variable {D}

/-- On arrays of whole blocks the operators miss nothing. -/
theorem operator_of_blocks (avx : Bool) (method : DistanceMethod) {lhs rhs : List D}
    (hlength : lhs.length = rhs.length) (hblocks : lhs.length % 16 = 0)
    (afterLhs afterRhs : Nat → D) :
    operator avx method lhs rhs afterLhs afterRhs =
      Except.ok (exactDistance method lhs.length (pointer lhs 0) (pointer rhs 0)) := by
  have hwhole : lhs.length / 16 * 16 = lhs.length := by omega
  rw [operator_ok avx method hlength, exactDistance_blocks method hlength _ 0 _ 0, hwhole]

/-- The operators compute the distance of all arrays of a length if and only if the length is a
multiple of 16. -/
theorem computesDistance_iff (n : Nat) : ComputesDistance D n ↔ n % 16 = 0 := by
  constructor
  · intro hcomputes
    by_contra hrest
    -- the first component after the blocks is not read
    have hlength : ((List.range n).map fun _ => (0 : D)).length =
        ((List.range n).map (unitVector (D := D) (n / 16 * 16))).length := by simp
    have hdistance := (hcomputes true ((List.range n).map fun _ => 0)
      ((List.range n).map (unitVector (n / 16 * 16))) (by simp) (by simp) 0 0).1
    have hsame := Except.ok.inj
      ((operator_ok true DistanceMethod.l2 hlength 0 0).symm.trans hdistance)
    change _ = exactDistance DistanceMethod.l2 n (pointer ((List.range n).map fun _ => (0 : D)) 0)
      (pointer ((List.range n).map (unitVector (n / 16 * 16))) 0) at hsame
    rw [List.length_map, List.length_range,
      exactDistance_unitVector n _ _ (fun i hi => Or.inl (by omega)),
      exactDistance_unitVector n _ _ (fun i hi => Or.inl hi), if_neg (lt_irrefl _),
      if_pos (by omega)] at hsame
    exact zero_ne_one hsame
  · intro hblocks avx lhs rhs hlhs hrhs afterLhs afterRhs
    have hoperator (method : DistanceMethod) := operator_of_blocks avx method
      (hlhs.trans hrhs.symm) (hlhs ▸ hblocks) afterLhs afterRhs
    rw [hlhs] at hoperator
    exact ⟨hoperator DistanceMethod.l2, hoperator DistanceMethod.innerProduct⟩

/-- One component: the distance of 0 and 1 is computed as 0, and the inner product of 1 and 1
as 0. -/
theorem distances_of_one_component :
    l2Distance true [0] [1] 0 0 = Except.ok (0 : ℚ) ∧
      innerProductDistance true [1] [1] 0 0 = Except.ok (1 : ℚ) ∧ ¬ ComputesDistance ℚ 1 := by
  have hlength (first second : ℚ) : [first].length = [second].length := rfl
  have hl2 : l2Distance true [0] [1] 0 0 = Except.ok (0 : ℚ) :=
    operator_ok true DistanceMethod.l2 (hlength 0 1) 0 0
  have hinnerProduct : innerProductDistance true [1] [1] 0 0 = Except.ok (1 : ℚ) :=
    (operator_ok true DistanceMethod.innerProduct (hlength 1 1) 0 0).trans (by simp [exactDistance])
  refine ⟨hl2, hinnerProduct, fun hcomputes => ?_⟩
  have hdistance := (hcomputes true [0] [1] rfl rfl 0 0).1
  rw [hl2, Except.ok.injEq] at hdistance
  simp at hdistance

end Dimension

/-! ## The range operators -/

section Range

variable {D : Type} [CommRing D] [LinearOrder D]

/-- The body that `range_l2_distance` and `range_inner_product_distance` share. The radius is read
through the null pointer of an empty vector when the second array is empty. -/
def rangeDistanceOperator (space : SpaceInterface D) (lhs rhs : List D)
    (afterLhs afterRhs : Nat → D) : Except Failure Bool :=
  match rhs with
  | [] => Except.error (Failure.fault Fault.array)
  | range :: _ =>
      let dim := lhs.length
      Except.ok (decide (space.getDistFunc (pointer lhs afterLhs)
        (fun i => pointer rhs afterRhs (i + 1)) dim < range))

/-- `range_l2_distance`. -/
def rangeL2Distance (avx : Bool) :
    List D → List D → (Nat → D) → (Nat → D) → Except Failure Bool :=
  rangeDistanceOperator (l2Space avx 0)

/-- `range_inner_product_distance`. -/
def rangeInnerProductDistance (avx : Bool) :
    List D → List D → (Nat → D) → (Nat → D) → Except Failure Bool :=
  rangeDistanceOperator (innerProductSpace avx 0)

/-- The range operator of a distance method. -/
def rangeOperator (avx : Bool) : DistanceMethod → List D → List D → (Nat → D) → (Nat → D) →
    Except Failure Bool
  | DistanceMethod.innerProduct => rangeInnerProductDistance avx
  | DistanceMethod.l2 => rangeL2Distance avx

theorem rangeOperator_nil (avx : Bool) (method : DistanceMethod) (lhs : List D)
    (afterLhs afterRhs : Nat → D) :
    rangeOperator avx method lhs [] afterLhs afterRhs =
      Except.error (Failure.fault Fault.array) := by
  cases method <;> rfl

/-- Whatever the lengths, the distance from the rest of the second array is compared with its
first component. -/
theorem rangeOperator_cons (avx : Bool) (method : DistanceMethod) (lhs : List D) (range : D)
    (target : List D) (afterLhs afterRhs : Nat → D) :
    rangeOperator avx method lhs (range :: target) afterLhs afterRhs =
      Except.ok (decide (exactDistance method (lhs.length / 16 * 16) (pointer lhs afterLhs)
        (pointer target fun i => afterRhs (i + 1)) < range)) := by
  have hspace := space_getDistFunc avx method 0 (pointer lhs afterLhs)
    (pointer target fun i => afterRhs (i + 1)) lhs.length
  have hblocks : covered 0 lhs.length = lhs.length / 16 * 16 := rfl
  rw [← hblocks, ← hspace]
  cases method <;> rfl

/-- A range operator and its distance operator on arrays of matching lengths. -/
theorem rangeOperator_of_ok {avx : Bool} {method : DistanceMethod} {lhs target : List D} {dist : D}
    {afterLhs afterTarget : Nat → D}
    (hoperator : operator avx method lhs target afterLhs afterTarget = Except.ok dist) (range : D)
    (afterLhs' afterRhs : Nat → D) :
    rangeOperator avx method lhs (range :: target) afterLhs' afterRhs =
      Except.ok (decide (dist < range)) := by
  by_cases hlength : lhs.length = target.length
  · rw [operator_ok avx method hlength, Except.ok.injEq] at hoperator
    rw [rangeOperator_cons, ← hoperator,
      exactDistance_blocks method hlength afterLhs' afterLhs _ afterTarget]
  · exact absurd hoperator (operator_error avx method lhs target hlength _ _ dist)

end Range

/-! ## Commutators -/

/-- The operators that the extension declares, each as its own commutator: `<->`, `<<->>`, `<*>`
and `<<*>>`. -/
inductive DeclaredOperator
  | l2
  | rangeL2
  | innerProduct
  | rangeInnerProduct
  deriving DecidableEq

namespace DeclaredOperator

/-- The function of an operator. It returns a number or a truth value. -/
def procedure {D : Type} [CommRing D] [LinearOrder D] (avx : Bool) (op : DeclaredOperator)
    (lhs rhs : List D) (afterLhs afterRhs : Nat → D) : Except Failure (D ⊕ Bool) :=
  match op with
  | l2 => (l2Distance avx lhs rhs afterLhs afterRhs).map Sum.inl
  | rangeL2 => (rangeL2Distance avx lhs rhs afterLhs afterRhs).map Sum.inr
  | innerProduct => (innerProductDistance avx lhs rhs afterLhs afterRhs).map Sum.inl
  | rangeInnerProduct => (rangeInnerProductDistance avx lhs rhs afterLhs afterRhs).map Sum.inr

/-- Two calls end in the same way: with the same value, with an error report or with the same
fault. The text of a report is not compared, since it names the lengths in the order of the
arguments. -/
def SameOutcome {α : Type} : Except Failure α → Except Failure α → Prop
  | Except.ok value, Except.ok value' => value = value'
  | Except.error (Failure.elog _), Except.error (Failure.elog _) => True
  | Except.error (Failure.fault fault), Except.error (Failure.fault fault') => fault = fault'
  | _, _ => False

/-- An operator commutes on all arrays of length `n` and `m`. -/
def Commutes (op : DeclaredOperator) (n m : Nat) : Prop :=
  ∀ (avx : Bool) (lhs rhs : List ℚ), lhs.length = n → rhs.length = m →
    ∀ afterLhs afterRhs : Nat → ℚ,
      SameOutcome (op.procedure avx lhs rhs afterLhs afterRhs)
        (op.procedure avx rhs lhs afterRhs afterLhs)

/-- The distance method of an operator, and whether it is a range operator. -/
def kind : DeclaredOperator → DistanceMethod × Bool
  | l2 => (DistanceMethod.l2, false)
  | rangeL2 => (DistanceMethod.l2, true)
  | innerProduct => (DistanceMethod.innerProduct, false)
  | rangeInnerProduct => (DistanceMethod.innerProduct, true)

theorem procedure_eq {D : Type} [CommRing D] [LinearOrder D] (avx : Bool) (op : DeclaredOperator)
    (lhs rhs : List D) (afterLhs afterRhs : Nat → D) :
    op.procedure avx lhs rhs afterLhs afterRhs =
      if op.kind.2 then (rangeOperator avx op.kind.1 lhs rhs afterLhs afterRhs).map Sum.inr
      else (operator avx op.kind.1 lhs rhs afterLhs afterRhs).map Sum.inl := by
  cases op <;> rfl

/-- A distance operator commutes. -/
theorem commutes_of_distance {op : DeclaredOperator} (hkind : op.kind.2 = false) (n m : Nat) :
    op.Commutes n m := by
  intro avx lhs rhs hlhs hrhs afterLhs afterRhs
  simp only [procedure_eq, hkind, Bool.false_eq_true, if_false]
  by_cases hlength : lhs.length = rhs.length
  · rw [operator_ok avx _ hlength, operator_ok avx _ hlength.symm, exactDistance_comm, hlength]
    rfl
  · obtain ⟨message, herror⟩ := operator_elog avx op.kind.1 hlength afterLhs afterRhs
    obtain ⟨message', herror'⟩ :=
      operator_elog avx op.kind.1 (Ne.symm hlength) afterRhs afterLhs
    rw [herror, herror']
    trivial

theorem exactDistance_zeros_nonneg (method : DistanceMethod) (count length : Nat)
    (left : Nat → ℚ) :
    0 ≤ exactDistance method count left (pointer (List.replicate length 0) 0) := by
  have hzeros (i : Nat) : pointer (List.replicate length (0 : ℚ)) 0 i = 0 := by
    by_cases hi : i < length <;> simp [pointer, hi]
  cases method with
  | innerProduct => simp [exactDistance, hzeros]
  | l2 =>
      rw [exactDistance]
      exact Finset.sum_nonneg fun i _ => sq_nonneg _

/-- A range operator does not commute unless both arrays are empty. -/
theorem not_commutes_of_range {op : DeclaredOperator} (hkind : op.kind.2 = true) {n m : Nat}
    (hnonempty : ¬ (n = 0 ∧ m = 0)) : ¬ op.Commutes n m := by
  intro hcommutes
  have hswap (lhs rhs : List ℚ) (hlhs : lhs.length = n) (hrhs : rhs.length = m) :=
    hcommutes true lhs rhs hlhs hrhs 0 0
  simp only [procedure_eq, hkind, if_true] at hswap
  rcases n with _ | n <;> rcases m with _ | m
  · exact hnonempty ⟨rfl, rfl⟩
  · have hfault := hswap [] (List.replicate (m + 1) 0) rfl (by simp)
    rw [List.replicate_succ, rangeOperator_cons, rangeOperator_nil] at hfault
    exact hfault
  · have hfault := hswap (List.replicate (n + 1) 0) [] (by simp) rfl
    rw [List.replicate_succ, rangeOperator_cons, rangeOperator_nil] at hfault
    exact hfault
  · -- the first array asks for a negative radius, the second for one that is large enough
    let lhs : List ℚ := -1 :: List.replicate n 0
    let reached := exactDistance op.kind.1 (lhs.length / 16 * 16) (pointer lhs 0)
      (pointer (List.replicate m 0) 0)
    have hsame := hswap lhs ((reached + 1) :: List.replicate m 0) (by simp [lhs]) (by simp)
    have hwithin : reached < reached + 1 := lt_add_one reached
    have houtside : ¬ exactDistance op.kind.1
        (((reached + 1) :: List.replicate m 0).length / 16 * 16)
        (pointer ((reached + 1) :: List.replicate m 0) 0) (pointer (List.replicate n 0) 0) < -1 :=
      not_lt.mpr (le_trans (by norm_num) (exactDistance_zeros_nonneg _ _ n _))
    rw [rangeOperator_cons, rangeOperator_cons] at hsame
    have hbool := Sum.inr.inj hsame
    rw [decide_eq_decide] at hbool
    exact houtside (hbool.mp hwithin)

/-- The distance operators commute on all arrays, and the range operators on no others than two
empty ones. -/
theorem commutes_iff (op : DeclaredOperator) (n m : Nat) :
    op.Commutes n m ↔ (op = l2 ∨ op = innerProduct) ∨ (n = 0 ∧ m = 0) := by
  have hdistance : op = l2 ∨ op = innerProduct ↔ op.kind.2 = false := by
    cases op <;> decide
  rw [hdistance]
  constructor
  · intro hcommutes
    by_contra hnot
    rw [not_or, Bool.not_eq_false] at hnot
    exact not_commutes_of_range hnot.1 hnot.2 hcommutes
  · rintro (hkind | ⟨rfl, rfl⟩)
    · exact commutes_of_distance hkind n m
    · intro avx lhs rhs hlhs hrhs afterLhs afterRhs
      rw [List.eq_nil_of_length_eq_zero hlhs, List.eq_nil_of_length_eq_zero hrhs]
      cases op with
      | l2 => exact commutes_of_distance rfl 0 0 avx [] [] rfl rfl afterLhs afterRhs
      | innerProduct => exact commutes_of_distance rfl 0 0 avx [] [] rfl rfl afterLhs afterRhs
      | rangeL2 => rfl
      | rangeInnerProduct => rfl

/-- The column value of `-1` is within the radius of the constant `1, 6`; with the arguments
swapped it is not. -/
theorem rangeL2_does_not_commute :
    rangeL2.procedure true [-1] [1, 6] 0 0 = Except.ok (Sum.inr true : ℚ ⊕ Bool) ∧
      rangeL2.procedure true [1, 6] [-1] 0 0 = Except.ok (Sum.inr false : ℚ ⊕ Bool) := by
  constructor
  · rw [procedure_eq]
    simp [kind, rangeOperator_cons, exactDistance, Except.map]
  · rw [procedure_eq]
    norm_num [kind, rangeOperator_cons, exactDistance, Except.map]

end DeclaredOperator

end VBase.AccessMethod
