import Mathlib.Algebra.BigOperators.Intervals

/-! # Sums in vector registers

A vectorised loop adds the terms of a sum in the lanes of a register, one load
after another, and adds up the lanes at the end. In exact arithmetic the order of
the additions does not matter.
-/

namespace Simd

variable {M : Type*} [AddCommMonoid M]

/-- The loop that adds one term after another. -/
def scalar (term : Nat → M) (count : Nat) : M :=
  (List.range count).foldl (fun res i => res + term i) 0

/-- Lane-wise addition of two registers. -/
def add (left right : List M) : List M :=
  List.zipWith (· + ·) left right

/-- The terms that one load brings into a register. -/
def load (lanes : Nat) (term : Nat → M) (step : Nat) : List M :=
  (List.range lanes).map fun lane => term (lanes * step + lane)

/-- Add `loads` loads to a register. -/
def accumulate (lanes : Nat) (term : Nat → M) (loads : Nat) (register : List M) : List M :=
  (List.range loads).foldl (fun sum step => add sum (load lanes term step)) register

theorem scalar_eq (term : Nat → M) (count : Nat) :
    scalar term count = ∑ i ∈ Finset.range count, term i := by
  induction count with
  | zero => rfl
  | succ count ih =>
      rw [Finset.sum_range_succ, ← ih]
      simp [scalar, List.range_succ]

theorem add_length {left right : List M} (hlength : left.length = right.length) :
    (add left right).length = left.length := by
  simp [add, hlength]

theorem add_sum {left right : List M} (hlength : left.length = right.length) :
    (add left right).sum = left.sum + right.sum :=
  (List.sum_add_sum_eq_sum_zipWith_of_length_eq left right hlength).symm

omit [AddCommMonoid M] in
@[simp] theorem load_length (lanes : Nat) (term : Nat → M) (step : Nat) :
    (load lanes term step).length = lanes := by
  simp [load]

theorem load_sum (lanes : Nat) (term : Nat → M) (step : Nat) :
    (load lanes term step).sum = ∑ lane ∈ Finset.range lanes, term (lanes * step + lane) :=
  rfl

/-- Accumulating keeps the width of the register and adds the terms to its lanes. -/
theorem accumulate_spec {lanes : Nat} (term : Nat → M) (loads : Nat) {register : List M}
    (hregister : register.length = lanes) :
    (accumulate lanes term loads register).length = lanes ∧
      (accumulate lanes term loads register).sum =
        register.sum + ∑ i ∈ Finset.range (lanes * loads), term i := by
  induction loads with
  | zero => simp [accumulate, hregister]
  | succ loads ih =>
      obtain ⟨hlength, hsum⟩ := ih
      have hstep : accumulate lanes term (loads + 1) register =
          add (accumulate lanes term loads register) (load lanes term loads) := by
        simp [accumulate, List.range_succ]
      have hwidth := hlength.trans (load_length lanes term loads).symm
      refine ⟨by rw [hstep, add_length hwidth, hlength], ?_⟩
      rw [hstep, add_sum hwidth, hsum, load_sum, Nat.mul_succ, Finset.sum_range_add, add_assoc]

/-- The lanes of an empty register after `loads` loads. -/
theorem accumulate_zero_sum (lanes : Nat) (term : Nat → M) (loads : Nat) :
    (accumulate lanes term loads (List.replicate lanes 0)).sum =
      ∑ i ∈ Finset.range (lanes * loads), term i := by
  rw [(accumulate_spec term loads List.length_replicate).2]
  simp

end Simd
