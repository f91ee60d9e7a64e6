import Mathlib.Data.List.Basic

/-! # Passes that may fail

A pass over a list calls a step on each item in turn and ends at the first error. What
holds of the items seen so far and the state they led to holds of the whole pass.
-/

namespace Pass

universe u

variable {α σ ε : Type*} {step : σ → α → Except ε σ}

/-- A sequence that ends without an error went through its first part. -/
theorem bind_ok {V W : Type u} {first : Except ε V} {second : V → Except ε W} {final : W} :
    (first >>= second) = Except.ok final ↔
      ∃ value, first = Except.ok value ∧ second value = Except.ok final := by
  cases first with
  | error failure => simp [bind, Except.bind]
  | ok value => simp [bind, Except.bind]

theorem foldlM_cons_ok {item : α} {rest : List α} {state final : σ} :
    (item :: rest).foldlM step state = Except.ok final ↔
      ∃ next, step state item = Except.ok next ∧ rest.foldlM step next = Except.ok final := by
  rw [List.foldlM_cons, bind_ok]

/-- The invariant rule, with what the pass has seen. -/
theorem invariant {motive : List α → σ → Prop}
    (hstep : ∀ seen state item next, motive seen state → step state item = Except.ok next →
      motive (seen ++ [item]) next)
    {items : List α} {start final : σ} (hstart : motive [] start)
    (hpass : items.foldlM step start = Except.ok final) : motive items final := by
  suffices hgeneral : ∀ seen state, motive seen state →
      items.foldlM step state = Except.ok final → motive (seen ++ items) final from
    hgeneral [] start hstart hpass
  clear hstart hpass
  induction items with
  | nil =>
      intro seen state hseen hpass
      obtain rfl := Except.ok.inj hpass
      simpa using hseen
  | cons item rest ih =>
      intro seen state hseen hpass
      obtain ⟨next, hnext, hrest⟩ := foldlM_cons_ok.mp hpass
      have hlater := ih (seen ++ [item]) next (hstep seen state item next hseen hnext) hrest
      simpa using hlater

end Pass
