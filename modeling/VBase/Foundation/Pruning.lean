import Mathlib.Data.List.Pairwise
import Mathlib.Data.List.Basic

/-! # Greedy selection with domination

Items are offered in turn. One is kept unless an item kept before it dominates it, and
the selection ends when it has reached its limit. What it leaves out is dominated by an
earlier item that was kept, or comes when the selection is full.
-/

namespace Pruning

variable {α : Type*}

/-- Of two members of a list one stands before the other. -/
theorem pairwise_or {R : α → α → Prop} {items : List α} (hpairs : items.Pairwise R)
    {first second : α} (hfirst : first ∈ items) (hsecond : second ∈ items)
    (hne : first ≠ second) : R first second ∨ R second first := by
  have hsymm : Std.Symm fun first second => R first second ∨ R second first :=
    ⟨fun _ _ => Or.symm⟩
  exact List.Pairwise.forall (R := fun first second => R first second ∨ R second first)
    (hpairs.imp Or.inl) hfirst hsecond hne

variable (dominates : α → α → Prop) [DecidableRel dominates]

/-- Offer the items of a list to what has been kept. -/
def select (limit : Nat) : List α → List α → List α
  | kept, [] => kept
  | kept, item :: rest =>
      if limit ≤ kept.length then kept
      else if ∃ other ∈ kept, dominates other item then select limit kept rest
      else select limit (kept ++ [item]) rest

/-- What a selection from `items` has kept. That one item stands before another in `items`
is said by a sublist of the two. -/
structure Selects (limit : Nat) (items kept : List α) : Prop where
  sublist : kept.Sublist items
  length_le : kept.length ≤ limit
  undominated : kept.Pairwise fun first second => ¬ dominates first second
  covered : ∀ item ∈ items, item ∈ kept ∨
    (∃ other ∈ kept, [other, item].Sublist items ∧ dominates other item) ∨
    kept.length = limit ∧ ∀ other ∈ kept, [other, item].Sublist items

variable {dominates} {limit : Nat} {items kept : List α}

omit [DecidableRel dominates] in
theorem Selects.nil : Selects dominates limit [] [] :=
  ⟨List.Sublist.refl _, Nat.zero_le _, List.Pairwise.nil, by simp⟩

omit [DecidableRel dominates] in
/-- A kept item stands before everything that is offered after it. -/
theorem Selects.before (hselects : Selects dominates limit items kept) {other item : α}
    (hother : other ∈ kept) {more : List α} (hitem : item ∈ more) :
    [other, item].Sublist (items ++ more) :=
  (List.singleton_sublist.mpr (hselects.sublist.subset hother)).append
    (List.singleton_sublist.mpr hitem)

omit [DecidableRel dominates] in
/-- A full selection keeps nothing more. -/
theorem Selects.full (hselects : Selects dominates limit items kept)
    (hfull : limit ≤ kept.length) (more : List α) :
    Selects dominates limit (items ++ more) kept where
  sublist := hselects.sublist.trans (List.sublist_append_left _ _)
  length_le := hselects.length_le
  undominated := hselects.undominated
  covered := by
    have hlength := Nat.le_antisymm hselects.length_le hfull
    intro item hitem
    rcases List.mem_append.mp hitem with hold | hnew
    · have hwiden : ∀ other : α, [other, item].Sublist items →
          [other, item].Sublist (items ++ more) :=
        fun other hbefore => hbefore.trans (List.sublist_append_left _ _)
      rcases hselects.covered item hold with hkept | ⟨other, hother, hbefore, hdom⟩ | ⟨-, hall⟩
      · exact Or.inl hkept
      · exact Or.inr (Or.inl ⟨other, hother, hwiden other hbefore, hdom⟩)
      · exact Or.inr (Or.inr ⟨hlength, fun other hother => hwiden other (hall other hother)⟩)
    · exact Or.inr (Or.inr ⟨hlength, fun other hother => hselects.before hother hnew⟩)

omit [DecidableRel dominates] in
theorem Selects.drop (hselects : Selects dominates limit items kept) {item other : α}
    (hother : other ∈ kept) (hdom : dominates other item) (hroom : kept.length < limit) :
    Selects dominates limit (items ++ [item]) kept where
  sublist := hselects.sublist.trans (List.sublist_append_left _ _)
  length_le := hselects.length_le
  undominated := hselects.undominated
  covered := by
    intro offered hoffered
    rcases List.mem_append.mp hoffered with hold | hnew
    · rcases hselects.covered offered hold with hkept | ⟨first, hfirst, hbefore, hcovers⟩ |
        ⟨hfull, -⟩
      · exact Or.inl hkept
      · exact Or.inr (Or.inl ⟨first, hfirst, hbefore.trans (List.sublist_append_left _ _),
          hcovers⟩)
      · omega
    · obtain rfl := List.mem_singleton.mp hnew
      exact Or.inr (Or.inl ⟨other, hother, hselects.before hother hnew, hdom⟩)

omit [DecidableRel dominates] in
theorem Selects.keep (hselects : Selects dominates limit items kept) {item : α}
    (hfree : ¬ ∃ other ∈ kept, dominates other item) (hroom : kept.length < limit) :
    Selects dominates limit (items ++ [item]) (kept ++ [item]) where
  sublist := hselects.sublist.append (List.Sublist.refl _)
  length_le := by
    rw [List.length_append, List.length_singleton]
    omega
  undominated := by
    refine List.pairwise_append.mpr ⟨hselects.undominated, List.pairwise_singleton _ _, ?_⟩
    intro first hfirst second hsecond hdom
    rw [List.mem_singleton.mp hsecond] at hdom
    exact hfree ⟨first, hfirst, hdom⟩
  covered := by
    intro offered hoffered
    rcases List.mem_append.mp hoffered with hold | hnew
    · rcases hselects.covered offered hold with hkept | ⟨first, hfirst, hbefore, hcovers⟩ |
        ⟨hfull, -⟩
      · exact Or.inl (List.mem_append_left _ hkept)
      · exact Or.inr (Or.inl ⟨first, List.mem_append_left _ hfirst,
          hbefore.trans (List.sublist_append_left _ _), hcovers⟩)
      · omega
    · exact Or.inl (List.mem_append_right _ hnew)

/-- Offering more items extends a selection of the items before them. -/
theorem Selects.select (hselects : Selects dominates limit items kept) (rest : List α) :
    Selects dominates limit (items ++ rest) (Pruning.select dominates limit kept rest) := by
  induction rest generalizing items kept with
  | nil => simpa [Pruning.select] using hselects
  | cons item rest ih =>
      rw [Pruning.select]
      split
      next hfull => exact hselects.full hfull (item :: rest)
      next hroom =>
        have hlt := Nat.lt_of_not_le hroom
        split
        next hdom =>
          obtain ⟨other, hother, hdom⟩ := hdom
          simpa using ih (hselects.drop hother hdom hlt)
        next hfree => simpa using ih (hselects.keep hfree hlt)

variable (dominates limit) in
theorem select_selects (items : List α) :
    Selects dominates limit items (select dominates limit [] items) := by
  simpa using (Selects.nil : Selects dominates limit [] []).select items

variable (dominates limit) in
/-- What has been kept stays in front. -/
theorem exists_select_eq_append (kept rest : List α) :
    ∃ later, select dominates limit kept rest = kept ++ later := by
  induction rest generalizing kept with
  | nil => exact ⟨[], by simp [select]⟩
  | cons item rest ih =>
      rw [select]
      split
      · exact ⟨[], by simp⟩
      · split
        · exact ih kept
        · obtain ⟨later, hlater⟩ := ih (kept ++ [item])
          exact ⟨item :: later, by simp [hlater]⟩

/-- The first item is kept. -/
theorem head_mem_select (hlimit : 0 < limit) (item : α) (rest : List α) :
    item ∈ select dominates limit [] (item :: rest) := by
  rw [select, List.length_nil, if_neg (Nat.not_le_of_lt hlimit), if_neg (by simp)]
  obtain ⟨later, hlater⟩ := exists_select_eq_append dominates limit ([] ++ [item]) rest
  rw [hlater]
  simp

end Pruning
