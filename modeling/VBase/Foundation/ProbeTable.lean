import Mathlib.Algebra.Notation.Defs
import Mathlib.Data.Finset.Card
import Mathlib.Data.List.Basic
import Mathlib.Logic.Function.Basic

/-! # Tables that are probed

A key is looked for along a list of slots that belongs to it. The first slot that is
empty takes the key, and a slot that has the key ends the walk. Nothing is ever removed,
so a key that is in the table is met before an empty slot. Zero marks an empty slot.
-/

namespace ProbeTable

variable {K : Type*} [DecidableEq K] [Zero K]

/-- How a walk ends. -/
inductive Outcome (K : Type*) where
  | stored (table : Nat → K)
  | hit
  | full

def walk (table : Nat → K) (key : K) : List Nat → Outcome K
  | [] => .full
  | slot :: rest =>
      if table slot = 0 then .stored (Function.update table slot key)
      else if table slot = key then .hit
      else walk table key rest

/-- The key is in some slot. -/
def Contains (table : Nat → K) (key : K) : Prop := ∃ slot, table slot = key

/-- Slots that other keys have taken. -/
def Taken (table : Nat → K) (key : K) (slots : List Nat) : Prop :=
  ∀ slot ∈ slots, table slot ≠ 0 ∧ table slot ≠ key

/-- Every key in the table stands on its list, behind slots that others have taken. -/
def Sound (probe : K → List Nat) (table : Nat → K) : Prop :=
  ∀ slot, table slot ≠ 0 → ∃ before behind,
    probe (table slot) = before ++ slot :: behind ∧ Taken table (table slot) before

section

variable {probe : K → List Nat} {table next : Nat → K} {key other : K}
variable {slots first second : List Nat}

theorem walk_append (table : Nat → K) (key : K) (first second : List Nat) :
    walk table key (first ++ second) =
      match walk table key first with
      | .full => walk table key second
      | outcome => outcome := by
  induction first with
  | nil => rfl
  | cons slot rest ih =>
      rw [List.cons_append, walk, walk]
      split
      · rfl
      · split
        · rfl
        · exact ih

/-- A walk goes past slots that others have taken. -/
theorem walk_of_taken (htaken : Taken table key first) (second : List Nat) :
    walk table key (first ++ second) = walk table key second := by
  induction first with
  | nil => rfl
  | cons slot rest ih =>
      obtain ⟨hoccupied, hother⟩ := htaken slot List.mem_cons_self
      rw [List.cons_append, walk, if_neg hoccupied, if_neg hother]
      exact ih fun later hlater => htaken later (List.mem_cons_of_mem slot hlater)

omit [DecidableEq K] in
theorem taken_nil (table : Nat → K) (key : K) : Taken table key [] := by
  intro slot hslot
  cases hslot

omit [DecidableEq K] in
theorem Taken.cons {slot : Nat} (hoccupied : table slot ≠ 0) (hother : table slot ≠ key)
    (htaken : Taken table key slots) : Taken table key (slot :: slots) := by
  intro later hlater
  rcases List.mem_cons.mp hlater with rfl | hlater
  · exact ⟨hoccupied, hother⟩
  · exact htaken later hlater

/-- What a walk has gone past, and what it has met. -/
theorem walk_cases (table : Nat → K) (key : K) (slots : List Nat) :
    (walk table key slots = .full ∧ Taken table key slots) ∨
      ∃ before slot behind, slots = before ++ slot :: behind ∧ Taken table key before ∧
        ((table slot = 0 ∧ walk table key slots = .stored (Function.update table slot key)) ∨
          (table slot ≠ 0 ∧ table slot = key ∧ walk table key slots = .hit)) := by
  induction slots with
  | nil => exact Or.inl ⟨rfl, taken_nil table key⟩
  | cons slot rest ih =>
      rw [walk]
      split
      next hempty =>
        exact Or.inr ⟨[], slot, rest, rfl, taken_nil table key, Or.inl ⟨hempty, rfl⟩⟩
      next hoccupied =>
        split
        next hkey =>
          exact Or.inr ⟨[], slot, rest, rfl, taken_nil table key, Or.inr ⟨hoccupied, hkey, rfl⟩⟩
        next hother =>
          rcases ih with ⟨hfull, hpast⟩ | ⟨before, met, behind, rfl, hpast, hmet⟩
          · exact Or.inl ⟨hfull, hpast.cons hoccupied hother⟩
          · exact Or.inr ⟨slot :: before, met, behind, rfl, hpast.cons hoccupied hother, hmet⟩

/-- A walk for the mark of an empty slot changes nothing. -/
theorem walk_zero (table : Nat → K) (slots : List Nat) :
    walk table 0 slots = .full ∨ walk table 0 slots = .stored table := by
  rcases walk_cases table 0 slots with ⟨hfull, -⟩ | ⟨_, slot, _, -, -, hmet⟩
  · exact Or.inl hfull
  · rcases hmet with ⟨hempty, hstored⟩ | ⟨hoccupied, hempty, -⟩
    · rw [Function.update_eq_self_iff.mpr hempty.symm] at hstored
      exact Or.inr hstored
    · exact absurd hempty hoccupied

omit [DecidableEq K] in
theorem sound_empty (probe : K → List Nat) : Sound probe fun _ => 0 :=
  fun _ hoccupied => absurd rfl hoccupied

/-- A key that is in the table is hit. -/
theorem Sound.hit_of_contains (hsound : Sound probe table) (hkey : key ≠ 0)
    (hcontains : Contains table key) : walk table key (probe key) = .hit := by
  obtain ⟨slot, rfl⟩ := hcontains
  obtain ⟨before, behind, hprobe, htaken⟩ := hsound slot hkey
  rw [hprobe, walk_of_taken htaken, walk, if_neg hkey, if_pos rfl]

theorem contains_of_hit (hhit : walk table key slots = .hit) : Contains table key := by
  rcases walk_cases table key slots with ⟨hfull, -⟩ | ⟨_, slot, _, -, -, hmet⟩
  · rw [hhit] at hfull
    cases hfull
  · rcases hmet with ⟨-, hstored⟩ | ⟨-, hslot, -⟩
    · rw [hhit] at hstored
      cases hstored
    · exact ⟨slot, hslot⟩

/-- A key that is stored is new. The table is in order with it, and has gained nothing else. -/
theorem Sound.stored (hsound : Sound probe table) (hkey : key ≠ 0)
    (hwalk : walk table key (probe key) = .stored next) :
    ¬ Contains table key ∧ Sound probe next ∧
      ∀ other, other ≠ 0 → (Contains next other ↔ other = key ∨ Contains table other) := by
  have hnew : ¬ Contains table key := by
    intro hcontains
    rw [hsound.hit_of_contains hkey hcontains] at hwalk
    cases hwalk
  rcases walk_cases table key (probe key) with
    ⟨hfull, -⟩ | ⟨before, slot, behind, hprobe, hpast, hmet⟩
  · rw [hwalk] at hfull
    cases hfull
  · rcases hmet with ⟨hempty, hstored⟩ | ⟨-, -, hhit⟩
    · obtain rfl : Function.update table slot key = next := by
        rw [hwalk] at hstored
        exact (Outcome.stored.inj hstored).symm
      refine ⟨hnew, ?_, ?_⟩
      · -- Slots that were taken before still are, by what they had.
        have hkept : ∀ {mover : K} {past : List Nat}, Taken table mover past →
            Taken (Function.update table slot key) mover past := by
          intro mover past hpast later hlater
          have hne : later ≠ slot := by
            rintro rfl
            exact (hpast later hlater).1 hempty
          rw [Function.update_of_ne hne]
          exact hpast later hlater
        intro place hoccupied
        by_cases hplace : place = slot
        · subst hplace
          rw [Function.update_self]
          exact ⟨before, behind, hprobe, hkept hpast⟩
        · rw [Function.update_of_ne hplace] at hoccupied ⊢
          obtain ⟨past, later, hpath, htaken⟩ := hsound place hoccupied
          exact ⟨past, later, hpath, hkept htaken⟩
      · intro other hother
        constructor
        · rintro ⟨place, hplace⟩
          by_cases hslot : place = slot
          · subst hslot
            rw [Function.update_self] at hplace
            exact Or.inl hplace.symm
          · rw [Function.update_of_ne hslot] at hplace
            exact Or.inr ⟨place, hplace⟩
        · rintro (rfl | ⟨place, hplace⟩)
          · exact ⟨slot, Function.update_self ..⟩
          · have hne : place ≠ slot := by
              rintro rfl
              exact hother (hplace.symm.trans hempty)
            exact ⟨place, by rw [Function.update_of_ne hne, hplace]⟩
    · rw [hwalk] at hhit
      cases hhit

omit [DecidableEq K] in
/-- No key stands in two slots. -/
theorem Sound.slot_unique (hsound : Sound probe table) {slot place : Nat}
    (hoccupied : table slot ≠ 0) (hsame : table place = table slot) : place = slot := by
  obtain ⟨before, behind, hprobe, htaken⟩ := hsound slot hoccupied
  obtain ⟨past, later, hpath, hpast⟩ := hsound place (hsame ▸ hoccupied)
  rw [hsame, hprobe] at hpath
  -- Of two slots on one list, the later one would stand behind a slot with its own key.
  rcases List.append_eq_append_iff.mp hpath with ⟨gap, hgap, hrest⟩ | ⟨gap, hgap, hrest⟩
  · cases gap with
    | nil => exact (List.cons.inj hrest).1.symm
    | cons met gap =>
        obtain ⟨rfl, -⟩ := List.cons.inj hrest
        have hmem : slot ∈ past := by
          rw [hgap]
          exact List.mem_append_right before List.mem_cons_self
        exact absurd hsame.symm (hpast slot hmem).2
  · cases gap with
    | nil => exact (List.cons.inj hrest).1
    | cons met gap =>
        obtain ⟨rfl, -⟩ := List.cons.inj hrest
        have hmem : place ∈ before := by
          rw [hgap]
          exact List.mem_append_right past List.mem_cons_self
        exact absurd hsame (htaken place hmem).2

/-- Slots that others have taken are as many other keys. -/
theorem Sound.card_le_of_taken (hsound : Sound probe table) (htaken : Taken table key slots)
    {keys : Finset K} (hkeys : ∀ slot, table slot ≠ 0 → table slot ∈ keys) :
    slots.toFinset.card ≤ (keys.erase key).card := by
  refine Finset.card_le_card_of_injOn table ?_ ?_
  · intro slot hslot
    obtain ⟨hoccupied, hother⟩ := htaken slot (List.mem_toFinset.mp hslot)
    exact Finset.mem_erase.mpr ⟨hother, hkeys slot hoccupied⟩
  · intro slot _ place hplace hsame
    exact hsound.slot_unique (htaken place (List.mem_toFinset.mp hplace)).1 hsame

end

end ProbeTable
