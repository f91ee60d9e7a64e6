import Mathlib.Data.Option.Basic

/-! # Carrying a computation over to another state

A computation may be run on a state that only logs the calls it makes, and on one that has
what these calls lead to, of which there may be nothing. If each operation does the same on
both, so does every program made of them.
-/

namespace Carrying

variable {L T α α' β β' γ γ' ι ρ : Type*}

/-- Where a state has its log, and the state with something else in its place. -/
structure View (α α' L T : Type*) where
  log : α → L
  put : α → T → α'

/-- The view of a state next to other data. -/
def View.beside (view : View α α' L T) (ρ : Type*) : View (ρ × α) (ρ × α') L T where
  log := fun pair => view.log pair.2
  put := fun pair table => (pair.1, view.put pair.2 table)

variable (table : L → Option T)

/-- The state with what its log leads to. -/
def View.carry (view : View α α' L T) (state : α) : Option α' :=
  (table (view.log state)).map (view.put state)

/-- Computing and carrying over is carrying over and computing. -/
def Carries (enter : View α α' L T) (leave : View β β' L T) (first : α → Option β)
    (second : α' → Option β') : Prop :=
  ∀ state, (first state).bind (leave.carry table) = (enter.carry table state).bind second

/-- A step that does not touch the log and does not look at it. -/
structure Steady (enter : View α α' L T) (leave : View β β' L T) (first : α → β)
    (second : α' → β') : Prop where
  log : ∀ state, leave.log (first state) = enter.log state
  put : ∀ state value, leave.put (first state) value = second (enter.put state value)

section

variable {enter : View α α' L T} {middle : View β β' L T} {leave : View γ γ' L T}

variable (enter) in
theorem Steady.refl : Steady enter enter (fun state => state) fun state => state :=
  ⟨fun _ => rfl, fun _ _ => rfl⟩

theorem Steady.comp {first : α → β} {second : α' → β'} {next : β → γ} {next' : β' → γ'}
    (hfirst : Steady enter middle first second) (hnext : Steady middle leave next next') :
    Steady enter leave (fun state => next (first state)) (fun state => next' (second state)) where
  log := fun state => (hnext.log _).trans (hfirst.log state)
  put := fun state value => (hnext.put _ value).trans (congrArg next' (hfirst.put state value))

theorem Steady.foldl {step : α → ι → α} {step' : α' → ι → α'}
    (hstep : ∀ item, Steady enter enter (fun state => step state item) fun state =>
      step' state item) (items : List ι) :
    Steady enter enter (fun state => items.foldl step state) fun state =>
      items.foldl step' state := by
  induction items with
  | nil => exact Steady.refl enter
  | cons item rest ih => exact (hstep item).comp ih

variable {table}

theorem Steady.carry {first : α → β} {second : α' → β'}
    (hfirst : Steady enter middle first second) (state : α) :
    middle.carry table (first state) = (enter.carry table state).map second := by
  rw [View.carry, View.carry, hfirst.log, Option.map_map]
  congr 1
  funext value
  exact hfirst.put state value

theorem Steady.carries {first : α → β} {second : α' → β'}
    (hfirst : Steady enter middle first second) :
    Carries table enter middle (fun state => some (first state)) fun state =>
      some (second state) := by
  intro state
  rw [Option.bind_some, hfirst.carry, Option.map_eq_bind]
  rfl

variable (table enter middle) in
/-- A program that does not return. -/
theorem carries_none : Carries table enter middle (fun _ => none) fun _ => none := by
  intro state
  rw [Option.bind_none, Option.bind_fun_none]

theorem Carries.bind {first : α → Option β} {second : α' → Option β'} {next : β → Option γ}
    {next' : β' → Option γ'} (hfirst : Carries table enter middle first second)
    (hnext : Carries table middle leave next next') :
    Carries table enter leave (fun state => (first state).bind next) fun state =>
      (second state).bind next' := by
  intro state
  rw [Option.bind_assoc]
  calc (first state).bind (fun value => (next value).bind (leave.carry table))
      = (first state).bind fun value => (middle.carry table value).bind next' := by
        congr 1
        funext value
        exact hnext value
    _ = ((first state).bind (middle.carry table)).bind next' := (Option.bind_assoc _ _ _).symm
    _ = ((enter.carry table state).bind second).bind next' := by rw [hfirst state]
    _ = _ := Option.bind_assoc _ _ _

theorem Carries.map {first : α → Option β} {second : α' → Option β'} {next : β → γ}
    {next' : β' → γ'} (hfirst : Carries table enter middle first second)
    (hnext : Steady middle leave next next') :
    Carries table enter leave (fun state => (first state).map next) fun state =>
      (second state).map next' := by
  intro state
  have hboth := hfirst.bind hnext.carries state
  simpa only [Option.map_eq_bind, Function.comp_def] using hboth

/-- A step before the program. -/
theorem Steady.before {first : α → β} {second : α' → β'} {next : β → Option γ}
    {next' : β' → Option γ'} (hfirst : Steady enter middle first second)
    (hnext : Carries table middle leave next next') :
    Carries table enter leave (fun state => next (first state)) fun state =>
      next' (second state) := by
  intro state
  rw [hnext, hfirst.carry, Option.bind_map]
  rfl

/-- At one state a program may go on as another one, which is chosen by what both states have in
common. -/
theorem Carries.agree {other : α → Option β} {second other' : α' → Option β'} {state : α}
    {result : Option β} (hother : Carries table enter middle other other')
    (hfirst : result = other state)
    (hsecond : ∀ value, second (enter.put state value) = other' (enter.put state value)) :
    result.bind (middle.carry table) = (enter.carry table state).bind second := by
  rw [hfirst, hother state, View.carry, Option.bind_map, Option.bind_map]
  congr 1
  funext value
  exact (hsecond value).symm

/-- Both programs take the same branch, since they decide by what both states have in common. -/
theorem Carries.ite {cond : α → Prop} {cond' : α' → Prop} [DecidablePred cond]
    [DecidablePred cond'] {first other : α → Option β} {second other' : α' → Option β'}
    (hcond : ∀ state value, cond' (enter.put state value) ↔ cond state)
    (hthen : Carries table enter middle first second)
    (helse : Carries table enter middle other other') :
    Carries table enter middle (fun state => if cond state then first state else other state)
      fun state => if cond' state then second state else other' state := by
  intro state
  by_cases hholds : cond state
  · apply hthen.agree
    · exact if_pos hholds
    · intro value
      exact if_pos ((hcond state value).mpr hholds)
  · apply helse.agree
    · exact if_neg hholds
    · intro value
      exact if_neg (mt (hcond state value).mp hholds)

/-- The data next to a state may decide how a program goes on. -/
theorem Carries.beside {first : ρ → α → Option β} {second : ρ → α' → Option β'}
    (hfirst : ∀ value, Carries table enter middle (first value) (second value)) :
    Carries table (enter.beside ρ) middle (fun pair => first pair.1 pair.2) fun pair =>
      second pair.1 pair.2 := by
  intro pair
  rw [hfirst pair.1 pair.2, View.carry, View.carry, Option.bind_map, Option.bind_map]
  rfl

theorem Carries.foldlM {step : α → ι → Option α} {step' : α' → ι → Option α'}
    (hstep : ∀ item, Carries table enter enter (fun state => step state item) fun state =>
      step' state item) (items : List ι) :
    Carries table enter enter (fun state => items.foldlM step state) fun state =>
      items.foldlM step' state := by
  induction items with
  | nil => exact (Steady.refl enter).carries
  | cons item rest ih =>
      simp only [List.foldlM_cons]
      exact (hstep item).bind ih

end

end Carrying
