import Mathlib.Order.Basic

/-! # Loops that run down a measure

A `while` loop is a partial step function: `none` leaves the loop and `some`
is the state of the next round. A loop whose rounds all lower a measure is run
by counting the measure down, and the count never cuts it short.
-/

namespace Loop

variable {σ : Type*}

/-- At most `fuel` rounds of `step`. -/
def iterate (step : σ → Option σ) : Nat → σ → σ
  | 0, state => state
  | fuel + 1, state =>
      match step state with
      | none => state
      | some next => iterate step fuel next

theorem iterate_of_none {step : σ → Option σ} {state : σ} (hstop : step state = none)
    (fuel : Nat) : iterate step fuel state = state := by
  cases fuel with
  | zero => rfl
  | succ fuel => simp only [iterate, hstop]

/-- What every round keeps holds after any number of rounds. -/
theorem iterate_invariant {step : σ → Option σ} {motive : σ → Prop}
    (hkeeps : ∀ state next, motive state → step state = some next → motive next) (fuel : Nat)
    {state : σ} (hstate : motive state) : motive (iterate step fuel state) := by
  induction fuel generalizing state with
  | zero => exact hstate
  | succ fuel ih =>
      rw [iterate]
      split
      · exact hstate
      next next hstep => exact ih (hkeeps state next hstate hstep)

/-- Every round of the loop lowers the measure. -/
def Decreases (measure : σ → Nat) (step : σ → Option σ) : Prop :=
  ∀ state next, step state = some next → measure next < measure state

/-- The whole loop, counted by its measure. -/
def run (measure : σ → Nat) (step : σ → Option σ) (state : σ) : σ :=
  iterate step (measure state) state

variable {measure : σ → Nat} {step : σ → Option σ}

/-- Two counts that both cover the measure run the same loop. -/
theorem iterate_eq_iterate (hdec : Decreases measure step) (first second : Nat) (state : σ)
    (hfirst : measure state ≤ first) (hsecond : measure state ≤ second) :
    iterate step first state = iterate step second state := by
  induction first generalizing second state with
  | zero =>
      cases hstep : step state with
      | none => rw [iterate_of_none hstep, iterate_of_none hstep]
      | some next =>
          have hlt := hdec state next hstep
          omega
  | succ first ih =>
      cases hstep : step state with
      | none => rw [iterate_of_none hstep, iterate_of_none hstep]
      | some next =>
          have hlt := hdec state next hstep
          cases second with
          | zero => omega
          | succ second =>
              simp only [iterate, hstep]
              exact ih second next (by omega) (by omega)

theorem run_of_none {state : σ} (hstop : step state = none) : run measure step state = state :=
  iterate_of_none hstop _

/-- A loop may be unrolled by one round. -/
theorem run_of_some (hdec : Decreases measure step) {state next : σ}
    (hstep : step state = some next) : run measure step state = run measure step next := by
  have hlt := hdec state next hstep
  have hunroll : iterate step (measure next + 1) state = iterate step (measure next) next := by
    simp only [iterate, hstep]
  rw [run, run, ← hunroll]
  cases hmeasure : measure state with
  | zero => omega
  | succ rest =>
      simp only [iterate, hstep]
      exact iterate_eq_iterate hdec _ _ next (by omega) (by omega)

/-- Induction along the rounds of a terminating loop. -/
theorem run_induction (hdec : Decreases measure step) {motive : σ → Prop}
    (stop : ∀ state, step state = none → motive state)
    (round : ∀ state next, step state = some next → motive next → motive state)
    (state : σ) : motive state := by
  induction hmeasure : measure state using Nat.strongRecOn generalizing state with
  | ind count ih =>
      cases hstep : step state with
      | none => exact stop state hstep
      | some next =>
          have hlt := hdec state next hstep
          exact round state next hstep (ih (measure next) (by omega) next rfl)

/-- The loop is left only where `step` says so. -/
theorem run_done (hdec : Decreases measure step) (state : σ) :
    step (run measure step state) = none := by
  refine run_induction hdec (motive := fun state => step (run measure step state) = none)
    ?_ ?_ state
  · intro state hstop
    rwa [run_of_none hstop]
  · intro state next hstep ih
    rwa [run_of_some hdec hstep]

/-- What every round preserves holds when the loop ends. -/
theorem run_invariant (hdec : Decreases measure step) {motive : σ → Prop}
    (hround : ∀ state next, motive state → step state = some next → motive next)
    (state : σ) (hinit : motive state) : motive (run measure step state) := by
  revert hinit
  refine run_induction hdec
    (motive := fun state => motive state → motive (run measure step state)) ?_ ?_ state
  · intro state hstop hinv
    rwa [run_of_none hstop]
  · intro state next hstep ih hinv
    rw [run_of_some hdec hstep]
    exact ih (hround state next hinv hstep)

theorem run_measure_le (hdec : Decreases measure step) (state : σ) :
    measure (run measure step state) ≤ measure state :=
  run_invariant hdec (motive := fun reached => measure reached ≤ measure state)
    (fun before after hbefore hstep =>
      Nat.le_trans (Nat.le_of_lt (hdec before after hstep)) hbefore) state (Nat.le_refl _)

/-- A loop that is entered uses up some of its measure. -/
theorem run_measure_lt (hdec : Decreases measure step) {state next : σ}
    (hstep : step state = some next) : measure (run measure step state) < measure state := by
  rw [run_of_some hdec hstep]
  exact Nat.lt_of_le_of_lt (run_measure_le hdec next) (hdec state next hstep)

/-- A loop need lower its measure only in a region that its rounds do not leave. -/
theorem run_in_region {region : σ → Prop}
    (hround : ∀ state next, region state → step state = some next →
      region next ∧ measure next < measure state)
    {state : σ} (hstate : region state) :
    region (run measure step state) ∧ step (run measure step state) = none := by
  suffices hcount : ∀ fuel state, region state → measure state ≤ fuel →
      region (iterate step fuel state) ∧ step (iterate step fuel state) = none from
    hcount _ state hstate (Nat.le_refl _)
  clear hstate state
  intro fuel
  induction fuel with
  | zero =>
      intro state hstate hmeasure
      refine ⟨hstate, ?_⟩
      cases hstep : step state with
      | none => exact hstep
      | some next =>
          have hlt := (hround state next hstate hstep).2
          omega
  | succ fuel ih =>
      intro state hstate hmeasure
      cases hstep : step state with
      | none =>
          rw [iterate_of_none hstep]
          exact ⟨hstate, hstep⟩
      | some next =>
          obtain ⟨hnext, hlt⟩ := hround state next hstate hstep
          simp only [iterate, hstep]
          exact ih next hnext (by omega)

/-- Two loops whose rounds keep a relation end in related states, and together. -/
theorem run_rel {τ : Type*} {measure' : τ → Nat} {step' : τ → Option τ}
    {motive : σ → τ → Prop} (hdec : Decreases measure step) (hdec' : Decreases measure' step')
    (hround : ∀ state other, motive state other →
      Option.Rel motive (step state) (step' other))
    (state : σ) (other : τ) (hinit : motive state other) :
    motive (run measure step state) (run measure' step' other) := by
  revert other
  refine run_induction hdec (motive := fun state => ∀ other, motive state other →
    motive (run measure step state) (run measure' step' other)) ?_ ?_ state
  · intro state hstop other hrel
    have hboth := hround state other hrel
    rw [hstop] at hboth
    have hstop' : step' other = none := by
      cases hstep' : step' other with
      | none => rfl
      | some next => rw [hstep'] at hboth; cases hboth
    rwa [run_of_none hstop, run_of_none hstop']
  · intro state next hstep ih other hrel
    have hboth := hround state other hrel
    rw [hstep] at hboth
    generalize hstep' : step' other = result at hboth
    cases hboth with
    | some hnext =>
        rw [run_of_some hdec hstep, run_of_some hdec' hstep']
        exact ih _ hnext

end Loop
