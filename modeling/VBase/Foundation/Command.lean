import Mathlib.Data.List.Range

/-! # Commands that may throw

A command reads and writes a state, and an exception keeps the state of the moment it
is thrown in. `Yields` states what holds after a command, one condition for each way to
end, and has a rule for each way to put commands together.
-/

namespace Command

universe u

variable {ε σ : Type u} {V W α : Type u}

/-- Every way in which a command ends from `start` meets its condition. -/
def Yields (command : EStateM ε σ V) (start : σ) (post : V → σ → Prop) (fails : ε → σ → Prop) :
    Prop :=
  match command start with
  | .ok value final => post value final
  | .error failure final => fails failure final

variable {start : σ} {post : V → σ → Prop} {fails : ε → σ → Prop}

theorem yields_pure {value : V} :
    Yields (pure value) start post fails ↔ post value start :=
  Iff.rfl

theorem yields_throw {failure : ε} :
    Yields (throw failure : EStateM ε σ V) start post fails ↔ fails failure start :=
  Iff.rfl

theorem yields_get {post : σ → σ → Prop} :
    Yields (get : EStateM ε σ σ) start post fails ↔ post start start :=
  Iff.rfl

theorem yields_set {next : σ} {post : PUnit → σ → Prop} :
    Yields (set next : EStateM ε σ PUnit) start post fails ↔ post ⟨⟩ next :=
  Iff.rfl

theorem yields_modify {update : σ → σ} {post : PUnit → σ → Prop} :
    Yields (modify update : EStateM ε σ PUnit) start post fails ↔ post ⟨⟩ (update start) :=
  Iff.rfl

theorem yields_bind {first : EStateM ε σ V} {second : V → EStateM ε σ W}
    {post : W → σ → Prop} :
    Yields (first >>= second) start post fails ↔
      Yields first start (fun value next => Yields (second value) next post fails) fails := by
  change (match EStateM.bind first second start with
    | .ok value final => post value final
    | .error failure final => fails failure final) ↔ _
  unfold EStateM.bind Yields
  cases first start with
  | ok value next => exact Iff.rfl
  | error failure next => exact Iff.rfl

/-- A command may promise more than is asked. -/
theorem Yields.imp {command : EStateM ε σ V} {post' : V → σ → Prop} {fails' : ε → σ → Prop}
    (hyields : Yields command start post fails)
    (hpost : ∀ value final, post value final → post' value final)
    (hfails : ∀ failure final, fails failure final → fails' failure final) :
    Yields command start post' fails' := by
  unfold Yields at *
  cases hrun : command start with
  | ok value final =>
      rw [hrun] at hyields
      exact hpost value final hyields
  | error failure final =>
      rw [hrun] at hyields
      exact hfails failure final hyields

/-- The rule of a sequence, with what holds in between. -/
theorem Yields.bind {first : EStateM ε σ V} {second : V → EStateM ε σ W}
    {between : V → σ → Prop} {post : W → σ → Prop}
    (hfirst : Yields first start between fails)
    (hsecond : ∀ value next, between value next → Yields (second value) next post fails) :
    Yields (first >>= second) start post fails :=
  yields_bind.mpr (hfirst.imp hsecond fun _ _ hfails => hfails)

theorem Yields.of_ok {command : EStateM ε σ V} (hyields : Yields command start post fails)
    {value : V} {final : σ} (hrun : command start = .ok value final) : post value final := by
  unfold Yields at hyields
  rwa [hrun] at hyields

theorem Yields.of_error {command : EStateM ε σ V} (hyields : Yields command start post fails)
    {failure : ε} {final : σ} (hrun : command start = .error failure final) :
    fails failure final := by
  unfold Yields at hyields
  rwa [hrun] at hyields

/-- The run of a sequence whose first command returns. -/
theorem bind_of_ok {first : EStateM ε σ V} {second : V → EStateM ε σ W} {value : V} {next : σ}
    (hrun : first start = .ok value next) : (first >>= second) start = second value next := by
  change EStateM.bind first second start = _
  rw [EStateM.bind, hrun]

/-- A command that does not return throws. -/
theorem Yields.exists_error {command : EStateM ε σ V}
    (hyields : Yields command start (fun _ _ => False) fails) :
    ∃ failure final, command start = .error failure final ∧ fails failure final := by
  unfold Yields at hyields
  cases hrun : command start with
  | ok value final =>
      rw [hrun] at hyields
      exact hyields.elim
  | error failure final =>
      rw [hrun] at hyields
      exact ⟨failure, final, rfl, hyields⟩

/-! ## Loops -/

/-- The rule of a loop over a list, with what it has gone through. -/
theorem yields_forM {step : α → EStateM ε σ PUnit} {motive : List α → σ → Prop} {items : List α}
    (hstep : ∀ seen item rest state, seen ++ item :: rest = items → motive seen state →
      Yields (step item) state (fun _ next => motive (seen ++ [item]) next) fails)
    (hstart : motive [] start) :
    Yields (items.forM step) start (fun _ final => motive items final) fails := by
  suffices hgeneral : ∀ rest seen state, seen ++ rest = items → motive seen state →
      Yields (rest.forM step) state (fun _ final => motive items final) fails from
    hgeneral items [] start rfl hstart
  intro rest
  induction rest with
  | nil =>
      intro seen state hseen hstate
      rw [List.append_nil] at hseen
      exact yields_pure.mpr (hseen ▸ hstate)
  | cons item rest ih =>
      intro seen state hseen hstate
      refine (hstep seen item rest state hseen hstate).bind fun _ next hnext => ?_
      exact ih (seen ++ [item]) next (by rw [List.append_assoc]; exact hseen) hnext

/-- The rule of a loop that counts down and carries a value along. -/
theorem yields_countdown {step : V → Nat → EStateM ε σ V} {motive : Nat → V → σ → Prop}
    (hstep : ∀ level value state, motive (level + 1) value state →
      Yields (step value level) state (motive level) fails)
    (count : Nat) {value : V} (hstart : motive count value start) :
    Yields ((List.range count).reverse.foldlM step value) start (motive 0) fails := by
  induction count generalizing value start with
  | zero => exact yields_pure.mpr hstart
  | succ count ih =>
      rw [List.range_succ, List.reverse_append, List.reverse_singleton, List.singleton_append,
        List.foldlM_cons]
      exact (hstep count value start hstart).bind fun _ _ hnext => ih hnext

end Command
