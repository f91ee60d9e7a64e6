import VBase.Foundation.Loop
import Mathlib.Tactic.Cases

/-! # Pull-based sources

A source is asked for one item at a time, may fail, and has only finitely many
items left. `Yields` records a whole run: the items with the state after each.
`drive` is the loop of a consumer that pulls items and may stop before the
source is exhausted.
-/

/-- Items on demand. Every item uses up some of what remains. -/
structure Source (σ ε β : Type) where
  pull : σ → Except ε (Option β × σ)
  remaining : σ → Nat
  pull_remaining : ∀ state item next, pull state = Except.ok (some item, next) →
    remaining next < remaining state

namespace Source

variable {σ ε β τ : Type} (src : Source σ ε β)

/-- The items that a source yields before it is exhausted, with the state after each. -/
inductive Yields : σ → List (β × σ) → Prop
  | done {state next : σ} (hpull : src.pull state = Except.ok (none, next)) : Yields state []
  | item {state next : σ} {item : β} {rest : List (β × σ)}
      (hpull : src.pull state = Except.ok (some item, next)) (hrest : Yields next rest) :
      Yields state ((item, next) :: rest)

/-- The items of the first `count` pulls. -/
def collect : Nat → σ → Except ε (List β)
  | 0, _ => Except.ok []
  | count + 1, state =>
      match src.pull state with
      | Except.error failure => Except.error failure
      | Except.ok (none, _) => Except.ok []
      | Except.ok (some item, next) => (collect count next).map (item :: ·)

/-- A consumer at work. `halted` is set when it stops, with the failure if there was one. -/
structure Driving (σ ε τ : Type) where
  state : σ
  acc : τ
  halted : Option (Option ε)

/-- One turn of a consumer: pull an item and let `body` take it, and say whether to stop. -/
def driveStep (body : β → σ → τ → τ × Bool) (work : Driving σ ε τ) : Option (Driving σ ε τ) :=
  if work.halted.isSome then none
  else
    match src.pull work.state with
    | Except.error failure => some { work with halted := some (some failure) }
    | Except.ok (none, next) => some ⟨next, work.acc, some none⟩
    | Except.ok (some item, next) =>
        let taken := body item next work.acc
        some ⟨next, taken.1, if taken.2 then some none else none⟩

def driveMeasure (work : Driving σ ε τ) : Nat :=
  if work.halted.isSome then 0 else src.remaining work.state + 1

/-- Run a consumer. -/
def drive (body : β → σ → τ → τ × Bool) (state : σ) (acc : τ) : Except ε (σ × τ) :=
  let work := Loop.run src.driveMeasure (src.driveStep body) ⟨state, acc, none⟩
  match work.halted with
  | some (some failure) => Except.error failure
  | _ => Except.ok (work.state, work.acc)

/-- What a consumer makes of a run of the source. -/
def foldUntil (body : β → σ → τ → τ × Bool) : τ → List (β × σ) → τ
  | acc, [] => acc
  | acc, (item, next) :: rest =>
      if (body item next acc).2 then (body item next acc).1
      else foldUntil body (body item next acc).1 rest

variable {src}

/-- Induction along the pulls of a source. -/
theorem induction (src : Source σ ε β) {motive : σ → Prop}
    (hstep : ∀ state, (∀ item next, src.pull state = Except.ok (some item, next) → motive next) →
      motive state) (state : σ) : motive state := by
  induction hremaining : src.remaining state using Nat.strongRecOn generalizing state with
  | ind count ih =>
      apply hstep
      intro item next hpull
      have hlt := src.pull_remaining state item next hpull
      exact ih (src.remaining next) (hremaining ▸ hlt) next rfl

theorem Yields.unique {state : σ} {items others : List (β × σ)} (hitems : src.Yields state items)
    (hothers : src.Yields state others) : items = others := by
  induction hitems generalizing others with
  | done hpull =>
      cases hothers with
      | done => rfl
      | item hother => rw [hpull] at hother; simp at hother
  | item hpull _ ih =>
      cases hothers with
      | done hother => rw [hpull] at hother; simp at hother
      | item hother hrest =>
          rw [hpull] at hother
          simp only [Except.ok.injEq, Prod.mk.injEq, Option.some.injEq] at hother
          obtain ⟨rfl, rfl⟩ := hother
          rw [ih hrest]

/-- Sources are used by pulling only. -/
theorem collect_congr {state other : σ} (hpull : src.pull state = src.pull other) (count : Nat) :
    src.collect count state = src.collect count other := by
  cases count with
  | zero => rfl
  | succ count => rw [collect, collect, hpull]

theorem Yields.congr {state other : σ} {items : List (β × σ)} (hitems : src.Yields state items)
    (hpull : src.pull state = src.pull other) : src.Yields other items := by
  cases hitems with
  | done h => exact Yields.done (hpull ▸ h)
  | item h hrest => exact Yields.item (hpull ▸ h) hrest

/-- The first pulls deliver the front of the run. -/
theorem Yields.collect {state : σ} {items : List (β × σ)} (hitems : src.Yields state items)
    (count : Nat) : src.collect count state = Except.ok ((items.take count).map Prod.fst) := by
  induction hitems generalizing count with
  | done hpull =>
      cases count with
      | zero => rfl
      | succ count => simp [Source.collect, hpull]
  | item hpull _ ih =>
      cases count with
      | zero => rfl
      | succ count => simp [Source.collect, hpull, ih, Except.map]

/-- Fewer items than pulls are the whole run. -/
theorem Yields.map_fst_of_collect {state : σ} {run : List (β × σ)} (hrun : src.Yields state run)
    {count : Nat} {items : List β} (hitems : src.collect count state = Except.ok items)
    (hcount : items.length < count) : run.map Prod.fst = items := by
  rw [hrun.collect count] at hitems
  obtain rfl := Except.ok.inj hitems
  rw [List.length_map, List.length_take] at hcount
  rw [List.take_of_length_le (by omega)]

theorem driveStep_decreases (body : β → σ → τ → τ × Bool) :
    Loop.Decreases src.driveMeasure (src.driveStep body) := by
  intro work next hstep
  unfold driveStep at hstep
  split at hstep
  · simp at hstep
  next hrunning =>
    have hmeasure : src.driveMeasure work = src.remaining work.state + 1 := if_neg hrunning
    rw [hmeasure]
    split at hstep
    · obtain rfl := Option.some.inj hstep
      exact Nat.succ_pos _
    · obtain rfl := Option.some.inj hstep
      exact Nat.succ_pos _
    next item after hpull =>
      obtain rfl := Option.some.inj hstep
      have hlt := src.pull_remaining _ _ _ hpull
      by_cases hstop : (body item after work.acc).2 <;>
        simp only [driveMeasure, hstop, Bool.false_eq_true, if_true, if_false, Option.isSome_some,
          Option.isSome_none] <;> omega

/-- The loop of a consumer, unrolled by one turn. -/
theorem drive_eq (body : β → σ → τ → τ × Bool) (state : σ) (acc : τ) :
    src.drive body state acc =
      match src.pull state with
      | Except.error failure => Except.error failure
      | Except.ok (none, next) => Except.ok (next, acc)
      | Except.ok (some item, next) =>
          if (body item next acc).2 then Except.ok (next, (body item next acc).1)
          else src.drive body next (body item next acc).1 := by
  have hhalted : ∀ work : Driving σ ε τ, work.halted.isSome →
      Loop.run src.driveMeasure (src.driveStep body) work = work := fun work hwork =>
    Loop.run_of_none (by simp [driveStep, hwork])
  have hunroll : ∀ next, src.driveStep body ⟨state, acc, none⟩ = some next →
      Loop.run src.driveMeasure (src.driveStep body) ⟨state, acc, none⟩ =
        Loop.run src.driveMeasure (src.driveStep body) next := fun next =>
    Loop.run_of_some (driveStep_decreases body)
  cases hpull : src.pull state with
  | error failure =>
      have hstep : src.driveStep body ⟨state, acc, none⟩ =
          some ⟨state, acc, some (some failure)⟩ := by
        simp [driveStep, hpull]
      rw [drive, hunroll _ hstep, hhalted _ rfl]
  | ok result =>
      obtain ⟨_ | item, next⟩ := result
      · have hstep : src.driveStep body ⟨state, acc, none⟩ = some ⟨next, acc, some none⟩ := by
          simp [driveStep, hpull]
        rw [drive, hunroll _ hstep, hhalted _ rfl]
      · have hstep : src.driveStep body ⟨state, acc, none⟩ = some ⟨next, (body item next acc).1,
            if (body item next acc).2 then some none else none⟩ := by
          simp [driveStep, hpull]
        rw [drive, hunroll _ hstep]
        cases hstop : (body item next acc).2 with
        | true =>
            rw [if_pos rfl, hhalted _ rfl]
            simp only [hstop, if_true]
        | false =>
            simp only [hstop, Bool.false_eq_true, if_false]
            rfl

/-- The item at `index` makes the consumer stop, if the consumer gets that far. -/
def StopsAt (body : β → σ → τ → τ × Bool) (acc : τ) (items : List (β × σ)) (index : Nat) : Prop :=
  ∃ item, items[index]? = some item ∧
    (body item.1 item.2 ((items.take index).foldl (fun acc item => (body item.1 item.2 acc).1)
      acc)).2 = true

/-- A consumer takes the items up to the first that makes it stop. -/
theorem foldUntil_eq (body : β → σ → τ → τ × Bool) (acc : τ) (items : List (β × σ)) :
    ∃ count, foldUntil body acc items =
        (items.take count).foldl (fun acc item => (body item.1 item.2 acc).1) acc ∧
      (∀ index, index + 1 < count → ¬ StopsAt body acc items index) ∧
      (count = items.length ∨ ∃ index, count = index + 1 ∧ StopsAt body acc items index) := by
  induction items generalizing acc with
  | nil => exact ⟨0, rfl, by simp, Or.inl rfl⟩
  | cons head rest ih =>
      obtain ⟨item, next⟩ := head
      by_cases hstop : (body item next acc).2 = true
      · refine ⟨1, ?_, by omega, Or.inr ⟨0, rfl, (item, next), rfl, hstop⟩⟩
        simp [foldUntil, hstop]
      · obtain ⟨count, hfold, hearlier, hlast⟩ := ih (body item next acc).1
        refine ⟨count + 1, ?_, ?_, ?_⟩
        · simp [foldUntil, hstop, hfold]
        · rintro (_ | index) hindex ⟨stopping, hget, hstops⟩
          · simp only [List.getElem?_cons_zero, Option.some.injEq] at hget
            subst hget
            exact hstop hstops
          · exact hearlier index (by omega) ⟨stopping, hget, hstops⟩
        · rcases hlast with rfl | ⟨index, rfl, stopping, hget, hstops⟩
          · exact Or.inl rfl
          · exact Or.inr ⟨index + 1, rfl, stopping, hget, hstops⟩

/-- A consumer sees the source only through what it yields. -/
theorem Yields.drive {state : σ} {items : List (β × σ)} (hitems : src.Yields state items)
    (body : β → σ → τ → τ × Bool) (acc : τ) :
    ∃ last, src.drive body state acc = Except.ok (last, foldUntil body acc items) := by
  induction hitems generalizing acc with
  | done hpull =>
      rw [drive_eq, hpull]
      exact ⟨_, rfl⟩
  | @item state next item rest hpull _ ih =>
      rw [drive_eq, hpull]
      simp only [foldUntil]
      split
      · exact ⟨_, rfl⟩
      · exact ih _

/-- If every item adds at most one to a weight, the weight never exceeds what the source
could have yielded. -/
theorem drive_weight {body : β → σ → τ → τ × Bool} (weight : τ → Nat)
    (hbody : ∀ item next acc, weight (body item next acc).1 ≤ weight acc + 1) {state last : σ}
    {acc final : τ} (hdrive : src.drive body state acc = Except.ok (last, final)) :
    weight final ≤ weight acc + src.remaining state := by
  induction state using src.induction generalizing acc with
  | hstep state ih =>
      rw [drive_eq] at hdrive
      split at hdrive
      · simp at hdrive
      · simp only [Except.ok.injEq, Prod.mk.injEq] at hdrive
        obtain ⟨_, rfl⟩ := hdrive
        exact Nat.le_add_right _ _
      next item next hpull =>
        have hlt := src.pull_remaining _ _ _ hpull
        have htaken := hbody item next acc
        split at hdrive
        · simp only [Except.ok.injEq, Prod.mk.injEq] at hdrive
          obtain ⟨_, rfl⟩ := hdrive
          omega
        · have hrest := ih item next hpull hdrive
          omega

/-- A consumer that found what it stops for has used up some of the source. -/
theorem drive_found {body : β → σ → τ → τ × Bool} (found : τ → Prop)
    (hbody : ∀ item next acc, found (body item next acc).1 → (body item next acc).2 = true)
    {state last : σ} {acc final : τ} (hacc : ¬ found acc) (hfinal : found final)
    (hdrive : src.drive body state acc = Except.ok (last, final)) :
    src.remaining last < src.remaining state := by
  induction state using src.induction generalizing acc with
  | hstep state ih =>
      rw [drive_eq] at hdrive
      split at hdrive
      · simp at hdrive
      · simp only [Except.ok.injEq, Prod.mk.injEq] at hdrive
        exact absurd (hdrive.2 ▸ hfinal) hacc
      next item next hpull =>
        have hlt := src.pull_remaining _ _ _ hpull
        split at hdrive
        · simp only [Except.ok.injEq, Prod.mk.injEq] at hdrive
          exact hdrive.1 ▸ hlt
        next hstop =>
          have hnot : ¬ found (body item next acc).1 := fun hfound =>
            hstop (hbody item next acc hfound)
          exact Nat.lt_trans (ih item next hpull hnot hdrive) hlt

/-- Pull until an item is accepted. -/
def search {γ : Type} (src : Source σ ε β) (accept : β → Option γ) : Source σ ε γ where
  pull := fun state =>
    match src.drive (fun item _ _ => (accept item, (accept item).isSome)) state none with
    | Except.error failure => Except.error failure
    | Except.ok (last, found) => Except.ok (found, last)
  remaining := src.remaining
  pull_remaining := by
    intro state item next hpull
    split at hpull
    · simp at hpull
    next last found hdrive =>
      simp only [Except.ok.injEq, Prod.mk.injEq] at hpull
      obtain ⟨rfl, rfl⟩ := hpull
      exact drive_found (fun acc => acc.isSome = true) (fun _ _ _ hfound => hfound) (by simp) rfl
        hdrive

theorem search_pull_some {γ : Type} {accept : β → Option γ} {state next : σ} {item : β} {found : γ}
    (hpull : src.pull state = Except.ok (some item, next)) (haccept : accept item = some found) :
    (src.search accept).pull state = Except.ok (some found, next) := by
  simp only [search, drive_eq _ state, hpull, haccept, Option.isSome_some, if_true]

theorem search_pull_skip {γ : Type} {accept : β → Option γ} {state next : σ} {item : β}
    (hpull : src.pull state = Except.ok (some item, next)) (haccept : accept item = none) :
    (src.search accept).pull state = (src.search accept).pull next := by
  simp only [search, drive_eq _ state, hpull, haccept, Option.isSome_none, Bool.false_eq_true,
    if_false]

theorem search_pull_none {γ : Type} {accept : β → Option γ} {state next : σ}
    (hpull : src.pull state = Except.ok (none, next)) :
    (src.search accept).pull state = Except.ok (none, next) := by
  simp only [search, drive_eq _ state, hpull]

end Source
