import VBase.Topk.Results
import Mathlib.Data.List.Forall2

/-! # More effort

Two runs of the round-robin loop over the same children, the second with a larger
queue and a larger drop limit. While both run they pull the same tuples. What the
smaller queue keeps the larger one keeps too, so the counter of the second run
is never ahead, unless the counter of the first run passes `2 ^ 32`.
-/

namespace VBase.Topk

open PriorityQueue VBase.AccessMethod

variable {Q : {T K : Type} → [LinearOrder K] → (T → K) → Type} [PriorityQueue Q]
variable {C D : Type}

/-! ## Histories -/

/-- Later pulls add to the first pulls. -/
theorem firstPulls_append (new earlier : List (Tuple D)) :
    firstPulls earlier <:+ firstPulls (new ++ earlier) := by
  induction new with
  | nil => exact List.suffix_refl _
  | cons tuple rest ih =>
      rw [List.cons_append, firstPulls]
      split
      · exact ih
      · exact ih.trans (List.suffix_cons _ _)

variable [LinearOrder D]

/-- The counter of the larger queue stays behind while that of the smaller cannot pass
`2 ^ 32`. -/
theorem dropsAfter_append_le {small large : Nat} (hle : small ≤ large)
    (new earlier : List (Tuple D))
    (hbehind : (dropsAfter large earlier).toNat ≤ (dropsAfter small earlier).toNat)
    (hroom : (dropsAfter small earlier).toNat + new.length < 2 ^ 32) :
    (dropsAfter large (new ++ earlier)).toNat ≤ (dropsAfter small (new ++ earlier)).toNat ∧
      (dropsAfter small (new ++ earlier)).toNat ≤
        (dropsAfter small earlier).toNat + new.length := by
  induction new with
  | nil => exact ⟨hbehind, Nat.le_refl _⟩
  | cons tuple rest ih =>
      rw [List.length_cons] at hroom
      obtain ⟨hrest, hcount⟩ := ih (by omega)
      have hadd : ∀ bound, (dropsAfter bound (rest ++ earlier)).toNat + 1 < 2 ^ 32 →
          (dropsAfter bound (rest ++ earlier) + 1).toNat =
            (dropsAfter bound (rest ++ earlier)).toNat + 1 := by
        intro bound hlt
        rw [UInt32.toNat_add]
        exact Nat.mod_eq_of_lt hlt
      rw [List.cons_append, List.length_cons, dropsAfter, dropsAfter]
      by_cases hseen : tuple.tid ∈ (rest ++ earlier).map Tuple.tid
      · rw [if_pos hseen, if_pos hseen]
        omega
      · rw [if_neg hseen, if_neg hseen]
        split
        · refine ⟨Nat.zero_le _, ?_⟩
          split
          · exact Nat.zero_le _
          · rw [hadd small (by omega)]
            omega
        next hlarge =>
          rw [if_neg (by omega), hadd small (by omega), hadd large (by omega)]
          omega

/-! ## Rounds -/

/-- A round adds at most one tuple per child to the history, and takes them from the children. -/
theorem pullEach_grows (bound : UInt32) (children : List (Child C D)) (s : Pulling Q C D) :
    (∃ new, new.length ≤ children.length ∧
        (pullEach bound children s).2.tuples = new ++ s.tuples) ∧
      List.Forall₂ (fun before after => after.rows <:+ before.rows) children
        (pullEach bound children s).1 := by
  induction children generalizing s with
  | nil => exact ⟨⟨[], Nat.le_refl _, rfl⟩, List.Forall₂.nil⟩
  | cons child others ih =>
      rw [pullEach]
      split
      · exact ⟨⟨[], Nat.zero_le _, rfl⟩, List.forall₂_same.mpr fun _ _ => List.suffix_refl _⟩
      next tuple rows hrows =>
        obtain ⟨⟨new, hlength, hnew⟩, hsuffix⟩ := ih (s.take bound child.esQueryCxt tuple)
        refine ⟨⟨new ++ [tuple], ?_, ?_⟩, List.Forall₂.cons ?_ hsuffix⟩
        · rw [List.length_append, List.length_cons]
          exact Nat.succ_le_succ hlength
        · simpa using hnew
        · rw [hrows]
          exact List.suffix_cons tuple rows

/-- Rounds over the same children pull the same tuples, whatever the queues hold. -/
theorem pullEach_lockstep (first second : UInt32) (children : List (Child C D))
    {s t : Pulling Q C D} (hpulled : s.tuples = t.tuples) (hfinish : s.finish = t.finish) :
    (pullEach first children s).1 = (pullEach second children t).1 ∧
      (pullEach first children s).2.tuples = (pullEach second children t).2.tuples ∧
      (pullEach first children s).2.finish = (pullEach second children t).2.finish := by
  induction children generalizing s t with
  | nil => exact ⟨rfl, hpulled, hfinish⟩
  | cons child others ih =>
      rw [pullEach, pullEach]
      cases child.rows with
      | nil => exact ⟨rfl, hpulled, rfl⟩
      | cons tuple rows =>
          have hrest := ih (s := s.take first child.esQueryCxt tuple)
            (t := t.take second child.esQueryCxt tuple) (by simp [hpulled]) (by simp [hfinish])
          exact ⟨congrArg (List.cons _) hrest.1, hrest.2⟩

namespace FaginsState

theorem round_tuples (bound : UInt32) (node : FaginsState Q C D) :
    (node.round bound).pulling.tuples = (pullEach bound node.children node.pulling).2.tuples := by
  unfold round Pulling.checkTermination
  dsimp only
  split <;> rfl

theorem round_finish (bound : UInt32) (node : FaginsState Q C D) :
    (node.round bound).pulling.finish = true ↔
      (pullEach bound node.children node.pulling).2.finish = true ∨
        node.termCond ≤ (node.round bound).pulling.consecutiveDrops := by
  have hdrops : (node.round bound).pulling.consecutiveDrops =
      (pullEach bound node.children node.pulling).2.consecutiveDrops := by
    unfold round Pulling.checkTermination
    dsimp only
    split <;> rfl
  rw [hdrops]
  exact Pulling.checkTermination_finish _ _

end FaginsState

/-! ## Two runs -/

/-- The second node has gone on from where the first one is. -/
structure Ahead (first second : FaginsState Q C D) : Prop where
  tuples : first.pulling.tuples <:+ second.pulling.tuples
  children : List.Forall₂ (fun less more => more.rows <:+ less.rows) first.children
    second.children

namespace Ahead

omit [PriorityQueue Q] in
theorem of_eq {first second : FaginsState Q C D}
    (htuples : first.pulling.tuples = second.pulling.tuples)
    (hchildren : first.children = second.children) : Ahead first second := by
  refine ⟨htuples ▸ List.suffix_refl _, ?_⟩
  rw [hchildren]
  exact List.forall₂_same.mpr fun _ _ => List.suffix_refl _

omit [PriorityQueue Q] in
theorem trans {first second third : FaginsState Q C D} (hfirst : Ahead first second)
    (hsecond : Ahead second third) : Ahead first third := by
  refine ⟨hfirst.tuples.trans hsecond.tuples, ?_⟩
  obtain ⟨-, hless⟩ := hfirst
  obtain ⟨-, hmore⟩ := hsecond
  generalize first.children = before at hless ⊢
  generalize second.children = between at hless hmore
  generalize third.children = after at hmore ⊢
  induction hless generalizing after with
  | nil => rwa [List.forall₂_nil_left_iff] at hmore ⊢
  | cons hless _ ih =>
      cases hmore with
      | cons hmore hrest => exact List.Forall₂.cons (hmore.trans hless) (ih _ hrest)

theorem round (bound : UInt32) (node : FaginsState Q C D) : Ahead node (node.round bound) := by
  obtain ⟨⟨new, -, hnew⟩, hsuffix⟩ := pullEach_grows bound node.children node.pulling
  refine ⟨?_, hsuffix⟩
  rw [node.round_tuples bound, hnew]
  exact List.suffix_append _ _

/-- The loop only goes on. -/
theorem run (bound : UInt32) (node : FaginsState Q C D) :
    Ahead node (Loop.run FaginsState.measure (FaginsState.step bound) node) := by
  refine Loop.run_invariant (FaginsState.step_decreases bound)
    (motive := fun reached => Ahead node reached) (fun before after hbefore hstep => ?_) node
    (of_eq rfl rfl)
  unfold FaginsState.step at hstep
  split at hstep
  · simp at hstep
  · obtain rfl := Option.some.inj hstep
    exact hbefore.trans (round bound before)

end Ahead

section

variable {small large less more : UInt32} {count : Nat}

/-- Two runs that have pulled the same tuples, where the second does not end first. -/
structure Lockstep (small large less more : UInt32) (count : Nat)
    (first second : FaginsState Q C D) : Prop where
  children : first.children = second.children
  length : first.children.length = count
  tuples : first.pulling.tuples = second.pulling.tuples
  firstOffered : Offered small first.pulling
  secondOffered : Offered large second.pulling
  firstTerm : first.termCond = less
  secondTerm : second.termCond = more
  finish : first.pulling.finish = false → second.pulling.finish = false
  running : first.pulling.finish = false →
    (dropsAfter small.toNat first.pulling.tuples).toNat < less.toNat
  behind : (dropsAfter large.toNat first.pulling.tuples).toNat ≤
    (dropsAfter small.toNat first.pulling.tuples).toNat

theorem lockstep_init (k : UInt32) (children : List (Child C D)) (hchildren : children ≠ [])
    (context : C) (hless : 1 ≤ less) :
    Lockstep small large less more children.length
      (initFaginsState (Q := Q) k small less children hchildren context)
      (initFaginsState (Q := Q) k large more children hchildren context) where
  children := rfl
  length := rfl
  tuples := rfl
  firstOffered := offered_init small k small less children hchildren context
  secondOffered := offered_init large k large more children hchildren context
  firstTerm := rfl
  secondTerm := rfl
  finish := fun _ => rfl
  running := fun _ => UInt32.le_iff_toNat_le.mp hless
  behind := Nat.le_refl _

/-- A round keeps two runs together. -/
theorem Lockstep.round {first second : FaginsState Q C D}
    (hstep : Lockstep small large less more count first second) (hef : small ≤ large)
    (hterm : less ≤ more) (hroom : small = large ∨ less.toNat + count ≤ 2 ^ 32)
    (hrunning : first.pulling.finish = false) :
    Lockstep small large less more count (first.round small) (second.round large) := by
  have hsecond : pullEach large second.children second.pulling =
      pullEach large first.children second.pulling := by rw [hstep.children]
  obtain ⟨hchildren, htuples, hfinish⟩ := pullEach_lockstep small large first.children
    hstep.tuples (hrunning.trans (hstep.finish hrunning).symm)
  rw [← hsecond] at hchildren htuples hfinish
  obtain ⟨⟨new, hnew, hgrown⟩, hsuffix⟩ := pullEach_grows small first.children first.pulling
  have hbehind : (dropsAfter large.toNat (new ++ first.pulling.tuples)).toNat ≤
      (dropsAfter small.toNat (new ++ first.pulling.tuples)).toNat := by
    rcases hroom with rfl | hroom
    · exact Nat.le_refl _
    · have hlt := hstep.running hrunning
      have hlength := hstep.length
      exact (dropsAfter_append_le (UInt32.le_iff_toNat_le.mp hef) new _ hstep.behind
        (by omega)).1
  have hfirstOffered : Offered small (first.round small).pulling :=
    (FaginsState.round_reaches small first).offered hstep.firstOffered
  have hsecondOffered : Offered large (second.round large).pulling :=
    (FaginsState.round_reaches large second).offered hstep.secondOffered
  rw [← hgrown, ← first.round_tuples small] at hbehind
  have hsame : (first.round small).pulling.tuples = (second.round large).pulling.tuples := by
    rw [FaginsState.round_tuples, FaginsState.round_tuples, htuples]
  refine ⟨hchildren, hsuffix.length_eq.symm.trans hstep.length, hsame, hfirstOffered,
    hsecondOffered, hstep.firstTerm, hstep.secondTerm, fun hgoing => ?_, fun hgoing => ?_, hbehind⟩
  · -- the second run ends a round only where the first one does
    rw [← Bool.not_eq_true, FaginsState.round_finish, not_or] at hgoing ⊢
    refine ⟨hfinish ▸ hgoing.1, fun hmore => hgoing.2 ?_⟩
    rw [hstep.secondTerm, UInt32.le_iff_toNat_le, hsecondOffered.drops, ← hsame] at hmore
    rw [hstep.firstTerm, UInt32.le_iff_toNat_le, hfirstOffered.drops]
    have hle := UInt32.le_iff_toNat_le.mp hterm
    omega
  · rw [← Bool.not_eq_true, FaginsState.round_finish, not_or] at hgoing
    rw [hstep.firstTerm, UInt32.le_iff_toNat_le, hfirstOffered.drops] at hgoing
    omega

/-- Where the first run ends, the second has pulled the same tuples and goes on from there. -/
theorem Lockstep.ahead (first second : FaginsState Q C D)
    (hstep : Lockstep small large less more count first second) (hef : small ≤ large)
    (hterm : less ≤ more) (hroom : small = large ∨ less.toNat + count ≤ 2 ^ 32) :
    Ahead (Loop.run FaginsState.measure (FaginsState.step small) first)
      (Loop.run FaginsState.measure (FaginsState.step large) second) := by
  revert second
  refine Loop.run_induction (FaginsState.step_decreases small) (motive := fun first =>
    ∀ second, Lockstep small large less more count first second →
      Ahead (Loop.run FaginsState.measure (FaginsState.step small) first)
        (Loop.run FaginsState.measure (FaginsState.step large) second)) ?_ ?_ first
  · intro first hstop second hstep
    rw [Loop.run_of_none hstop]
    exact (Ahead.of_eq hstep.tuples hstep.children).trans (Ahead.run large second)
  · intro first next hnext ih second hstep
    have hrunning : first.pulling.finish = false := by
      by_contra hfinish
      simp [FaginsState.step, hfinish] at hnext
    have hgoing := hstep.finish hrunning
    have hfirst : FaginsState.step small first = some (first.round small) := by
      simp [FaginsState.step, hrunning]
    have hsecond : FaginsState.step large second = some (second.round large) := by
      simp [FaginsState.step, hgoing]
    rw [hfirst] at hnext
    obtain rfl := Option.some.inj hnext
    rw [Loop.run_of_some (FaginsState.step_decreases small) hfirst,
      Loop.run_of_some (FaginsState.step_decreases large) hsecond]
    exact ih _ (hstep.round hef hterm hroom hrunning)

end

/-! ## Results -/

/-- The numbers of tuples pulled from the children, by what is left of them. -/
def pullCounts (start left : List (Child C D)) : List Nat :=
  List.zipWith (fun child rest => child.rows.length - rest.rows.length) start left

omit [LinearOrder D] in
theorem pullCounts_le (start : List (Child C D)) {less more : List (Child C D)}
    (hless : List.Forall₂ (fun less more => more.rows <:+ less.rows) less more) :
    List.Forall₂ (· ≤ ·) (pullCounts start less) (pullCounts start more) := by
  induction hless generalizing start with
  | nil => simp [pullCounts]
  | cons hsuffix _ ih =>
      cases start with
      | nil => exact List.Forall₂.nil
      | cons child others =>
          exact List.Forall₂.cons (Nat.sub_le_sub_left hsuffix.length_le _) (ih others)

/-- The second of two runs, each with its `ef` and `term_cond`, pulls no fewer tuples from any
child, returns no fewer tuples, and has no greater score at any position. -/
def NoWorse (Q : {T K : Type} → [LinearOrder K] → (T → K) → Type) [PriorityQueue Q] (k : UInt32)
    (children : List (Child C D)) (hchildren : children ≠ []) (context : C)
    (first second : UInt32 × UInt32) : Prop :=
  let less := initFaginsState (Q := Q) k first.1 first.2 children hchildren context
  let more := initFaginsState (Q := Q) k second.1 second.2 children hchildren context
  List.Forall₂ (· ≤ ·) (pullCounts children (execFagins less).2.children)
      (pullCounts children (execFagins more).2.children) ∧
    ∃ fewer further, (topkCalls execFagins).Yields (firstCall less) fewer ∧
      (topkCalls execFagins).Yields (firstCall more) further ∧
      fewer.length ≤ further.length ∧
      ∀ (index : Nat) (score : D),
        ((fewer.map Prod.fst).map Tuple.rankScore)[index]? = some score →
        ∃ better, ((further.map Prod.fst).map Tuple.rankScore)[index]? = some better ∧
          better ≤ score

/-- The calls return the best scores of the first pulls. -/
theorem execFagins_scores (k ef termCond : UInt32) (children : List (Child C D))
    (hchildren : children ≠ []) (context : C) (hk : k.toNat < 2 ^ 31) (hef : k ≤ ef) :
    let node := initFaginsState (Q := Q) k ef termCond children hchildren context
    ∃ run, (topkCalls execFagins).Yields (firstCall node) run ∧
      (run.map Prod.fst).map Tuple.rankScore =
        (((firstPulls (node.roundRobin ef).pulling.tuples).map Tuple.rankScore).insertionSort
          (· ≤ ·)).take k.toNat := by
  intro node
  obtain ⟨run, hrun, hbest, hascending⟩ := roundRobin_yields (Q := Q) FaginsState.ef k ef termCond
    children hchildren context hk hef
  exact ⟨run, hrun, hbest.map_eq_take hascending⟩

/-- More effort gives no worse results while the counter of the first run has room. -/
theorem noWorse_of_room (k small large less more : UInt32) (children : List (Child C D))
    (hchildren : children ≠ []) (context : C) (hk : k.toNat < 2 ^ 31) (hsmall : k ≤ small)
    (hef : small ≤ large) (hless : 1 ≤ less) (hterm : less ≤ more)
    (hroom : small = large ∨ less.toNat + children.length ≤ 2 ^ 32) :
    NoWorse Q k children hchildren context (small, less) (large, more) := by
  have hstart : Lockstep (Q := Q) small large less more children.length
      (initFaginsState k small less children hchildren context)
      (initFaginsState k large more children hchildren context) :=
    lockstep_init k children hchildren context hless
  have hahead : Ahead
      ((initFaginsState (Q := Q) k small less children hchildren context).roundRobin small)
      ((initFaginsState (Q := Q) k large more children hchildren context).roundRobin large) :=
    Lockstep.ahead _ _ hstart hef hterm hroom
  obtain ⟨fewer, hfewer, hscores⟩ := execFagins_scores (Q := Q) k small less children hchildren
    context hk hsmall
  obtain ⟨further, hfurther, hscores'⟩ := execFagins_scores (Q := Q) k large more children
    hchildren context hk (UInt32.le_trans hsmall hef)
  have hbetter : ∀ (index : Nat) (score : D),
      ((fewer.map Prod.fst).map Tuple.rankScore)[index]? = some score →
      ∃ better, ((further.map Prod.fst).map Tuple.rankScore)[index]? = some better ∧
        better ≤ score := by
    obtain ⟨new, hnew⟩ := hahead.tuples
    intro index score hscore
    rw [hscores] at hscore
    rw [hscores']
    refine take_insertionSort_le (List.Sublist.subperm ?_) hscore
    refine ((firstPulls_append new _).map Tuple.rankScore).sublist.trans ?_
    rw [hnew]
  refine ⟨pullCounts_le children hahead.children, fewer, further, hfewer, hfurther, ?_, hbetter⟩
  by_contra hlonger
  have hlast : further.length < ((fewer.map Prod.fst).map Tuple.rankScore).length := by
    simpa using hlonger
  obtain ⟨better, hget, -⟩ := hbetter further.length _ (List.getElem?_eq_getElem hlast)
  simp at hget

end VBase.Topk
