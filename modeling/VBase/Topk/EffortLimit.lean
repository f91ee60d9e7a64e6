import VBase.Topk.Effort
import Mathlib.Data.Rat.Cast.Order
import Mathlib.Tactic.Linarith

/-! # Where more effort gives worse results

The drop counter is a `uint32_t`. When the drop limit of a run and the number of
its children add up to more than `2 ^ 32`, one round can take the counter past
`2 ^ 32`, and the run goes on as if nothing had been dropped. A run with a larger
queue may have kept one tuple more, and then its counter stops just short of it.
-/

namespace VBase.Topk

open PriorityQueue VBase.AccessMethod

variable {Q : {T K : Type} → [LinearOrder K] → (T → K) → Type} [PriorityQueue Q]
variable {C D : Type} [LinearOrder D]

/-! ## Histories with repeats -/

/-- Histories with the same first pulls and the same drops. -/
def Similar (bound : Nat) (history other : List (Tuple D)) : Prop :=
  firstPulls history = firstPulls other ∧ dropsAfter bound history = dropsAfter bound other

namespace Similar

variable {bound : Nat} {history other : List (Tuple D)}

theorem cons (hsimilar : Similar bound history other) (tuple : Tuple D) :
    Similar bound (tuple :: history) (tuple :: other) := by
  obtain ⟨hfirst, hdrops⟩ := hsimilar
  have hseen : tuple.tid ∈ history.map Tuple.tid ↔ tuple.tid ∈ other.map Tuple.tid := by
    rw [← tid_mem_firstPulls, hfirst, tid_mem_firstPulls]
  constructor
  · simp only [firstPulls, hseen, hfirst]
  · simp only [dropsAfter, hseen, hfirst, hdrops]

theorem append (hsimilar : Similar bound history other) (new : List (Tuple D)) :
    Similar bound (new ++ history) (new ++ other) := by
  induction new with
  | nil => exact hsimilar
  | cons tuple rest ih => exact ih.cons tuple

/-- Repeats change nothing. -/
theorem replicate (hsimilar : Similar bound history other) (count : Nat) (tuple : Tuple D) :
    Similar bound (List.replicate (count + 1) tuple ++ history) (tuple :: other) := by
  induction count with
  | zero => exact hsimilar.cons tuple
  | succ count ih =>
      have hseen : tuple.tid ∈ (List.replicate (count + 1) tuple ++ history).map Tuple.tid := by
        simp [List.replicate_succ]
      rw [List.replicate_succ, List.cons_append]
      constructor
      · rw [firstPulls, if_pos hseen]
        exact ih.1
      · rw [dropsAfter, if_pos hseen]
        exact ih.2

end Similar

/-! ## Rounds over children with tuples left -/

/-- A child for each of `ids`. -/
def childrenOf (context : C) (ids : List Nat) (rows : Nat → List (Tuple D)) : List (Child C D) :=
  ids.map fun id => ⟨context, rows id⟩

theorem pullEach_childrenOf (bound : UInt32) (context : C) (ids : List Nat)
    (head : Nat → Tuple D) (rows : Nat → List (Tuple D)) (s : Pulling Q C D) :
    (pullEach bound (childrenOf context ids fun id => head id :: rows id) s).1 =
        childrenOf context ids rows ∧
      (pullEach bound (childrenOf context ids fun id => head id :: rows id) s).2.tuples =
        (ids.map head).reverse ++ s.tuples ∧
      (pullEach bound (childrenOf context ids fun id => head id :: rows id) s).2.finish =
        s.finish := by
  induction ids generalizing s with
  | nil => exact ⟨rfl, rfl, rfl⟩
  | cons id rest ih =>
      obtain ⟨hchildren, htuples, hfinish⟩ := ih (s.take bound context (head id))
      refine ⟨?_, ?_, ?_⟩
      · exact congrArg (List.cons _) hchildren
      · rw [List.map_cons, List.reverse_cons, List.append_assoc]
        simpa [childrenOf, pullEach] using htuples
      · simpa [childrenOf, pullEach] using hfinish

/-- A run that is in the middle of a family of children. -/
structure Midway (bound termCond : UInt32) (context : C) (ids : List Nat)
    (rows : Nat → List (Tuple D)) (history : List (Tuple D)) (node : FaginsState Q C D) :
    Prop where
  children : node.children = childrenOf context ids rows
  similar : Similar bound.toNat node.pulling.tuples history
  offered : Offered bound node.pulling
  term : node.termCond = termCond

/-- A round over children with tuples left goes on unless there are too many drops. -/
theorem Midway.round {bound termCond : UInt32} {context : C} {ids : List Nat}
    {head : Nat → Tuple D} {rows : Nat → List (Tuple D)} {history history' : List (Tuple D)}
    {node : FaginsState Q C D}
    (hmidway : Midway bound termCond context ids (fun id => head id :: rows id) history node)
    (hrunning : node.pulling.finish = false)
    (hsimilar : ∀ tuples, Similar bound.toNat tuples history →
      Similar bound.toNat ((ids.map head).reverse ++ tuples) history') :
    Midway bound termCond context ids rows history' (node.round bound) ∧
      ((node.round bound).pulling.finish = true ↔
        termCond ≤ dropsAfter bound.toNat history') := by
  obtain ⟨hchildren, htuples, hfinish⟩ :=
    pullEach_childrenOf bound context ids head rows node.pulling
  rw [← hmidway.children] at hchildren htuples hfinish
  have hafter : Similar bound.toNat (node.round bound).pulling.tuples history' := by
    rw [FaginsState.round_tuples, htuples]
    exact hsimilar _ hmidway.similar
  have hoffered : Offered bound (node.round bound).pulling :=
    (FaginsState.round_reaches bound node).offered hmidway.offered
  refine ⟨⟨hchildren, hafter, hoffered, hmidway.term⟩, ?_⟩
  rw [FaginsState.round_finish, hfinish, hrunning, hoffered.drops, hafter.2, hmidway.term]
  simp

/-! ## Streams on which a larger queue stops first -/

section Streams

variable (small large : Nat)

/-- Descending ranks, then the least rank until a queue of `small` is full of it and one tuple
more, then ranks that no full queue keeps. -/
def rankOf (number : Nat) : Nat :=
  if number < large - small then large - small - number
  else if number ≤ large then 0
  else large - small + 1

def numbered (number : Nat) : Tuple ℚ := ⟨tidOf number, rankOf small large number⟩

/-- The first `count` tuples, the last one first. -/
def allNumbered (count : Nat) : List (Tuple ℚ) :=
  ((List.range count).map (numbered small large)).reverse

theorem allNumbered_succ (count : Nat) :
    allNumbered small large (count + 1) =
      numbered small large count :: allNumbered small large count := by
  simp [allNumbered, List.range_succ]

theorem allNumbered_add (count more : Nat) :
    ((List.range more).map fun number => numbered small large (count + number)).reverse ++
      allNumbered small large count = allNumbered small large (count + more) := by
  rw [allNumbered, allNumbered, List.range_add, List.map_append, List.reverse_append,
    List.map_map]
  rfl

theorem tid_notMem_allNumbered {count : Nat} (hcount : count < 2 ^ 48) :
    (numbered small large count).tid ∉ (allNumbered small large count).map Tuple.tid := by
  intro hmem
  simp only [allNumbered, List.map_reverse, List.mem_reverse, List.map_map, List.mem_map,
    List.mem_range, Function.comp_apply] at hmem
  obtain ⟨number, hlt, heq⟩ := hmem
  exact hlt.ne (tidOf_inj (by omega) hcount heq)

theorem firstPulls_allNumbered {count : Nat} (hcount : count ≤ 2 ^ 48) :
    firstPulls (allNumbered small large count) = allNumbered small large count := by
  induction count with
  | zero => rfl
  | succ count ih =>
      rw [allNumbered_succ, firstPulls,
        if_neg (tid_notMem_allNumbered small large (by omega)), ih (by omega)]

theorem dropsAfter_allNumbered_succ (bound : Nat) {count : Nat} (hcount : count < 2 ^ 48) :
    dropsAfter bound (allNumbered small large (count + 1)) =
      if (List.range count).countP (fun number => rankOf small large number ≤
        rankOf small large count) < bound then 0
      else dropsAfter bound (allNumbered small large count) + 1 := by
  rw [allNumbered_succ, dropsAfter, if_neg (tid_notMem_allNumbered small large hcount),
    firstPulls_allNumbered small large hcount.le]
  simp [allNumbered, List.countP_reverse, List.countP_map, numbered, Function.comp_def]

/-- The least rank is that of the tuples after the descending ones. -/
theorem countP_least {count : Nat} (hle : count ≤ large) :
    (List.range count).countP (fun number => rankOf small large number ≤ 0) =
      count - (large - small) := by
  induction count with
  | zero => simp
  | succ count ih =>
      rw [List.range_succ, List.countP_append, ih (by omega), List.countP_singleton]
      simp only [decide_eq_true_eq]
      by_cases hdescending : count < large - small
      · rw [rankOf, if_pos hdescending, if_neg (by omega)]
        omega
      · rw [rankOf, if_neg hdescending, if_pos (show count ≤ large by omega),
          if_pos (Nat.le_refl 0)]
        omega

variable {small large}

/-- A queue of `small` or more keeps every tuple until it has seen `large`. -/
theorem dropsAfter_kept {bound count : Nat} (hsmall : 1 ≤ small) (hbound : small ≤ bound)
    (hle : count ≤ large) (hlarge : large < 2 ^ 48) :
    dropsAfter bound (allNumbered small large count) = 0 := by
  cases count with
  | zero => rfl
  | succ count =>
      rw [dropsAfter_allNumbered_succ small large bound (by omega), if_pos]
      by_cases hdescending : count < large - small
      · have hnone : (List.range count).countP (fun number => rankOf small large number ≤
            rankOf small large count) = 0 := by
          rw [List.countP_eq_zero]
          intro number hnumber
          have hlt := List.mem_range.mp hnumber
          simp only [rankOf, hdescending, if_true, if_pos (show number < large - small by omega),
            decide_eq_true_eq]
          omega
        omega
      · have hrank : rankOf small large count = 0 := by
          rw [rankOf, if_neg hdescending, if_pos (by omega)]
        rw [hrank, countP_least small large (by omega)]
        omega

/-- The first tuple that the smaller queue drops. -/
theorem dropsAfter_large (hsmall : 1 ≤ small) (hlt : small < large) (hlarge : large < 2 ^ 48) :
    dropsAfter small (allNumbered small large (large + 1)) = 1 ∧
      dropsAfter large (allNumbered small large (large + 1)) = 0 := by
  have hrank : rankOf small large large = 0 := by
    rw [rankOf, if_neg (by omega), if_pos (Nat.le_refl _)]
  have hcount := countP_least small large (Nat.le_refl large)
  rw [dropsAfter_allNumbered_succ small large small hlarge,
    dropsAfter_allNumbered_succ small large large hlarge, hrank, hcount,
    if_neg (by omega), if_pos (by omega),
    dropsAfter_kept hsmall (Nat.le_refl _) (Nat.le_refl _) hlarge]
  exact ⟨rfl, rfl⟩

/-- Beyond that every tuple is dropped. -/
theorem dropsAfter_beyond {bound : Nat} (hbound : bound ≤ large) (more : Nat)
    (hmore : large + 1 + more ≤ 2 ^ 48) :
    dropsAfter bound (allNumbered small large (large + 1 + more)) =
      dropsAfter bound (allNumbered small large (large + 1)) + UInt32.ofNat more := by
  induction more with
  | zero => simp
  | succ more ih =>
      have hall : (List.range (large + 1 + more)).countP (fun number =>
          rankOf small large number ≤ rankOf small large (large + 1 + more)) =
          large + 1 + more := by
        refine (List.countP_eq_length.mpr fun number _ => ?_).trans List.length_range
        have hrank : rankOf small large (large + 1 + more) = large - small + 1 := by
          rw [rankOf, if_neg (by omega), if_neg (by omega)]
        rw [hrank, rankOf, decide_eq_true_eq]
        split
        · omega
        · split <;> omega
      rw [← Nat.add_assoc, dropsAfter_allNumbered_succ small large bound (by omega), hall,
        if_neg (by omega), ih (by omega), UInt32.add_assoc]
      congr 1
      exact (UInt32.ofNat_add more 1).symm

theorem dropsAfter_small_beyond (hsmall : 1 ≤ small) (hlt : small < large) {more : Nat}
    (hmore : large + 1 + more ≤ 2 ^ 48) :
    dropsAfter small (allNumbered small large (large + 1 + more)) = 1 + UInt32.ofNat more := by
  rw [dropsAfter_beyond hlt.le more hmore, (dropsAfter_large hsmall hlt (by omega)).1]

theorem dropsAfter_large_beyond (hsmall : 1 ≤ small) (hlt : small < large) {more : Nat}
    (hmore : large + 1 + more ≤ 2 ^ 48) :
    dropsAfter large (allNumbered small large (large + 1 + more)) = UInt32.ofNat more := by
  rw [dropsAfter_beyond (Nat.le_refl _) more hmore, (dropsAfter_large hsmall hlt (by omega)).2,
    UInt32.zero_add]

end Streams

/-! ## The runs on these streams -/

section Runs

variable {bound termCond : UInt32} {small large : Nat} {context : C}

/-- Rounds in which all children deliver the same new tuple. -/
theorem Midway.rounds {count : Nat} {tail : Nat → List (Tuple ℚ)} (left start : Nat)
    (node : FaginsState Q C ℚ)
    (hmidway : Midway bound termCond context (List.range (count + 1))
      (fun id => (List.range' start left).map (numbered small large) ++ tail id)
      (allNumbered small large start) node)
    (hrunning : node.pulling.finish = false)
    (hdrops : ∀ reached, start < reached → reached ≤ start + left →
      ¬ termCond ≤ dropsAfter bound.toNat (allNumbered small large reached)) :
    ∃ after, Loop.run FaginsState.measure (FaginsState.step bound) node =
        Loop.run FaginsState.measure (FaginsState.step bound) after ∧
      Midway bound termCond context (List.range (count + 1)) tail
        (allNumbered small large (start + left)) after ∧
      after.pulling.finish = false := by
  induction left generalizing start node with
  | zero => exact ⟨node, rfl, by simpa using hmidway, hrunning⟩
  | succ left ih =>
      have hsame : Midway bound termCond context (List.range (count + 1))
          (fun id => numbered small large start ::
            ((List.range' (start + 1) left).map (numbered small large) ++ tail id))
          (allNumbered small large start) node := hmidway
      obtain ⟨hround, hfinish⟩ := hsame.round hrunning fun tuples htuples => by
        have hrepeats := htuples.replicate count (numbered small large start)
        rwa [← List.length_range (n := count + 1), ← List.reverse_replicate, ← List.map_const',
          ← allNumbered_succ] at hrepeats
      have hgoing : (node.round bound).pulling.finish = false := by
        rw [← Bool.not_eq_true, hfinish]
        exact hdrops (start + 1) (by omega) (by omega)
      obtain ⟨after, hrun, hafter, hend⟩ := ih (start + 1) (node.round bound) hround hgoing
        (fun reached hlt hle => hdrops reached (by omega) (by omega))
      refine ⟨after, ?_, ?_, hend⟩
      · rw [← hrun]
        exact Loop.run_of_some (FaginsState.step_decreases bound)
          (FaginsState.step_of_running bound hrunning)
      · rwa [show start + (left + 1) = start + 1 + left by omega]

/-- All children deliver `rounds` new tuples in common, then each a new one of its own, and
then an old one. -/
def overtakingRows (small large rounds id : Nat) : List (Tuple ℚ) :=
  (List.range' 0 rounds).map (numbered small large) ++
    [numbered small large (rounds + id), numbered small large 0]

omit [LinearOrder D] in
theorem childrenOf_ne (context : C) (count : Nat) (rows : Nat → List (Tuple D)) :
    childrenOf context (List.range (count + 1)) rows ≠ [] := by
  simp [childrenOf]

/-- The run over these streams, up to the round in which the children differ. -/
theorem overtakingRows_run (context : C) (k ef : UInt32) (count rounds : Nat)
    (hdrops : ∀ reached, 0 < reached → reached ≤ rounds →
      ¬ termCond ≤ dropsAfter bound.toNat (allNumbered small large reached)) :
    ∃ after : FaginsState Q C ℚ,
      (initFaginsState k ef termCond
        (childrenOf context (List.range (count + 1)) (overtakingRows small large rounds))
        (childrenOf_ne context count _) context).roundRobin bound =
          Loop.run FaginsState.measure (FaginsState.step bound) after ∧
      Midway bound termCond context (List.range (count + 1))
        (fun _ => [numbered small large 0])
        (allNumbered small large (rounds + (count + 1))) after ∧
      (after.pulling.finish = true ↔
        termCond ≤ dropsAfter bound.toNat (allNumbered small large (rounds + (count + 1)))) := by
  have hstart : Midway (Q := Q) bound termCond context (List.range (count + 1))
      (overtakingRows small large rounds) (allNumbered small large 0)
      (initFaginsState k ef termCond
        (childrenOf context (List.range (count + 1)) (overtakingRows small large rounds))
        (childrenOf_ne context count _) context) :=
    ⟨rfl, ⟨rfl, rfl⟩, offered_init _ _ _ _ _ _ _, rfl⟩
  obtain ⟨before, hrun, hbefore, hrunning⟩ := hstart.rounds rounds 0 _ rfl
    (fun reached hlt hle => hdrops reached hlt (by omega))
  rw [Nat.zero_add] at hbefore
  have hlast : ∀ tuples, Similar bound.toNat tuples (allNumbered small large rounds) →
      Similar bound.toNat (((List.range (count + 1)).map fun id =>
        numbered small large (rounds + id)).reverse ++ tuples)
        (allNumbered small large (rounds + (count + 1))) := by
    intro tuples htuples
    rw [← allNumbered_add]
    exact htuples.append _
  obtain ⟨hround, hfinish⟩ := Midway.round hbefore hrunning hlast
  refine ⟨before.round bound, ?_, hround, hfinish⟩
  rw [FaginsState.roundRobin, ← Loop.run_of_some (FaginsState.step_decreases bound)
    (FaginsState.step_of_running bound hrunning)]
  exact hrun

/-- A run that goes on after that round takes the old tuples as well. -/
theorem overtakingRows_drained (context : C) (k ef : UInt32) (count rounds : Nat)
    (hdrops : ∀ reached, 0 < reached → reached ≤ rounds →
      ¬ termCond ≤ dropsAfter bound.toNat (allNumbered small large reached))
    (hgoing : ¬ termCond ≤
      dropsAfter bound.toNat (allNumbered small large (rounds + (count + 1)))) :
    List.Forall₂ (fun less more => more.rows <:+ less.rows)
      (childrenOf context (List.range (count + 1)) fun _ => [])
      ((initFaginsState (Q := Q) k ef termCond
        (childrenOf context (List.range (count + 1)) (overtakingRows small large rounds))
        (childrenOf_ne context count _) context).roundRobin bound).children := by
  obtain ⟨last, hrun, hmidway, hend⟩ := overtakingRows_run (Q := Q) context k ef count rounds hdrops
  have hrunning : last.pulling.finish = false := by
    rw [← Bool.not_eq_true, hend]
    exact hgoing
  have hchildren : (last.round bound).children =
      childrenOf context (List.range (count + 1)) fun _ => [] := by
    have hnext := (pullEach_childrenOf bound context (List.range (count + 1))
      (fun _ => numbered small large 0) (fun _ => []) last.pulling).1
    rw [← hmidway.children] at hnext
    exact hnext
  rw [hrun, Loop.run_of_some (FaginsState.step_decreases bound)
    (FaginsState.step_of_running bound hrunning), ← hchildren]
  exact (Ahead.run bound (last.round bound)).children

/-- A run that ends in that round leaves them. -/
theorem overtakingRows_left (context : C) (k ef : UInt32) (count rounds : Nat)
    (hdrops : ∀ reached, 0 < reached → reached ≤ rounds →
      ¬ termCond ≤ dropsAfter bound.toNat (allNumbered small large reached))
    (hstops : termCond ≤
      dropsAfter bound.toNat (allNumbered small large (rounds + (count + 1)))) :
    ((initFaginsState (Q := Q) k ef termCond
      (childrenOf context (List.range (count + 1)) (overtakingRows small large rounds))
      (childrenOf_ne context count _) context).roundRobin bound).children =
      childrenOf context (List.range (count + 1)) fun _ => [numbered small large 0] := by
  obtain ⟨last, hrun, hmidway, hend⟩ := overtakingRows_run (Q := Q) context k ef count rounds hdrops
  rw [hrun, Loop.run_of_none (by simp [FaginsState.step, hend.mpr hstops])]
  exact hmidway.children

end Runs

section Wrap

variable {small large less more : UInt32} {count rounds : Nat}

/-- Both counters stay below their limits while the children agree. In the round in which they
differ the smaller run's counter passes `2 ^ 32`, and the larger run's stops one short of it. -/
theorem overtaking_drops (hsmall : 1 ≤ small) (hlt : small < large) (hterm : less ≤ more)
    (hcount : count + 1 < 2 ^ 32) (hwrap : 2 ^ 32 < less.toNat + (count + 1))
    (hrounds : rounds = large.toNat + 2 ^ 32 - (count + 1)) :
    (∀ reached, 0 < reached → reached ≤ rounds →
      ¬ less ≤ dropsAfter small.toNat (allNumbered small.toNat large.toNat reached) ∧
      ¬ more ≤ dropsAfter large.toNat (allNumbered small.toNat large.toNat reached)) ∧
    ¬ less ≤ dropsAfter small.toNat
      (allNumbered small.toNat large.toNat (rounds + (count + 1))) ∧
    more ≤ dropsAfter large.toNat
      (allNumbered small.toNat large.toNat (rounds + (count + 1))) := by
  have hsmall' : 1 ≤ small.toNat := UInt32.le_iff_toNat_le.mp hsmall
  have hlt' : small.toNat < large.toNat := UInt32.lt_iff_toNat_lt.mp hlt
  have hterm' : less.toNat ≤ more.toNat := UInt32.le_iff_toNat_le.mp hterm
  have hlarge := large.toNat_lt
  have hmore := more.toNat_lt
  have htotal : rounds + (count + 1) = large.toNat + 1 + (2 ^ 32 - 1) := by omega
  simp only [UInt32.le_iff_toNat_le]
  refine ⟨fun reached _ hle => ?_, ?_, ?_⟩
  · rcases Nat.lt_or_ge large.toNat reached with hbeyond | hkept
    · obtain ⟨extra, rfl⟩ := Nat.exists_eq_add_of_le hbeyond
      rw [dropsAfter_small_beyond hsmall' hlt' (by omega),
        dropsAfter_large_beyond hsmall' hlt' (by omega), UInt32.toNat_add,
        UInt32.toNat_ofNat_of_lt' (show extra < UInt32.size by unfold UInt32.size; omega),
        UInt32.toNat_one]
      omega
    · rw [dropsAfter_kept hsmall' (Nat.le_refl _) hkept (by omega),
        dropsAfter_kept hsmall' hlt'.le hkept (by omega), UInt32.toNat_zero]
      omega
  · have hzero : (1 + UInt32.ofNat (2 ^ 32 - 1)).toNat = 0 := by decide
    rw [htotal, dropsAfter_small_beyond hsmall' hlt' (by omega), hzero]
    omega
  · have hmax : (UInt32.ofNat (2 ^ 32 - 1)).toNat = 2 ^ 32 - 1 := by decide
    rw [htotal, dropsAfter_large_beyond hsmall' hlt' (by omega), hmax]
    omega

/-- The run with the smaller queue pulls one tuple more from every child. -/
theorem overtakingRows_not_noWorse (k : UInt32) (context : C) (hsmall : 1 ≤ small)
    (hlt : small < large) (hterm : less ≤ more) (hcount : count + 1 < 2 ^ 32)
    (hwrap : 2 ^ 32 < less.toNat + (count + 1))
    (hrounds : rounds = large.toNat + 2 ^ 32 - (count + 1)) :
    ¬ NoWorse Q k
      (childrenOf context (List.range (count + 1))
        (overtakingRows small.toNat large.toNat rounds))
      (childrenOf_ne context count _) context (small, less) (large, more) := by
  obtain ⟨hgoing, hcontinues, hstops⟩ :=
    overtaking_drops hsmall hlt hterm hcount hwrap hrounds
  have hdrained := overtakingRows_drained (Q := Q) context k small count rounds
    (fun reached hpos hle => (hgoing reached hpos hle).1) hcontinues
  rintro ⟨hboth, -⟩
  have hpulls : List.Forall₂ (· ≤ ·)
      (pullCounts _ ((initFaginsState (Q := Q) k small less _ _ context).roundRobin
        small).children)
      (pullCounts _ ((initFaginsState (Q := Q) k large more _ _ context).roundRobin
        large).children) := hboth
  rw [overtakingRows_left context k large count rounds
    (fun reached hpos hle => (hgoing reached hpos hle).2) hstops] at hpulls
  generalize ((initFaginsState (Q := Q) (D := ℚ) k small less _ _ context).roundRobin
    small).children = left at hdrained hpulls
  simp only [childrenOf, List.range_succ_eq_map, List.map_cons] at hdrained hpulls
  -- the first child already has one tuple more taken from it
  cases hdrained with
  | cons hempty _ =>
      cases hpulls with
      | cons hle _ =>
          dsimp only at hle
          rw [List.suffix_nil.mp hempty] at hle
          simp [overtakingRows] at hle

end Wrap

/-- More effort never gives worse results exactly when the queues are equal or the counter of
the first run has room for a round beyond its limit. -/
theorem noWorse_iff (k small large less more : UInt32) (count : Nat) (context : C) (hk : 1 ≤ k)
    (hmax : k.toNat < 2 ^ 31) (hsmall : k ≤ small) (hef : small ≤ large) (hless : 1 ≤ less)
    (hterm : less ≤ more) (hpos : 1 ≤ count) (hcount : count < 2 ^ 32) :
    (∀ (children : List (Child C ℚ)) (hchildren : children ≠ []), children.length = count →
      NoWorse Q k children hchildren context (small, less) (large, more)) ↔
      small = large ∨ less.toNat + count ≤ 2 ^ 32 := by
  constructor
  · intro hall
    by_contra hnot
    rw [not_or, Nat.not_le] at hnot
    obtain ⟨count, rfl⟩ := Nat.exists_eq_add_of_le' hpos
    exact overtakingRows_not_noWorse (Q := Q) k context (UInt32.le_trans hk hsmall)
      (UInt32.lt_of_le_of_ne hef hnot.1) hterm hcount hnot.2 rfl
      (hall _ (childrenOf_ne context count _) (by simp [childrenOf]))
  · rintro hroom children hchildren rfl
    exact noWorse_of_room k small large less more children hchildren context hmax hsmall hef hless
      hterm hroom

/-- A limit that leaves room: two scans and the default limit. -/
theorem noWorse_iff_default_limit :
    (1 : UInt32) ≤ 1 ∧ (1 : UInt32).toNat < 2 ^ 31 ∧ (1 : UInt32) ≤ 2 ∧ (1 : UInt32) ≤ 50 ∧
    ∀ (children : List (Child Unit ℚ)) (hchildren : children ≠ []), children.length = 2 →
      NoWorse @SortedQueue 1 children hchildren () (1, 50) (2, 50) :=
  ⟨by decide, by decide, by decide, by decide,
    (noWorse_iff (Q := @SortedQueue) 1 1 2 50 50 2 () (by decide) (by decide) (by decide)
      (by decide) (by decide) (by decide) (by decide) (by decide)).mpr (Or.inr (by decide))⟩

/-- Two scans and the greatest limit: with a queue of two, fewer tuples are pulled than with a
queue of one. -/
theorem larger_queue_stops_first :
    ¬ NoWorse @SortedQueue 1
      (childrenOf () (List.range (1 + 1))
        (overtakingRows (1 : UInt32).toNat (2 : UInt32).toNat (2 ^ 32)))
      (childrenOf_ne () 1 _) () (1, 4294967295) (2, 4294967295) :=
  overtakingRows_not_noWorse 1 () (by decide) (by decide) (by decide) (by decide) (by decide)
    (by decide)

end VBase.Topk
