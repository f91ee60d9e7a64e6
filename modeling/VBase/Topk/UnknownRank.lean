import VBase.Topk.RankScore
import VBase.Topk.Results

/-! # Rows with an unknown rank

`castAttrToFloat` makes a score of zero of a NULL rank, before the pull loop
compares it. A row with an unknown rank is then kept and returned as one whose
rank is zero: after the rows with a negative rank, and before or in place of the
others. `ORDER BY rank LIMIT k` would return it after all of them.
-/

namespace VBase.Topk

open PriorityQueue VBase.AccessMethod

variable {Q : {T K : Type} → [LinearOrder K] → (T → K) → Type} [PriorityQueue Q]
variable {C D : Type}

/-- A slot with the rank in its last column but one, from which the pull loop reads the score
when it has several children. -/
def ReadsColumn (toFloat : ℚ → D) (rank : Datum) (score : D) : Prop :=
  ∃ (columns : List Datum) (orderby : Datum),
    castAttrToFloat toFloat (columns ++ [rank, orderby])
      ((columns ++ [rank, orderby]).length - 1) = .ok score

theorem readsColumn_iff {toFloat : ℚ → D} {rank : Datum} {score : D} :
    ReadsColumn toFloat rank score ↔ castToFloat toFloat rank = .ok score := by
  have hcolumn : ∀ columns orderby, castAttrToFloat toFloat (columns ++ [rank, orderby])
      ((columns ++ [rank, orderby]).length - 1) = castToFloat toFloat rank := by
    simp [castAttrToFloat]
  constructor
  · rintro ⟨columns, orderby, hscore⟩
    rwa [hcolumn] at hscore
  · intro hscore
    exact ⟨[], .null, (hcolumn _ _).trans hscore⟩

variable [LinearOrder D]

/-- No row with an unknown rank is returned before a row with a known rank, or while one that
was pulled is left out. -/
def UnknownLast (rank : ItemPointer → Datum)
    (calls : Source (FuncCallContext Q C D) Empty (Tuple D)) (funcctx : FuncCallContext Q C D)
    (pulled : List (Tuple D)) : Prop :=
  ∃ run, calls.Yields funcctx run ∧
    (run.map Prod.fst).Pairwise (fun earlier later =>
      rank earlier.tid = .null → rank later.tid = .null) ∧
    ∀ leftOut ∈ pulled, leftOut.tid ∉ (run.map Prod.fst).map Tuple.tid →
      rank leftOut.tid ≠ .null → ∀ tuple ∈ run.map Prod.fst, rank tuple.tid ≠ .null

/-- Every known rank of the table is below the score of an unknown one, if there is one. -/
def KnownBelowZero (toFloat : ℚ → D) (rank : ItemPointer → Datum) : Prop :=
  ∀ unknown known, rank unknown = .null → rank known ≠ .null →
    ∀ score, castToFloat toFloat (rank known) = .ok score → score < toFloat 0

/-! ## Negative ranks -/

section

variable {toFloat : ℚ → D} {rank : ItemPointer → Datum}

theorem KnownBelowZero.lt (hbelow : KnownBelowZero toFloat rank) {known unknown : Tuple D}
    (hknown : rank known.tid ≠ .null) (hunknown : rank unknown.tid = .null)
    (hscore : castToFloat toFloat (rank known.tid) = .ok known.rankScore)
    (hzero : castToFloat toFloat (rank unknown.tid) = .ok unknown.rankScore) :
    known.rankScore < unknown.rankScore := by
  rw [hunknown] at hzero
  rw [← Except.ok.inj hzero]
  exact hbelow unknown.tid known.tid hunknown hknown known.rankScore hscore

omit [PriorityQueue Q] in
/-- The best of the pulled tuples have the unknown ranks last. -/
theorem ReturnsBest.unknownLast {calls : Source (FuncCallContext Q C D) Empty (Tuple D)}
    {funcctx : FuncCallContext Q C D} {k : Nat} {pulled : List (Tuple D)}
    (hbest : ReturnsBest calls funcctx k pulled) (hbelow : KnownBelowZero toFloat rank)
    (hscores : ∀ tuple ∈ pulled, castToFloat toFloat (rank tuple.tid) = .ok tuple.rankScore) :
    UnknownLast rank calls funcctx pulled := by
  obtain ⟨run, hrun, -, -, hascending, hsubset, hlow⟩ := hbest
  have hpulled : ∀ tuple ∈ run.map Prod.fst, tuple ∈ pulled := fun tuple htuple =>
    firstPulls_subset pulled (hsubset htuple)
  refine ⟨run, hrun, ?_, ?_⟩
  · refine hascending.imp_of_mem fun {earlier later} hearlier hlater hle hunknown => ?_
    by_contra hknown
    exact not_lt.mpr hle (hbelow.lt hknown hunknown (hscores later (hpulled later hlater))
      (hscores earlier (hpulled earlier hearlier)))
  · intro leftOut hmem hout hknown tuple htuple hunknown
    -- the first pull of the row that was left out is the one that was offered
    obtain ⟨first, hfirst, htid⟩ := List.mem_map.mp
      ((tid_mem_firstPulls pulled leftOut.tid).mpr (List.mem_map_of_mem hmem))
    rw [← htid] at hknown hout
    refine hlow first hfirst (fun hin => hout (List.mem_map_of_mem hin)) tuple htuple ?_
    exact hbelow.lt hknown hunknown (hscores first (firstPulls_subset pulled hfirst))
      (hscores tuple (hpulled tuple htuple))

omit [PriorityQueue Q] in
/-- A `k` that is no `int` makes a negative number of calls. -/
theorem firstCall_yields_nothing (exec : FaginsState Q C D → Option (Tuple D) × FaginsState Q C D)
    (node : FaginsState Q C D) (hk : ¬ node.topk.toNat < 2 ^ 31) :
    (topkCalls exec).Yields (firstCall node) [] := by
  have hnone : ¬ ((firstCall node).callCntr : Int) < (firstCall node).maxCalls := by
    have hint : node.topk.toBitVec.toInt = (node.topk.toNat : Int) - 2 ^ 32 := by
      rw [BitVec.toInt_eq_toNat_cond, UInt32.toNat_toBitVec, if_neg (by omega)]
      rfl
    have hlt := node.topk.toNat_lt
    simp only [firstCall, hint]
    omega
  have hpull : (topkCalls exec).pull (firstCall node) = Except.ok (none, firstCall node) :=
    if_neg hnone
  exact Source.Yields.done hpull

theorem roundRobin_unknownLast (bound : FaginsState Q C D → UInt32) (k ef termCond : UInt32)
    {children : List (Child C D)} (hchildren : children ≠ []) (context : C)
    (hbound : k ≤ bound (initFaginsState k ef termCond children hchildren context))
    (hbelow : KnownBelowZero toFloat rank)
    (hreads : ∀ child ∈ children, ∀ tuple ∈ child.rows,
      ReadsColumn toFloat (rank tuple.tid) tuple.rankScore) :
    let node := initFaginsState (Q := Q) k ef termCond children hchildren context
    UnknownLast rank (topkCalls fun node => (node.roundRobin (bound node)).produce)
      (firstCall node) (node.roundRobin (bound node)).pulling.tuples := by
  intro node
  by_cases hk : k.toNat < 2 ^ 31
  · obtain ⟨run, hrun, hbest, hascending⟩ := roundRobin_yields bound k ef termCond children
      hchildren context hk hbound
    refine (returnsBest_of_smallestBy hrun hbest hascending).unknownLast hbelow ?_
    exact ((FaginsState.roundRobin_reaches (bound node) node).1.pulled
      (fun child hchild tuple htuple => readsColumn_iff.mp (hreads child hchild tuple htuple))
      (by simp [node, initFaginsState, FaginsState.enter, Pulling.tuples])).2
  · exact ⟨[], firstCall_yields_nothing _ node hk, List.Pairwise.nil, by simp⟩

end

/-! ## Other ranks -/

theorem Pulling.take_procPq_of_refused {bound : UInt32} {context : C} {tuple : Tuple D}
    {s : Pulling Q C D} (hrefused : ¬ accepts bound.toNat s.procPq tuple = true) :
    (s.take bound context tuple).procPq = s.procPq := by
  unfold take offer
  split
  · rfl
  · simp [hrefused]

/-- Two children, of which the second delivers a row that is no better than that of the first:
the row of the first is kept and that of the second dropped. -/
theorem roundRobin_keeps_first (context : C) {first second : Tuple D}
    (htid : first.tid ≠ second.tid) (hle : first.rankScore ≤ second.rankScore) :
    let node := initFaginsState (Q := Q) 1 1 1 [⟨context, [first]⟩, ⟨context, [second]⟩]
      (List.cons_ne_nil _ _) context
    (node.roundRobin 1).turnedOver = [first] ∧
      (node.roundRobin 1).pulling.tuples = [second, first] := by
  intro node
  let kept := node.pulling.take 1 context first
  let both := kept.take 1 context second
  have hkept : Offered 1 kept := (offered_init 1 1 1 1 _ _ context).take context first
  have hboth : Offered 1 both := hkept.take context second
  have htuples : both.tuples = [second, first] := by
    simp [both, kept, node, initFaginsState, Pulling.tuples]
  have hbest : SmallestBy (Tuple.rankScore (D := D)) 1 ↑[first] (elems kept.procPq) := by
    have hbest := hkept.best
    rwa [show kept.tuples = [first] by simp [kept, node, initFaginsState, Pulling.tuples]] at hbest
  -- also at the same score, which is why the second row need not be worse
  have hrefused : ¬ accepts (1 : UInt32).toNat kept.procPq second = true := by
    rw [UInt32.toNat_one, accepts_iff_countP hbest, Multiset.coe_countP]
    simp [hle]
  have helems : elems both.procPq = {first} := by
    rw [Pulling.take_procPq_of_refused hrefused, hbest.eq_of_card_le (by simp)]
    rfl
  have hdrops : both.consecutiveDrops = 1 := by
    rw [hboth.drops, htuples]
    simp [dropsAfter, firstPulls, htid.symm, hle]
  have hlimit : node.termCond ≤ both.consecutiveDrops := by
    rw [hdrops]
    exact UInt32.le_refl 1
  have hround : (node.round 1).pulling = { both with finish := true } := if_pos hlimit
  have hrun : node.roundRobin 1 = node.round 1 := by
    have hstep : FaginsState.step 1 node.enter = some (node.round 1) :=
      FaginsState.step_of_running 1 rfl
    have hstop : FaginsState.step 1 (node.round 1) = none := by
      simp [FaginsState.step, hround]
    rw [FaginsState.roundRobin, Loop.run_of_some (FaginsState.step_decreases 1) hstep,
      Loop.run_of_none hstop]
  rw [hrun]
  refine ⟨Multiset.coe_eq_singleton.mp ?_, ?_⟩
  · rw [FaginsState.coe_turnedOver rfl, hround, helems]
  · rw [hround, Pulling.tuples_finish, htuples]

theorem topk_returns_first (context : C) (first second : Tuple D)
    (htid : first.tid ≠ second.tid) (hle : first.rankScore ≤ second.rankScore) :
    let funcctx := topk (Q := Q) 1 1 1 [⟨context, [first]⟩, ⟨context, [second]⟩]
      (List.cons_ne_nil _ _) context
    (∃ run, (topkCalls execFagins).Yields funcctx run ∧ run.map Prod.fst = [first]) ∧
      (execFagins funcctx.userFctx).2.pulling.tuples = [second, first] := by
  intro funcctx
  have hfuncctx : funcctx = firstCall (initFaginsState 1 1 1
      [⟨context, [first]⟩, ⟨context, [second]⟩] (List.cons_ne_nil _ _) context) := by
    simp [funcctx, topk]
  obtain ⟨hstack, hpulled⟩ := roundRobin_keeps_first (Q := Q) context htid hle
  obtain ⟨run, hrun, hitems⟩ := topkCalls_yields
    (fun node hfinish => roundRobin_turnedOver (FaginsState.ef node) hfinish) funcctx
    (FaginsState.roundRobin_finish _ _)
  refine ⟨⟨run, hrun, ?_⟩, ?_⟩
  · rw [hitems, hfuncctx]
    exact congrArg (List.take 1) hstack
  · rw [hfuncctx, execFagins, FaginsState.produce_tuples]
    exact hpulled

/-- Unknown ranks come last in every run over several children exactly when the table has none,
or when all known ranks are negative. -/
theorem unknownLast_iff (toFloat : ℚ → D) (rank : ItemPointer → Datum) (context : C) :
    (∀ (k ef termCond : UInt32) (children : List (Child C D)) (hchildren : children ≠ []),
      1 < children.length →
      (∀ child ∈ children, ∀ tuple ∈ child.rows,
        ReadsColumn toFloat (rank tuple.tid) tuple.rankScore) →
      UnknownLast rank (topkCalls execFagins)
          (topk (Q := Q) k ef termCond children hchildren context)
          (execFagins (topk (Q := Q) k ef termCond children hchildren
            context).userFctx).2.pulling.tuples ∧
        UnknownLast rank (topkCalls execFaginsM)
          (multicolTopk (Q := Q) k termCond children hchildren context)
          (execFaginsM (multicolTopk (Q := Q) k termCond children hchildren
            context).userFctx).2.pulling.tuples) ↔
      KnownBelowZero toFloat rank := by
  constructor
  · intro hlast unknown known hunknown hknown score hscore
    by_contra hge
    have htid : unknown ≠ known := by
      rintro rfl
      exact hknown hunknown
    have hreads : ∀ child ∈ [(⟨context, [⟨unknown, toFloat 0⟩]⟩ : Child C D),
        ⟨context, [⟨known, score⟩]⟩], ∀ tuple ∈ child.rows,
        ReadsColumn toFloat (rank tuple.tid) tuple.rankScore := by
      simp only [List.mem_cons, List.not_mem_nil, or_false, forall_eq_or_imp, forall_eq,
        readsColumn_iff]
      exact ⟨by rw [hunknown]; rfl, hscore⟩
    obtain ⟨run, hrun, -, hkept⟩ :=
      (hlast 1 1 1 _ (List.cons_ne_nil _ _) (by simp) hreads).1
    obtain ⟨⟨returned, hreturned, hitems⟩, hpulled⟩ := topk_returns_first (Q := Q) context
      ⟨unknown, toFloat 0⟩ ⟨known, score⟩ htid (not_lt.mp hge)
    obtain rfl := hrun.unique hreturned
    rw [hitems, hpulled] at hkept
    exact hkept ⟨known, score⟩ (by simp) (by simpa using htid.symm) hknown ⟨unknown, toFloat 0⟩
      (by simp) hunknown
  · intro hbelow k ef termCond children hchildren _ hreads
    exact ⟨roundRobin_unknownLast FaginsState.ef k _ _ hchildren context (le_queueBound k _) hbelow
      hreads, roundRobin_unknownLast FaginsState.topk k k _ hchildren context (UInt32.le_refl k)
      hbelow hreads⟩

/-- The rank of a single row is unknown, and that of the others is three. -/
def oneUnknown (tid : ItemPointer) : Datum := if tid = ⟨0, 1⟩ then .null else .float8 3

/-- A row with the rank three is left out for one whose rank is unknown. -/
theorem unknown_rank_displaces_known :
    let children : List (Child Unit ℚ) := [⟨(), [⟨⟨0, 1⟩, 0⟩]⟩, ⟨(), [⟨⟨0, 2⟩, 3⟩]⟩]
    (∀ child ∈ children, ∀ tuple ∈ child.rows,
      ReadsColumn id (oneUnknown tuple.tid) tuple.rankScore) ∧
    ¬ UnknownLast oneUnknown (topkCalls execFagins)
        (topk (Q := @SortedQueue) 1 0 0 children (List.cons_ne_nil _ _) ())
        (execFagins (topk (Q := @SortedQueue) 1 0 0 children (List.cons_ne_nil _ _)
          ()).userFctx).2.pulling.tuples ∧
      ¬ UnknownLast oneUnknown (topkCalls execFaginsM)
        (multicolTopk (Q := @SortedQueue) 1 0 children (List.cons_ne_nil _ _) ())
        (execFaginsM (multicolTopk (Q := @SortedQueue) 1 0 children (List.cons_ne_nil _ _)
          ()).userFctx).2.pulling.tuples := by
  intro children
  have hknown : oneUnknown ⟨0, 2⟩ ≠ .null := by simp [oneUnknown]
  refine ⟨?_, ?_, ?_⟩
  · simp only [children, List.mem_cons, List.not_mem_nil, or_false, forall_eq_or_imp, forall_eq,
      readsColumn_iff]
    exact ⟨rfl, rfl⟩
  · rintro ⟨run, hrun, -, hkept⟩
    have hitems : (topkCalls execFagins).collect 2 (topk (Q := @SortedQueue) 1 0 0 children
        (List.cons_ne_nil _ _) ()) = .ok [⟨⟨0, 1⟩, 0⟩] := by decide +kernel
    rw [hrun.map_fst_of_collect hitems (by decide)] at hkept
    exact hkept ⟨⟨0, 2⟩, 3⟩ (by decide +kernel) (by decide) hknown ⟨⟨0, 1⟩, 0⟩
      (by decide +kernel) rfl
  · rintro ⟨run, hrun, -, hkept⟩
    have hitems : (topkCalls execFaginsM).collect 2 (multicolTopk (Q := @SortedQueue) 1 0 children
        (List.cons_ne_nil _ _) ()) = .ok [⟨⟨0, 1⟩, 0⟩] := by decide +kernel
    rw [hrun.map_fst_of_collect hitems (by decide)] at hkept
    exact hkept ⟨⟨0, 2⟩, 3⟩ (by decide +kernel) (by decide) hknown ⟨⟨0, 1⟩, 0⟩
      (by decide +kernel) rfl

end VBase.Topk
