import VBase.Topk.Offering

/-! # What the calls return

The calls of `topk` return, in ascending order of their scores, the `k` best of
the tuples that the pull loop kept. The loop keeps at least `k` of the first
tuples with each TID, so these are the `k` best of all that were pulled.
-/

namespace VBase.Topk

open PriorityQueue VBase.AccessMethod

variable {Q : {T K : Type} → [LinearOrder K] → (T → K) → Type} [PriorityQueue Q]
variable {C D : Type} [LinearOrder D]

namespace FaginsState

theorem produce_tuples (node : FaginsState Q C D) :
    node.produce.2.pulling.tuples = node.pulling.tuples := rfl

theorem turnedOver_ascending {node : FaginsState Q C D} (hstack : node.resultStack = []) :
    node.turnedOver.Pairwise (AscendingBy Tuple.rankScore) := by
  rw [turnedOver, hstack, List.append_nil, List.pairwise_reverse]
  exact drain_pairwise node.pulling.procPq

theorem coe_turnedOver {node : FaginsState Q C D} (hstack : node.resultStack = []) :
    (↑node.turnedOver : Multiset (Tuple D)) = elems node.pulling.procPq := by
  rw [turnedOver, hstack, List.append_nil, Multiset.coe_reverse, coe_drain]

end FaginsState

/-- The calls return the best first pulls of the loop, in ascending order. -/
theorem firstCall_yields (loop : FaginsState Q C D → FaginsState Q C D)
    (hloop : ∀ node, node.pulling.finish = true →
      (loop node).pulling.finish = true ∧ (loop node).turnedOver = node.turnedOver)
    (node : FaginsState Q C D) {bound : UInt32} (hk : node.topk.toNat < 2 ^ 31)
    (hbound : node.topk ≤ bound) (hfinish : (loop node).pulling.finish = true)
    (hoffered : Offered bound (loop node).pulling) (hstack : (loop node).resultStack = []) :
    ∃ run, (topkCalls fun node => (loop node).produce).Yields (firstCall node) run ∧
      SmallestBy (Tuple.rankScore (D := D)) node.topk.toNat
        ↑(firstPulls (loop node).pulling.tuples) ↑(run.map Prod.fst) ∧
      (run.map Prod.fst).Pairwise (AscendingBy Tuple.rankScore) := by
  have hcalls : ((firstCall node).maxCalls - (firstCall node).callCntr).toNat =
      node.topk.toNat := by
    have hint : node.topk.toBitVec.toInt = node.topk.toBitVec.toNat :=
      BitVec.toInt_eq_toNat_of_lt (by rw [UInt32.toNat_toBitVec]; omega)
    simp only [firstCall, hint, UInt32.toNat_toBitVec]
    omega
  obtain ⟨run, hrun, hitems⟩ := topkCalls_yields hloop (firstCall node) hfinish
  have hascending := FaginsState.turnedOver_ascending hstack
  have hkept := hoffered.best
  rw [← FaginsState.coe_turnedOver hstack] at hkept
  rw [hcalls] at hitems
  refine ⟨run, hrun, ?_, ?_⟩ <;> rw [hitems]
  · exact hkept.trans (SmallestBy.take hascending _) (UInt32.le_iff_toNat_le.mp hbound)
  · exact hascending.take

theorem roundRobin_turnedOver (bound : UInt32) {node : FaginsState Q C D}
    (hfinish : node.pulling.finish = true) :
    (node.roundRobin bound).pulling.finish = true ∧
      (node.roundRobin bound).turnedOver = node.turnedOver := by
  rw [FaginsState.roundRobin_of_finish bound hfinish]
  exact ⟨hfinish, rfl⟩

/-- The state after the pull loop is that of its history. -/
theorem roundRobin_offered (bound k ef termCond : UInt32) (children : List (Child C D))
    (hchildren : children ≠ []) (context : C) :
    Offered bound ((initFaginsState (Q := Q) k ef termCond children hchildren context).roundRobin
      bound).pulling :=
  (FaginsState.roundRobin_reaches bound _).1.offered
    (offered_init bound k ef termCond children hchildren context)

/-- The calls of a node that pulls in turn, with a queue bounded by `bound`. -/
theorem roundRobin_yields (bound : FaginsState Q C D → UInt32) (k ef termCond : UInt32)
    (children : List (Child C D)) (hchildren : children ≠ []) (context : C)
    (hk : k.toNat < 2 ^ 31)
    (hbound : k ≤ bound (initFaginsState k ef termCond children hchildren context)) :
    let node := initFaginsState (Q := Q) k ef termCond children hchildren context
    ∃ run, (topkCalls fun node => (node.roundRobin (bound node)).produce).Yields
        (firstCall node) run ∧
      SmallestBy (Tuple.rankScore (D := D)) k.toNat
        ↑(firstPulls (node.roundRobin (bound node)).pulling.tuples) ↑(run.map Prod.fst) ∧
      (run.map Prod.fst).Pairwise (AscendingBy Tuple.rankScore) := by
  intro node
  exact firstCall_yields (fun node => node.roundRobin (bound node))
    (fun node hfinish => roundRobin_turnedOver (bound node) hfinish) node hk hbound
    (FaginsState.roundRobin_finish _ _) (roundRobin_offered _ _ _ _ _ _ _)
    (FaginsState.roundRobin_reaches _ _).2

/-- The queue of `topk` has room for `k` tuples. -/
theorem le_queueBound (k ef : UInt32) : k ≤ if ef < k then k else ef := by
  split
  · exact UInt32.le_refl k
  next hlt => exact UInt32.not_lt.mp hlt

/-- Calls that return the `k` best of the tuples that were pulled, latest first: one tuple
for each TID, with the score of its first pull. -/
def ReturnsBest (calls : Source (FuncCallContext Q C D) Empty (Tuple D))
    (funcctx : FuncCallContext Q C D) (k : Nat) (pulled : List (Tuple D)) : Prop :=
  ∃ run, calls.Yields funcctx run ∧
    (run.map Prod.fst).length = min k (pulled.map Tuple.tid).toFinset.card ∧
    ((run.map Prod.fst).map Tuple.tid).Nodup ∧
    (run.map Prod.fst).Pairwise (AscendingBy Tuple.rankScore) ∧
    run.map Prod.fst ⊆ firstPulls pulled ∧
    ∀ leftOut ∈ firstPulls pulled, leftOut ∉ run.map Prod.fst →
      ∀ tuple ∈ run.map Prod.fst, ¬ leftOut.rankScore < tuple.rankScore

omit [PriorityQueue Q] in
theorem returnsBest_of_smallestBy {calls : Source (FuncCallContext Q C D) Empty (Tuple D)}
    {funcctx : FuncCallContext Q C D} {k : Nat} {pulled : List (Tuple D)}
    {run : List (Tuple D × FuncCallContext Q C D)} (hrun : calls.Yields funcctx run)
    (hbest : SmallestBy (Tuple.rankScore (D := D)) k ↑(firstPulls pulled) ↑(run.map Prod.fst))
    (hascending : (run.map Prod.fst).Pairwise (AscendingBy Tuple.rankScore)) :
    ReturnsBest calls funcctx k pulled := by
  have hlength := hbest.card_eq
  obtain ⟨rest, hall, -, hlow⟩ := hbest
  refine ⟨run, hrun, ?_, ?_, hascending, ?_, ?_⟩
  · rw [← length_firstPulls]
    exact hlength
  · have hle : (↑(run.map Prod.fst) : Multiset (Tuple D)) ≤ ↑(firstPulls pulled) :=
      hall ▸ Multiset.le_add_right _ _
    have htids := Multiset.map_le_map (f := Tuple.tid) hle
    rw [Multiset.map_coe, Multiset.map_coe] at htids
    exact Multiset.coe_nodup.mp
      (Multiset.nodup_of_le htids (Multiset.coe_nodup.mpr (firstPulls_nodup pulled)))
  · intro tuple htuple
    have hmem : tuple ∈ (↑(firstPulls pulled) : Multiset (Tuple D)) :=
      hall ▸ Multiset.mem_add.mpr (Or.inl (Multiset.mem_coe.mpr htuple))
    exact Multiset.mem_coe.mp hmem
  · intro leftOut hfirst hout tuple htuple
    have hmem : leftOut ∈ (↑(run.map Prod.fst) : Multiset (Tuple D)) + rest :=
      hall ▸ Multiset.mem_coe.mpr hfirst
    have hrest : leftOut ∈ rest := (Multiset.mem_add.mp hmem).resolve_left hout
    exact not_lt.mpr (hlow tuple (Multiset.mem_coe.mpr htuple) leftOut hrest)

/-- The history is one of the children: what a call has pulled and what it has left make up their
streams, of which it has pulled the first tuples. -/
theorem execFagins_delivers (k ef termCond : UInt32) (children : List (Child C D))
    (hchildren : children ≠ []) (context : C) :
    ∀ exec ∈ [execFagins (Q := Q), execFaginsM],
      let after := (exec (initFaginsState k ef termCond children hchildren context)).2
      ↑after.pulling.pulled + undelivered after.children = undelivered children ∧
        List.Forall₂ (fun given left => left.esQueryCxt = given.esQueryCxt ∧
          left.rows <:+ given.rows) children after.children := by
  have hdelivers := fun bound => (FaginsState.roundRobin_reaches (Q := Q) bound
    (initFaginsState k ef termCond children hchildren context)).1.delivers
  intro exec hexec
  rw [List.mem_cons, List.mem_singleton] at hexec
  rcases hexec with rfl | rfl
  · obtain ⟨hsum, hsuffix⟩ := hdelivers ef
    exact ⟨hsum.trans (zero_add _), hsuffix⟩
  · obtain ⟨hsum, hsuffix⟩ := hdelivers k
    exact ⟨hsum.trans (zero_add _), hsuffix⟩

/-- The calls of `topk` and of `multicol_topk` return the best of what was pulled, and then no
further tuple. -/
theorem topk_returnsBest (k ef termCond : UInt32) (children : List (Child C D))
    (hchildren : children ≠ []) (context : C) (hk : k.toNat < 2 ^ 31) :
    ReturnsBest (topkCalls execFagins) (topk (Q := Q) k ef termCond children hchildren context)
        k.toNat (execFagins (topk (Q := Q) k ef termCond children hchildren
          context).userFctx).2.pulling.tuples ∧
      ReturnsBest (topkCalls execFaginsM)
        (multicolTopk (Q := Q) k termCond children hchildren context) k.toNat
        (execFaginsM (multicolTopk (Q := Q) k termCond children hchildren
          context).userFctx).2.pulling.tuples := by
  constructor
  · obtain ⟨run, hrun, hbest, hascending⟩ := roundRobin_yields (Q := Q) FaginsState.ef k _ _
      children hchildren context hk (le_queueBound k _)
    exact returnsBest_of_smallestBy hrun hbest hascending
  · obtain ⟨run, hrun, hbest, hascending⟩ := roundRobin_yields (Q := Q) FaginsState.topk k k _
      children hchildren context hk (UInt32.le_refl k)
    exact returnsBest_of_smallestBy hrun hbest hascending

theorem topk_returnsBest_of_two_scans :
    ∃ (children : List (Child Nat Nat)) (hchildren : children ≠ []),
      children = [⟨1, [⟨⟨0, 1⟩, 3⟩, ⟨⟨0, 2⟩, 5⟩]⟩, ⟨2, [⟨⟨0, 2⟩, 5⟩, ⟨⟨0, 3⟩, 4⟩]⟩] ∧
      (2 : UInt32).toNat < 2 ^ 31 ∧
      (execFagins (topk (Q := @SortedQueue) 2 2 50 children hchildren
        0).userFctx).2.pulling.tuples =
          [⟨⟨0, 3⟩, 4⟩, ⟨⟨0, 2⟩, 5⟩, ⟨⟨0, 2⟩, 5⟩, ⟨⟨0, 1⟩, 3⟩] ∧
      ReturnsBest (topkCalls execFagins)
        (topk (Q := @SortedQueue) 2 2 50 children hchildren 0) (2 : UInt32).toNat
        (execFagins (topk (Q := @SortedQueue) 2 2 50 children hchildren
          0).userFctx).2.pulling.tuples :=
  ⟨_, by decide, rfl, by decide, by decide +kernel,
    (topk_returnsBest 2 2 50 _ (by decide) 0 (by decide)).1⟩

end VBase.Topk
