import VBase.Topk.Results
import VBase.Topk.Schedules

/-! # Exhaustive searches are exact

When every child delivers all rows and the drop limit is beyond the number of
rows that cannot be kept, no scheduler ends its loop before all rows were
pulled: it ends because a child is exhausted, and that child has delivered every
row. The scores returned are then the best of all rows, in whatever order the
children were given and pulled.
-/

namespace VBase.Topk

open PriorityQueue VBase.AccessMethod

variable {Q : {T K : Type} → [LinearOrder K] → (T → K) → Type} [PriorityQueue Q]
variable {C D : Type} [LinearOrder D]

/-- Every row was pulled or is still to come from every child, and the loop has not ended
before all were pulled. -/
structure Covers (rows : List (Tuple D)) (state : List (Child C D) × Pulling Q C D) : Prop where
  delivered : ∀ child ∈ state.1, ∀ tuple ∈ rows, tuple ∈ state.2.tuples ∨ tuple ∈ child.rows
  known : ∀ child ∈ state.1, child.rows ⊆ rows
  pulled : state.2.tuples ⊆ rows
  finished : state.2.finish = true → rows ⊆ state.2.tuples

section

variable {bound termCond : UInt32} {rows : List (Tuple D)}

theorem covers_init (k ef : UInt32) {children : List (Child C D)} (hchildren : children ≠ [])
    (context : C) (hdelivers : ∀ child ∈ children, child.rows.Perm rows) :
    Covers rows (children,
      (initFaginsState (Q := Q) k ef termCond children hchildren context).pulling) where
  delivered := fun child hchild tuple htuple => Or.inr ((hdelivers child hchild).mem_iff.mpr htuple)
  known := fun child hchild => (hdelivers child hchild).subset
  pulled := List.nil_subset _
  finished := fun hfinish => by simp [initFaginsState] at hfinish

omit [LinearOrder D] in
theorem length_firstPulls_le {history : List (Tuple D)} (hsubset : history ⊆ rows) :
    (firstPulls history).length ≤ rows.length :=
  (List.subperm_of_subset (firstPulls_nodup history).of_map
    (List.Subset.trans (firstPulls_subset history) hsubset)).length_le

/-- There are not enough rows for as many drops as the limit. -/
theorem Offered.drops_lt {s : Pulling Q C D} (hs : Offered bound s) (hpulled : s.tuples ⊆ rows)
    (hpos : 1 ≤ termCond) (hterm : rows.length < termCond.toNat + bound.toNat) :
    ¬ termCond ≤ s.consecutiveDrops := by
  have hlength := length_firstPulls_le hpulled
  have hdrops := dropsAfter_le bound.toNat s.tuples
  have hone : 1 ≤ termCond.toNat := UInt32.le_iff_toNat_le.mp hpos
  rw [UInt32.le_iff_toNat_le, hs.drops]
  omega

theorem Covers.step {state next : List (Child C D) × Pulling Q C D} (hcovers : Covers rows state)
    (hoffered : Offered bound state.2) (hpos : 1 ≤ termCond)
    (hterm : rows.length < termCond.toNat + bound.toNat) (hstep : Step bound termCond state next) :
    Covers rows next := by
  cases hstep with
  | pull before after context tuple more s =>
      obtain ⟨hdelivered, hknown, hpulled, hfinished⟩ := hcovers
      have hsubset := hknown ⟨context, tuple :: more⟩ (by simp)
      -- a child is one that was not pulled, or the one that was, less the tuple
      have hchild : ∀ child ∈ before ++ ⟨context, more⟩ :: after,
          ∃ old ∈ before ++ ⟨context, tuple :: more⟩ :: after,
            child.rows ⊆ old.rows ∧ old.rows ⊆ tuple :: child.rows := by
        intro child hmem
        simp only [List.mem_append, List.mem_cons] at hmem
        rcases hmem with hbefore | rfl | hafter
        · exact ⟨child, by simp [hbefore], fun _ h => h, List.subset_cons_self _ _⟩
        · exact ⟨⟨context, tuple :: more⟩, by simp, List.subset_cons_self _ _, fun _ h => h⟩
        · exact ⟨child, by simp [hafter], fun _ h => h, List.subset_cons_self _ _⟩
      refine ⟨?_, ?_, ?_, ?_⟩
      · intro child hmem row hrow
        obtain ⟨old, hold, -, hsub⟩ := hchild child hmem
        rw [Pulling.take_tuples]
        rcases hdelivered old hold row hrow with hbefore | hrest
        · exact Or.inl (List.mem_cons_of_mem _ hbefore)
        · rcases List.mem_cons.mp (hsub hrest) with rfl | hrest
          · exact Or.inl List.mem_cons_self
          · exact Or.inr hrest
      · intro child hmem
        obtain ⟨old, hold, hsub, -⟩ := hchild child hmem
        exact List.Subset.trans hsub (hknown old hold)
      · rw [Pulling.take_tuples]
        exact List.cons_subset.mpr ⟨hsubset List.mem_cons_self, hpulled⟩
      · rw [Pulling.take_tuples, Pulling.take_finish]
        exact fun hfinish => List.subset_cons_of_subset _ (hfinished hfinish)
  | exhausted s hmem hrows =>
      refine ⟨hcovers.delivered, hcovers.known, hcovers.pulled, fun _ row hrow => ?_⟩
      refine (hcovers.delivered _ hmem row hrow).resolve_right ?_
      simp [hrows]
  | dropped children hdrops => exact absurd hdrops (hoffered.drops_lt hcovers.pulled hpos hterm)

theorem Reaches.covers {start reached : List (Child C D) × Pulling Q C D}
    (hreaches : Reaches bound termCond start reached) (hstart : Covers rows start)
    (hoffered : Offered bound start.2) (hpos : 1 ≤ termCond)
    (hterm : rows.length < termCond.toNat + bound.toNat) : Covers rows reached := by
  induction hreaches with
  | refl => exact hstart
  | tail hbefore hstep ih =>
      exact ih.step (Reaches.offered hbefore hoffered) hpos hterm hstep

omit [PriorityQueue Q] in
/-- When the loop has ended, the first pulls are the rows. -/
theorem Covers.perm {state : List (Child C D) × Pulling Q C D} (hcovers : Covers rows state)
    (hrows : (rows.map Tuple.tid).Nodup) (hfinish : state.2.finish = true) :
    (firstPulls state.2.tuples).Perm rows := by
  rw [List.perm_ext_iff_of_nodup (firstPulls_nodup _).of_map hrows.of_map]
  have hsubset := List.Subset.trans (firstPulls_subset state.2.tuples) hcovers.pulled
  intro tuple
  refine ⟨fun hmem => hsubset hmem, fun hmem => ?_⟩
  have htid : tuple.tid ∈ (firstPulls state.2.tuples).map Tuple.tid :=
    (tid_mem_firstPulls _ _).mpr (List.mem_map_of_mem (hcovers.finished hfinish hmem))
  obtain ⟨first, hfirst, heq⟩ := List.mem_map.mp htid
  rwa [← List.inj_on_of_nodup_map hrows (hsubset hfirst) hmem heq]

end

/-- Calls that return tuples with given scores, and then no further tuple. -/
def ReturnsScores (calls : Source (FuncCallContext Q C D) Empty (Tuple D))
    (funcctx : FuncCallContext Q C D) (scores : List D) : Prop :=
  ∃ run, calls.Yields funcctx run ∧ (run.map Prod.fst).map Tuple.rankScore = scores

/-- Any loop that only makes steps and has ended returns the best scores of all rows. -/
theorem returnsScores_of_reaches {k ef termCond : UInt32} {rows : List (Tuple D)}
    (hrows : (rows.map Tuple.tid).Nodup) (hk : k.toNat < 2 ^ 31) (hef : k ≤ ef)
    (hpos : 1 ≤ termCond) (hterm : rows.length < termCond.toNat + ef.toNat)
    {children : List (Child C D)} (hchildren : children ≠ [])
    (hdelivers : ∀ child ∈ children, child.rows.Perm rows) (context : C)
    (loop : FaginsState Q C D → FaginsState Q C D)
    (hloop : ∀ node, node.pulling.finish = true →
      (loop node).pulling.finish = true ∧ (loop node).turnedOver = node.turnedOver)
    {node : FaginsState Q C D}
    (hnode : node = initFaginsState k ef termCond children hchildren context)
    (hfinish : (loop node).pulling.finish = true) (hstack : (loop node).resultStack = [])
    (hreaches : Reaches ef termCond (node.children, node.enter.pulling)
      ((loop node).children, (loop node).pulling)) :
    ReturnsScores (topkCalls fun node => (loop node).produce) (firstCall node)
      (((rows.map Tuple.rankScore).insertionSort (· ≤ ·)).take k.toNat) := by
  subst hnode
  have hinit := offered_init (Q := Q) ef k ef termCond children hchildren context
  have hcovers := hreaches.covers (covers_init k ef hchildren context hdelivers) hinit hpos hterm
  obtain ⟨run, hrun, hbest, hascending⟩ :=
    firstCall_yields loop hloop _ hk hef hfinish (hreaches.offered hinit) hstack
  refine ⟨run, hrun, ?_⟩
  rw [Multiset.coe_eq_coe.mpr (hcovers.perm hrows hfinish)] at hbest
  exact hbest.map_eq_take hascending

/-- Exhaustive searches return the best scores of all rows, whatever the scheduler. -/
theorem schedulers_exhaustive (rows : List (Tuple ℚ)) (hrows : (rows.map Tuple.tid).Nodup)
    (k ef termCond : UInt32) (hk : k.toNat < 2 ^ 31) (hef : k ≤ ef) (hpos : 1 ≤ termCond)
    (hterm : rows.length < termCond.toNat + ef.toNat) (children : List (Child C ℚ))
    (hchildren : children ≠ []) (hdelivers : ∀ child ∈ children, child.rows.Perm rows)
    (context : C) (byZero : ℚ → ℚ) :
    let node := initFaginsState (Q := Q) k ef termCond children hchildren context
    let best := ((rows.map Tuple.rankScore).insertionSort (· ≤ ·)).take k.toNat
    ReturnsScores (topkCalls execFagins) (firstCall node) best ∧
      ReturnsScores (topkCalls (Greedy.execFagins byZero)) (firstCall node) best ∧
      ∀ rounds, (Weighted.after byZero rounds node).pulling.finish = true →
        ReturnsScores (topkCalls (Weighted.execFagins byZero rounds)) (firstCall node) best := by
  intro node best
  have hany := returnsScores_of_reaches (Q := Q) hrows hk hef hpos hterm hchildren hdelivers context
  refine ⟨?_, ?_, fun rounds hended => ?_⟩
  · have hloop := FaginsState.roundRobin_reaches node.ef node
    exact hany (fun node => node.roundRobin node.ef)
      (fun node hfinish => roundRobin_turnedOver node.ef hfinish) rfl
      (FaginsState.roundRobin_finish node.ef node) hloop.2 hloop.1
  · have hloop := Greedy.pullLoop_spec byZero node
    exact hany (Greedy.pullLoop byZero)
      (fun _ hfinish => Greedy.pullLoop_of_finish byZero hfinish) rfl hloop.1 rfl hloop.2
  · have hloop := Weighted.pullLoop_reaches byZero rounds node
    exact hany (Weighted.pullLoop byZero rounds)
      (fun _ hfinish => Weighted.pullLoop_of_finish byZero rounds hfinish) rfl hended rfl hloop

theorem schedulers_exhaustive_two_rows :
    ∃ (rows : List (Tuple ℚ)) (children : List (Child Unit ℚ)) (hchildren : children ≠ [])
      (node : FaginsState @SortedQueue Unit ℚ),
      rows = [⟨⟨0, 1⟩, 2⟩, ⟨⟨0, 2⟩, 1⟩] ∧ children = [⟨(), rows⟩, ⟨(), rows.reverse⟩] ∧
      node = initFaginsState 1 1 2 children hchildren () ∧
      (rows.map Tuple.tid).Nodup ∧ rows.length < (2 : UInt32).toNat + (1 : UInt32).toNat ∧
      (∀ child ∈ children, child.rows.Perm rows) ∧
      (Weighted.after (fun _ => 0) 1 node).pulling.finish = true ∧
      ReturnsScores (topkCalls execFagins) (firstCall node) [1] ∧
      ReturnsScores (topkCalls (Greedy.execFagins fun _ => 0)) (firstCall node) [1] ∧
      ReturnsScores (topkCalls (Weighted.execFagins (fun _ => 0) 1)) (firstCall node) [1] := by
  have hbest : (((([⟨⟨0, 1⟩, 2⟩, ⟨⟨0, 2⟩, 1⟩] : List (Tuple ℚ)).map
      Tuple.rankScore).insertionSort (· ≤ ·)).take (1 : UInt32).toNat) = [1] := by decide +kernel
  have hdelivers : ∀ child ∈ ([⟨(), [⟨⟨0, 1⟩, 2⟩, ⟨⟨0, 2⟩, 1⟩]⟩,
      ⟨(), [⟨⟨0, 1⟩, 2⟩, ⟨⟨0, 2⟩, 1⟩].reverse⟩] : List (Child Unit ℚ)),
      child.rows.Perm [⟨⟨0, 1⟩, 2⟩, ⟨⟨0, 2⟩, 1⟩] := by
    simp only [List.mem_cons, List.not_mem_nil, or_false, forall_eq_or_imp, forall_eq]
    exact ⟨List.Perm.refl _, List.reverse_perm _⟩
  obtain ⟨hround, hgreedy, hweighted⟩ := schedulers_exhaustive (Q := @SortedQueue) _
    (by decide) 1 1 2 (by decide) (by decide) (by decide) (by decide) _ (by simp) hdelivers ()
    fun _ => 0
  rw [hbest] at hround hgreedy hweighted
  exact ⟨_, _, by simp, _, rfl, rfl, rfl, by decide, by decide, hdelivers, by decide +kernel,
    hround, hgreedy, hweighted 1 (by decide +kernel)⟩

end VBase.Topk
