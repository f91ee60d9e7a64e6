import VBase.Hnsw.Iterative

/-! # What the search loop explores

The queue of the loop is the frontier of a best-first order of the base layer,
and its marks are what the order has seen. A search call extends the order up to
the next node that it reports, or to the end.
-/

namespace VBase.Hnsw

open BestFirst PriorityQueue

variable {Q : {T K : Type} → [LinearOrder K] → (T → K) → Type} [PriorityQueue Q]
variable {D : Type} [LinearOrder D]

namespace HierarchicalNSW

variable (index : HierarchicalNSW D) (query : List D)

/-- The orders in which a search from `entry` may pop the base layer. -/
abbrev BaseOrder (entry : Nat) (popped : List Nat) : Prop :=
  Order index.getLinklist0 (index.dist query) entry popped

/-- The marks are `region` and the queue holds exactly the elements of `queued`. -/
structure Tracks (state : VisitedList × CandidateSet Q D) (region queued : Finset Nat) :
    Prop where
  visited : ∀ id, state.1.Visited id ↔ id ∈ region
  queue : elems state.2 = queued.val.map (index.candidate query)

theorem Tracks.foldl_visitNeighbor {index : HierarchicalNSW D} {query : List D}
    (links : List Nat) {state : VisitedList × CandidateSet Q D} {region queued : Finset Nat}
    (htracks : index.Tracks query state region queued) (hsub : queued ⊆ region) :
    index.Tracks query (links.foldl (index.visitNeighbor query) state)
      (region ∪ links.toFinset) (queued ∪ (links.toFinset \ region)) := by
  refine (foldl_expand (motive := fun state region queued =>
    index.Tracks query state region queued ∧ queued ⊆ region) links ?_ ?_ ⟨htracks, hsub⟩).1
  · rintro state region queued link _ hmem ⟨htracks, hsub⟩
    rw [visitNeighbor, if_pos ((htracks.visited link).mpr hmem)]
    exact ⟨htracks, hsub⟩
  · rintro state region queued link _ hnot ⟨htracks, hsub⟩
    rw [visitNeighbor, if_neg fun hvisited => hnot ((htracks.visited link).mp hvisited)]
    refine ⟨⟨fun other => ?_, ?_⟩, Finset.insert_subset_insert link hsub⟩
    · rw [VisitedList.mark_visited, htracks.visited, Finset.mem_insert]
    · rw [elems_push, htracks.queue, Finset.insert_val_of_notMem (fun hmem => hnot (hsub hmem)),
        Multiset.map_cons]

/-- The loop state after `popped`. Before the first pop the entry is queued but not
marked; from then on the marks are what the order has seen. -/
structure Explores (entry : Nat) (search : Search Q D) (popped : List Nat) : Prop where
  order : index.BaseOrder query entry popped
  queue : elems search.candidateSet =
    (frontier index.getLinklist0 entry popped).val.map (index.candidate query)
  visited : (∀ id, search.vl.Visited id ↔ id ∈ seen index.getLinklist0 entry popped) ∨
    (popped = [] ∧ ∀ id, ¬ search.vl.Visited id)

theorem Explores.top_eq {index : HierarchicalNSW D} {query : List D} {entry : Nat}
    {search : Search Q D} {popped : List Nat} (hexp : index.Explores query entry search popped)
    {current : Dᵒᵈ × Nat} (htop : top search.candidateSet = some current) :
    current.2 ∈ frontier index.getLinklist0 entry popped ∧
      current = index.candidate query current.2 := by
  have hmem := mem_of_top htop
  rw [hexp.queue, Multiset.mem_map] at hmem
  obtain ⟨node, hnode, rfl⟩ := hmem
  exact ⟨hnode, rfl⟩

/-- The popped candidate is as close as every queued one. -/
theorem Explores.top_le {index : HierarchicalNSW D} {query : List D} {entry : Nat}
    {search : Search Q D} {popped : List Nat} (hexp : index.Explores query entry search popped)
    {current : Dᵒᵈ × Nat} (htop : top search.candidateSet = some current) :
    ∀ other ∈ frontier index.getLinklist0 entry popped,
      index.dist query current.2 ≤ index.dist query other := by
  intro other hother
  have hmem : index.candidate query other ∈ elems search.candidateSet := by
    rw [hexp.queue]
    exact Multiset.mem_map_of_mem _ hother
  have hle := le_top search.candidateSet current _ htop hmem
  rw [(hexp.top_eq htop).2] at hle
  exact hle

theorem Explores.tracks {index : HierarchicalNSW D} {query : List D} {entry : Nat}
    {search : Search Q D} {popped : List Nat} (hexp : index.Explores query entry search popped)
    {current : Dᵒᵈ × Nat} (htop : top search.candidateSet = some current) :
    index.Tracks query (search.vl.mark current.2, pop search.candidateSet)
      (seen index.getLinklist0 entry popped)
      ((frontier index.getLinklist0 entry popped).erase current.2) := by
  obtain ⟨hnode, hcurrent⟩ := hexp.top_eq htop
  constructor
  · intro id
    rw [VisitedList.mark_visited]
    rcases hexp.visited with hvisited | ⟨rfl, hblank⟩
    · rw [hvisited]
      constructor
      · rintro (rfl | hmem)
        · exact (mem_frontier.mp hnode).1
        · exact hmem
      · exact Or.inr
    · -- the first pop marks the entry, the only element seen so far
      rw [frontier_nil, Finset.mem_singleton] at hnode
      simp only [hblank, or_false, seen_nil, Finset.mem_singleton, hnode]
  · have helems := elems_of_top_some search.candidateSet current htop
    rw [hexp.queue, ← Finset.insert_erase hnode,
      Finset.insert_val_of_notMem (Finset.notMem_erase _ _), Multiset.map_cons,
      hcurrent] at helems
    exact ((Multiset.cons_inj_right _).mp helems).symm

/-- One turn of the loop is one pop of the order. -/
theorem Explores.step {index : HierarchicalNSW D} {query : List D} {entry : Nat}
    {search after : Search Q D} {popped : List Nat}
    (hexp : index.Explores query entry search popped)
    (hstep : index.iterativeStep query search = some after) :
    ∃ node, top search.candidateSet = some (index.candidate query node) ∧
      index.Explores query entry after (popped ++ [node]) ∧
      after.queryResult = if index.reports node then
        some (index.getExternalLabel node, index.dist query node) else none := by
  unfold iterativeStep at hstep
  split at hstep
  · simp at hstep
  split at hstep
  · simp at hstep
  next current htop =>
    obtain rfl := Option.some.inj hstep
    obtain ⟨hnode, hcurrent⟩ := hexp.top_eq htop
    have htracks := (hexp.tracks htop).foldl_visitNeighbor (index.getLinklist0 current.2) (by
      intro other hother
      exact (mem_frontier.mp (Finset.mem_of_mem_erase hother)).1)
    refine ⟨current.2, by rw [htop, ← hcurrent], ⟨?_, ?_, ?_⟩, rfl⟩
    · exact hexp.order.pop hnode (hexp.top_le htop)
    · rw [hexp.order.frontier_concat hnode]
      exact htracks.queue
    · refine Or.inl (fun id => ?_)
      rw [seen_concat]
      exact htracks.visited id

/-- `later` is a loop state that the loop passes through from `search`. -/
def Turns (search later : Search Q D) : Prop :=
  Relation.ReflTransGen (fun before after => index.iterativeStep query before = some after)
    search later

/-- `node` is popped at `later` and is as close as everything queued there. -/
structure PopsLeast (later : Search Q D) (node : Nat) : Prop where
  top : top later.candidateSet = some (index.candidate query node)
  least : ∀ queued ∈ elems later.candidateSet,
    index.dist query node ≤ OrderDual.ofDual queued.1

/-- What a search reports about a node. -/
def report (node : Nat) : UInt64 × D := (index.getExternalLabel node, index.dist query node)

theorem iterativeStep_of_result {search : Search Q D} (hresult : search.queryResult.isSome) :
    index.iterativeStep query search = none := by
  simp [iterativeStep, hresult]

theorem iterativeStep_none {search : Search Q D} (hresult : search.queryResult = none)
    (hstep : index.iterativeStep query search = none) : top search.candidateSet = none := by
  unfold iterativeStep at hstep
  rw [hresult] at hstep
  cases htop : PriorityQueue.top search.candidateSet with
  | none => rfl
  | some current => simp [htop] at hstep

theorem Explores.frontier_eq_empty {index : HierarchicalNSW D} {query : List D} {entry : Nat}
    {search : Search Q D} {popped : List Nat} (hexp : index.Explores query entry search popped)
    (htop : top search.candidateSet = none) :
    frontier index.getLinklist0 entry popped = ∅ := by
  have hempty := elems_of_top_none search.candidateSet htop
  rw [hexp.queue, Multiset.map_eq_zero] at hempty
  exact Finset.val_eq_zero.mp hempty

theorem popsLeast_of_top {search : Search Q D} {node : Nat}
    (htop : top search.candidateSet = some (index.candidate query node)) :
    index.PopsLeast query search node :=
  ⟨htop, fun queued hqueued => le_top search.candidateSet _ queued htop hqueued⟩

/-- What one search call does to the order: it pops nodes that it does not report, and
then either one that it does, or nothing is left. -/
structure Advances (entry : Nat) (start final : Search Q D) (popped skipped : List Nat)
    (reported : Option Nat) : Prop where
  skipped_not : ∀ id ∈ skipped, index.reports id = false
  reported_yes : ∀ id ∈ reported, index.reports id = true
  explores : index.Explores query entry final (popped ++ skipped ++ reported.toList)
  result : final.queryResult = reported.map (index.report query)
  exhausted : reported = none → frontier index.getLinklist0 entry (popped ++ skipped) = ∅
  least : ∀ id ∈ reported, ∃ later, index.Turns query start later ∧
    index.PopsLeast query later id

theorem Explores.advances {index : HierarchicalNSW D} {query : List D} {entry : Nat}
    (search : Search Q D) :
    ∀ popped, index.Explores query entry search popped → search.queryResult = none →
      ∃ skipped reported, index.Advances query entry search
        (index.searchBaseLayerSTIterative query search) popped skipped reported := by
  refine Loop.run_induction (index.iterativeStep_decreases query) (motive := fun search =>
    ∀ popped, index.Explores query entry search popped → search.queryResult = none →
      ∃ skipped reported, index.Advances query entry search
        (index.searchBaseLayerSTIterative query search) popped skipped reported) ?_ ?_ search
  · intro search hstop popped hexp hresult
    rw [searchBaseLayerSTIterative, Loop.run_of_none hstop]
    refine ⟨[], none, by simp, by simp, by simpa using hexp, hresult, ?_, by simp⟩
    intro _
    simpa using hexp.frontier_eq_empty (index.iterativeStep_none query hresult hstop)
  · intro search after hstep ih popped hexp hresult
    obtain ⟨node, htop, hafter, hreport⟩ := hexp.step hstep
    rw [searchBaseLayerSTIterative, Loop.run_of_some (index.iterativeStep_decreases query) hstep]
    cases hreports : index.reports node with
    | true =>
        -- the result ends the loop
        rw [hreports, if_pos rfl] at hreport
        rw [Loop.run_of_none (index.iterativeStep_of_result query (by rw [hreport]; rfl))]
        refine ⟨[], some node, by simp, by simpa using hreports, by simpa using hafter,
          hreport, by simp, ?_⟩
        intro id hid
        obtain rfl := Option.some.inj hid
        exact ⟨search, Relation.ReflTransGen.refl, index.popsLeast_of_top query htop⟩
    | false =>
        -- a deleted element is expanded but not reported, and the loop goes on
        rw [hreports] at hreport
        obtain ⟨skipped, reported, hadv⟩ := ih (popped ++ [node]) hafter (by simpa using hreport)
        have hsplit : popped ++ node :: skipped = popped ++ [node] ++ skipped := by simp
        refine ⟨node :: skipped, reported, ?_, hadv.reported_yes, ?_, hadv.result, ?_, ?_⟩
        · intro id hid
          rcases List.mem_cons.mp hid with rfl | hmem
          · exact hreports
          · exact hadv.skipped_not id hmem
        · rw [hsplit]
          exact hadv.explores
        · rw [hsplit]
          exact hadv.exhausted
        · intro id hid
          obtain ⟨later, hturns, hleast⟩ := hadv.least id hid
          exact ⟨later, hturns.head hstep, hleast⟩

omit [LinearOrder D] in
theorem reachable_lt {entry id : Nat} (hentry : entry < index.curElementCount)
    (hreach : index.Reachable entry id) : id < index.curElementCount := by
  induction hreach with
  | refl => exact hentry
  | tail _ hedge _ => exact index.linklist0_lt _ _ hedge

theorem BaseOrder.length_le {index : HierarchicalNSW D} {query : List D} {entry : Nat}
    {popped : List Nat} (horder : index.BaseOrder query entry popped)
    (hentry : entry < index.curElementCount) : popped.length ≤ index.curElementCount := by
  rw [← List.toFinset_card_of_nodup horder.nodup, ← Finset.card_range index.curElementCount]
  apply Finset.card_le_card
  intro id hid
  exact Finset.mem_range.mpr
    (index.reachable_lt hentry (horder.reachable (horder.subset_seen hid)))

end HierarchicalNSW

end VBase.Hnsw
