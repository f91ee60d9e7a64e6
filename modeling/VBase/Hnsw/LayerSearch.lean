import VBase.Hnsw.Construction

/-! # What the search of a level finds

`searchBaseLayer` runs on a graph that is still being built. It needs to know of a level
only that its links do not leave it. It then finds different elements of the level that
are not deleted, each of them the entry or linked by another element. The walk down the
levels above ends at an element of the lowest of them.
-/

namespace VBase.Hnsw.Graph

open PriorityQueue

variable {Q : {T K : Type} → [LinearOrder K] → (T → K) → Type} [PriorityQueue Q]
variable {D : Type}

/-- An element that has a level. -/
def At (graph : Graph D) (level id : Nat) : Prop :=
  id < graph.curElementCount ∧ level ≤ graph.elementLevels id

/-- The links of a level do not leave it. -/
def Closed (graph : Graph D) (level : Nat) : Prop :=
  ∀ id, graph.At level id → ∀ link ∈ graph.links id level, graph.At level link

/-- The entry of a search, or an element that is linked on its level. -/
def Arrived (graph : Graph D) (level entry id : Nat) : Prop :=
  graph.At level id ∧
    (id = entry ∨ ∃ source, graph.At level source ∧ id ∈ graph.links source level)

theorem Closed.arrived {graph : Graph D} {level entry source link : Nat}
    (hclosed : graph.Closed level) (hsource : graph.At level source)
    (hlink : link ∈ graph.links source level) : graph.Arrived level entry link :=
  ⟨hclosed source hsource link hlink, Or.inr ⟨source, hsource, hlink⟩⟩

variable [LinearOrder D]

/-- What a search has found: different elements with their distances, at most
`ef_construction_` and none of them deleted. -/
structure Found (graph : Graph D) (query : List D) (level entry : Nat)
    (topCandidates : Q (Prod.fst : D × Nat → D)) : Prop where
  arrived : ∀ found ∈ elems topCandidates, graph.Arrived level entry found.2
  neighbor : ∀ found ∈ elems topCandidates, found = graph.neighbor query found.2
  undeleted : ∀ found ∈ elems topCandidates, graph.isMarkedDeleted found.2 = false
  nodup : ((elems topCandidates).map Prod.snd).Nodup
  size_le : size topCandidates ≤ graph.efConstruction

/-- The state of the loop. Every marked element has arrived, and what was found is marked. -/
structure Searching (graph : Graph D) (query : List D) (level entry : Nat)
    (search : KnnSearch Q D) : Prop where
  found : graph.Found query level entry search.topCandidates
  marked : ∀ found ∈ elems search.topCandidates, search.vl.Visited found.2
  queued : ∀ current ∈ elems search.candidateSet, graph.At level current.2
  some_found : graph.isMarkedDeleted entry = false → 0 < size search.topCandidates
  current : search.vl.Current

section

variable {graph : Graph D} {query : List D} {level entry : Nat} {search : KnnSearch Q D}

theorem found_empty : graph.Found query level entry
    (PriorityQueue.empty : Q (Prod.fst : D × Nat → D)) where
  arrived := by simp
  neighbor := by simp
  undeleted := by simp
  nodup := by simp
  size_le := by simp

/-- What is left of a finding after some was dropped. -/
theorem Found.of_le {topCandidates fewer : Q (Prod.fst : D × Nat → D)}
    (hfound : graph.Found query level entry topCandidates)
    (hle : elems fewer ≤ elems topCandidates) : graph.Found query level entry fewer where
  arrived := fun found hmem => hfound.arrived found (Multiset.mem_of_le hle hmem)
  neighbor := fun found hmem => hfound.neighbor found (Multiset.mem_of_le hle hmem)
  undeleted := fun found hmem => hfound.undeleted found (Multiset.mem_of_le hle hmem)
  nodup := Multiset.nodup_of_le (Multiset.map_le_map hle) hfound.nodup
  size_le := (Multiset.card_le_card hle).trans hfound.size_le

/-- An element is offered when it is seen for the first time. -/
theorem Found.offer {topCandidates : Q (Prod.fst : D × Nat → D)}
    (hfound : graph.Found query level entry topCandidates) {id : Nat}
    (hid : graph.Arrived level entry id) (hnew : ∀ found ∈ elems topCandidates, found.2 ≠ id) :
    graph.Found query level entry (graph.offer query topCandidates id) := by
  unfold Graph.offer
  cases hdeleted : graph.isMarkedDeleted id with
  | true =>
      simp only [if_true]
      exact hfound.of_le (elems_trim_le _ _)
  | false =>
      simp only [Bool.false_eq_true, if_false]
      generalize hoffered : push topCandidates (graph.neighbor query id) = offered
      have helems : elems offered = graph.neighbor query id ::ₘ elems topCandidates := by
        rw [← hoffered, elems_push]
      have hle := elems_trim_le graph.efConstruction offered
      have hmem : ∀ found ∈ elems (if graph.efConstruction < size offered then pop offered
          else offered), found = graph.neighbor query id ∨ found ∈ elems topCandidates := by
        intro found hmem
        exact Multiset.mem_cons.mp (helems ▸ Multiset.mem_of_le hle hmem)
      refine ⟨?_, ?_, ?_, ?_, ?_⟩
      · intro found hmem'
        rcases hmem found hmem' with rfl | hold
        · exact hid
        · exact hfound.arrived found hold
      · intro found hmem'
        rcases hmem found hmem' with rfl | hold
        · rfl
        · exact hfound.neighbor found hold
      · intro found hmem'
        rcases hmem found hmem' with rfl | hold
        · exact hdeleted
        · exact hfound.undeleted found hold
      · refine Multiset.nodup_of_le (Multiset.map_le_map hle) ?_
        rw [helems, Multiset.map_cons, Multiset.nodup_cons]
        refine ⟨?_, hfound.nodup⟩
        intro hold
        obtain ⟨found, hmem', heq⟩ := Multiset.mem_map.mp hold
        exact hnew found hmem' heq
      · have hsize : size offered = size topCandidates + 1 := by rw [← hoffered, size_push]
        have hroom := hfound.size_le
        rw [size_trim _ (by omega)]
        exact Nat.min_le_left _ _

theorem mem_offer {topCandidates : Q (Prod.fst : D × Nat → D)} {id : Nat} {found : D × Nat}
    (hmem : found ∈ elems (graph.offer query topCandidates id)) :
    found.2 = id ∨ found ∈ elems topCandidates := by
  have hoffered := Multiset.mem_of_le (elems_trim_le _ _) hmem
  split at hoffered
  · exact Or.inr hoffered
  · rw [elems_push] at hoffered
    rcases Multiset.mem_cons.mp hoffered with rfl | hold
    · exact Or.inl rfl
    · exact Or.inr hold

theorem size_offer_pos {topCandidates : Q (Prod.fst : D × Nat → D)}
    (hef : 0 < graph.efConstruction) (hroom : size topCandidates ≤ graph.efConstruction)
    (hsome : 0 < size topCandidates) (id : Nat) :
    0 < size (graph.offer query topCandidates id) := by
  unfold Graph.offer
  generalize hoffered : (if graph.isMarkedDeleted id then topCandidates
    else push topCandidates (graph.neighbor query id)) = offered
  have hsize : size topCandidates ≤ size offered ∧ size offered ≤ size topCandidates + 1 := by
    rw [← hoffered]
    split
    · omega
    · rw [size_push]
      omega
  change 0 < size (if graph.efConstruction < size offered then pop offered else offered)
  rw [size_trim _ (by omega)]
  omega

variable (query) in
theorem searchStart_searching (hef : 0 < graph.efConstruction) {vl : VisitedList}
    (hvl : vl.Current) (hentry : graph.At level entry) :
    graph.Searching query level entry (graph.searchStart query vl entry : KnnSearch Q D) := by
  unfold searchStart
  cases hdeleted : graph.isMarkedDeleted entry with
  | true =>
      rw [if_pos rfl]
      refine ⟨found_empty, by simp, ?_, by simp [hdeleted], VisitedList.mark_current hvl entry⟩
      simpa using hentry
  | false =>
      rw [if_neg (by decide)]
      have hpushed : ∀ found ∈ elems (push (PriorityQueue.empty : Q (Prod.fst : D × Nat → D))
          (graph.neighbor query entry)), found = graph.neighbor query entry := by simp
      refine ⟨⟨?_, ?_, ?_, by simp, by simpa using Nat.succ_le_of_lt hef⟩, ?_, ?_, by simp,
        VisitedList.mark_current hvl entry⟩
      · intro found hmem
        rw [hpushed found hmem]
        exact ⟨hentry, Or.inl rfl⟩
      · intro found hmem
        rw [hpushed found hmem]
        rfl
      · intro found hmem
        rw [hpushed found hmem]
        exact hdeleted
      · intro found hmem
        rw [hpushed found hmem]
        exact VisitedList.mark_visited.mpr (Or.inl rfl)
      · simpa [candidate] using hentry

/-- A visited element is marked, queued or not, and what was found stays found or drops out. -/
theorem Searching.visit (hsearching : graph.Searching query level entry search)
    (hef : 0 < graph.efConstruction) {id : Nat} (hid : graph.Arrived level entry id) :
    graph.Searching query level entry (graph.searchVisit query search id) := by
  have hmarked : ∀ found ∈ elems search.topCandidates, (search.vl.mark id).Visited found.2 :=
    fun found hmem => VisitedList.mark_visited.mpr (Or.inr (hsearching.marked found hmem))
  have hcurrent := VisitedList.mark_current hsearching.current id
  unfold searchVisit
  split
  · exact hsearching
  next hvisited =>
    split
    · have hnew : ∀ found ∈ elems search.topCandidates, found.2 ≠ id :=
        fun found hmem heq => hvisited (heq ▸ hsearching.marked found hmem)
      refine ⟨hsearching.found.offer hid hnew, ?_, ?_, ?_, hcurrent⟩
      · intro found hmem
        rcases mem_offer hmem with rfl | hold
        · exact VisitedList.mark_visited.mpr (Or.inl rfl)
        · exact hmarked found hold
      · intro current hmem
        rw [elems_push] at hmem
        rcases Multiset.mem_cons.mp hmem with rfl | hold
        · exact hid.1
        · exact hsearching.queued current hold
      · intro hdeleted
        exact size_offer_pos hef hsearching.found.size_le (hsearching.some_found hdeleted) id
    · exact ⟨hsearching.found, hmarked, hsearching.queued, hsearching.some_found, hcurrent⟩

theorem Searching.visitAll (hsearching : graph.Searching query level entry search)
    (hef : 0 < graph.efConstruction) {links : List Nat}
    (hlinks : ∀ link ∈ links, graph.Arrived level entry link) :
    graph.Searching query level entry (links.foldl (graph.searchVisit query) search) := by
  induction links generalizing search with
  | nil => exact hsearching
  | cons link rest ih =>
      rw [List.foldl_cons]
      exact ih (hsearching.visit hef (hlinks link List.mem_cons_self))
        fun other hother => hlinks other (List.mem_cons_of_mem _ hother)

/-! ## Termination -/

omit [PriorityQueue Q] [LinearOrder D] in
theorem unmarked_card_lt {vl : VisitedList} {id : Nat} (hid : id < graph.curElementCount)
    (hvl : ¬ vl.Visited id) :
    ((Finset.range graph.curElementCount).filter fun other => ¬ (vl.mark id).Visited other).card <
      ((Finset.range graph.curElementCount).filter fun other => ¬ vl.Visited other).card := by
  apply Finset.card_lt_card
  rw [Finset.ssubset_iff_of_subset]
  · refine ⟨id, Finset.mem_filter.mpr ⟨Finset.mem_range.mpr hid, hvl⟩, ?_⟩
    simp [VisitedList.mark_visited]
  · intro other hother
    obtain ⟨hrange, hnot⟩ := Finset.mem_filter.mp hother
    exact Finset.mem_filter.mpr
      ⟨hrange, fun hvisited => hnot (VisitedList.mark_visited.mpr (Or.inr hvisited))⟩

theorem searchVisit_pending (search : KnnSearch Q D) {id : Nat}
    (hid : id < graph.curElementCount) :
    graph.searchPending (graph.searchVisit query search id) ≤ graph.searchPending search := by
  unfold searchVisit
  split
  · exact le_rfl
  next hvl =>
    have hlt := unmarked_card_lt hid hvl
    split
    · simp only [searchPending, size_push]
      omega
    · simp only [searchPending]
      omega

theorem foldl_searchVisit_pending {links : List Nat}
    (hlinks : ∀ link ∈ links, link < graph.curElementCount) (search : KnnSearch Q D) :
    graph.searchPending (links.foldl (graph.searchVisit query) search) ≤
      graph.searchPending search := by
  induction links generalizing search with
  | nil => exact le_rfl
  | cons link rest ih =>
      rw [List.foldl_cons]
      exact (ih (fun other hother => hlinks other (List.mem_cons_of_mem _ hother)) _).trans
        (searchVisit_pending search (hlinks link List.mem_cons_self))

/-- One turn of the loop keeps its state sound and uses up some of what is pending. -/
theorem Searching.step (hsearching : graph.Searching query level entry search)
    (hef : 0 < graph.efConstruction) (hclosed : graph.Closed level) {after : KnnSearch Q D}
    (hstep : graph.searchStep query level search = some after) :
    graph.Searching query level entry after ∧
      graph.searchPending after < graph.searchPending search := by
  unfold searchStep at hstep
  split at hstep
  · cases hstep
  next current htop =>
    split at hstep
    · cases hstep
    · obtain rfl := Option.some.inj hstep
      have hcurrent := hsearching.queued current (mem_of_top htop)
      have hlinks : ∀ link ∈ graph.links current.2 level, graph.Arrived level entry link :=
        fun link hlink => hclosed.arrived hcurrent hlink
      have hpopped : graph.Searching query level entry
          { search with candidateSet := pop search.candidateSet } := by
        refine ⟨hsearching.found, hsearching.marked, ?_, hsearching.some_found,
          hsearching.current⟩
        intro other hother
        refine hsearching.queued other ?_
        rw [elems_of_top_some _ current htop]
        exact Multiset.mem_cons_of_mem hother
      refine ⟨hpopped.visitAll hef hlinks, ?_⟩
      refine (foldl_searchVisit_pending (fun link hlink => (hlinks link hlink).1.1) _).trans_lt ?_
      have hsize := size_pop htop
      simp only [searchPending]
      omega

end

/-- What a search of a level returns. It finds something unless it starts at a deleted element,
and its visited list is back in the pool. -/
theorem searchBaseLayer_found {graph : Graph D} {level entry : Nat}
    (hef : 0 < graph.efConstruction) (hclosed : graph.Closed level)
    (hentry : graph.At level entry) (query : List D)
    (hpool : graph.visitedListPool.Sound ∅) :
    graph.Found query level entry (graph.searchBaseLayer entry query level : Q _ × _).1 ∧
      (graph.isMarkedDeleted entry = false →
        0 < size (graph.searchBaseLayer entry query level : Q _ × _).1) ∧
      (graph.searchBaseLayer entry query level : Q (Prod.fst : D × Nat → D) × _).2.Sound ∅ := by
  obtain ⟨hsound, -, -, -⟩ := hpool.getFreeVisitedList
  unfold searchBaseLayer
  generalize graph.visitedListPool.getFreeVisitedList = taken at hsound
  obtain ⟨address, lists⟩ := taken
  have hheld : address ∈ insert address (∅ : Set Nat) := Set.mem_insert _ _
  have hstart : graph.Searching query level entry
      (graph.searchStart query (lists.memory address) entry : KnnSearch Q D) :=
    searchStart_searching query hef (hsound.current address (Or.inr hheld)) hentry
  have hround : ∀ before after : KnnSearch Q D, graph.Searching query level entry before →
      graph.searchStep query level before = some after → graph.Searching query level entry after ∧
        graph.searchPending after < graph.searchPending before :=
    fun _ _ hsearching hstep => hsearching.step hef hclosed hstep
  have hfinal := (Loop.run_in_region hround hstart).1
  refine ⟨hfinal.found, hfinal.some_found, ?_⟩
  have hreleased := (hsound.store address hfinal.current).releaseVisitedList hheld
  rwa [Set.insert_sdiff_self_of_notMem (Set.notMem_empty _)] at hreleased

/-! ## The walk down the levels -/

section

variable {graph : Graph D} {level : Nat} (query : List D) (checked : Bool)

/-- A pass over links of elements does not throw. It leaves the walk alone or moves it strictly
closer, to a link. -/
theorem foldlM_visitLink {links : List Nat} (hlinks : ∀ link ∈ links, link ≤ graph.maxElements)
    (walk : HierarchicalNSW.Walk D × Bool) :
    ∃ moved, links.foldlM (graph.visitLink query checked) walk = Except.ok moved ∧
      (moved = walk ∨ moved.1.curdist < walk.1.curdist ∧
        ∃ link ∈ links, moved.1 = ⟨graph.dist query link, link⟩) := by
  induction links generalizing walk with
  | nil => exact ⟨walk, rfl, Or.inl rfl⟩
  | cons link rest ih =>
      have hcheck : ¬ (checked = true ∧ graph.maxElements < link) :=
        fun hfar => absurd (hlinks link List.mem_cons_self) (not_le.mpr hfar.2)
      have hrest : ∀ other ∈ rest, other ≤ graph.maxElements :=
        fun other hother => hlinks other (List.mem_cons_of_mem _ hother)
      rw [List.foldlM_cons, visitLink, if_neg hcheck]
      split
      next hcloser =>
        obtain ⟨moved, hpass, hmoved⟩ := ih hrest (⟨graph.dist query link, link⟩, true)
        refine ⟨moved, hpass, Or.inr ?_⟩
        rcases hmoved with rfl | ⟨hlt, other, hother, heq⟩
        · exact ⟨hcloser, link, List.mem_cons_self, rfl⟩
        · exact ⟨hlt.trans hcloser, other, List.mem_cons_of_mem _ hother, heq⟩
      next =>
        obtain ⟨moved, hpass, hmoved⟩ := ih hrest walk
        refine ⟨moved, hpass, hmoved.imp_right ?_⟩
        rintro ⟨hlt, other, hother, heq⟩
        exact ⟨hlt, other, List.mem_cons_of_mem _ hother, heq⟩

/-- A turn of the walk goes along a link, and fewer elements are closer then. -/
theorem descendStep_some (hcount : graph.curElementCount ≤ graph.maxElements)
    (hclosed : graph.Closed level) {walk : HierarchicalNSW.Walk D}
    (hwalk : graph.At level walk.currObj) {next : Except BuildError (HierarchicalNSW.Walk D)}
    (hstep : graph.descendStep query checked level (Except.ok walk) = some next) :
    (∃ moved, next = Except.ok moved ∧ graph.At level moved.currObj) ∧
      graph.closerCount query next < graph.closerCount query (Except.ok walk) := by
  have hlinks := hclosed walk.currObj hwalk
  obtain ⟨⟨moved, changed⟩, hpass, hmoved⟩ := foldlM_visitLink query checked
    (fun link hlink => ((hlinks link hlink).1.trans_le hcount).le) (walk, false)
  simp only [descendStep, hpass, Option.ite_none_right_eq_some, Option.some.injEq] at hstep
  obtain ⟨hchanged, rfl⟩ := hstep
  rcases hmoved with hsame | ⟨hlt, link, hlink, heq⟩
  · simp [hchanged] at hsame
  · simp only at hlt heq
    subst heq
    refine ⟨⟨_, rfl, hlinks link hlink⟩, Nat.succ_lt_succ (Finset.card_lt_card ?_)⟩
    rw [Finset.ssubset_iff_of_subset]
    · refine ⟨link, Finset.mem_filter.mpr ⟨Finset.mem_range.mpr (hlinks link hlink).1, hlt⟩, ?_⟩
      simp
    · intro id hid
      obtain ⟨hrange, hcloser⟩ := Finset.mem_filter.mp hid
      exact Finset.mem_filter.mpr ⟨hrange, hcloser.trans hlt⟩

theorem descendLevel_ok (hcount : graph.curElementCount ≤ graph.maxElements)
    (hclosed : graph.Closed level) {walk : HierarchicalNSW.Walk D}
    (hwalk : graph.At level walk.currObj) :
    ∃ final, graph.descendLevel query checked walk level = Except.ok final ∧
      graph.At level final.currObj := by
  have hround : ∀ before after : Except BuildError (HierarchicalNSW.Walk D),
      (∃ walk, before = Except.ok walk ∧ graph.At level walk.currObj) →
      graph.descendStep query checked level before = some after →
      (∃ walk, after = Except.ok walk ∧ graph.At level walk.currObj) ∧
        graph.closerCount query after < graph.closerCount query before := by
    rintro _ after ⟨walk, rfl, hwalk⟩ hstep
    exact descendStep_some query checked hcount hclosed hwalk hstep
  exact (Loop.run_in_region hround ⟨walk, rfl, hwalk⟩).1

/-- The walk ends at an element of every level it has come down. -/
theorem descendTo_ok (hcount : graph.curElementCount ≤ graph.maxElements)
    (hclosed : ∀ level, graph.Closed level) {entry lower upper : Nat} (hlevels : lower < upper)
    (hentry : graph.At upper entry) :
    ∃ id, graph.descendTo query checked entry lower upper = Except.ok id ∧
      graph.At (lower + 1) id := by
  suffices hpass : ∀ count walk, graph.At (lower + count) walk.currObj → 0 < count →
      ∃ final, (List.range' (lower + 1) count).reverse.foldlM (graph.descendLevel query checked)
        walk = Except.ok final ∧ graph.At (lower + 1) final.currObj by
    obtain ⟨final, hfinal, hat⟩ := hpass (upper - lower) ⟨graph.dist query entry, entry⟩
      (by rwa [Nat.add_sub_cancel' hlevels.le]) (by omega)
    exact ⟨final.currObj, by rw [descendTo, levelsAbove, hfinal]; rfl, hat⟩
  intro count
  induction count with
  | zero => intro _ _ hpos; omega
  | succ count ih =>
      intro walk hwalk _
      obtain ⟨final, hfinal, hat⟩ := descendLevel_ok query checked hcount
        (hclosed (lower + (count + 1))) hwalk
      have hsplit : (List.range' (lower + 1) (count + 1)).reverse =
          (lower + (count + 1)) :: (List.range' (lower + 1) count).reverse := by
        rw [List.range'_concat, List.reverse_append, List.reverse_singleton,
          List.singleton_append, Nat.one_mul, Nat.add_assoc, Nat.add_comm 1 count]
      rw [hsplit, List.foldlM_cons, hfinal]
      cases count with
      | zero => exact ⟨final, rfl, hat⟩
      | succ count => exact ih final ⟨hat.1, by have := hat.2; omega⟩ (Nat.succ_pos _)

end

end VBase.Hnsw.Graph
