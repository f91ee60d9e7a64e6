import VBase.Sptag.SearchSteps

/-! # The loops of a search

The loops of `InitSearchTrees`, `SearchTrees` and `SearchIterative` over the steps. When the
queue of the samples is empty after a round, the queue of the trees is empty as well, so
that nothing is left behind when the search ends.
-/

namespace VBase.Sptag

variable {S D : Type} [LinearOrder D]

/-- What the search of the trees changes in the account. -/
structure Advances (account after : Account) : Prop where
  taken_eq : after.taken = account.taken
  started_eq : after.started = account.started
  aside_eq : after.aside = account.aside
  expanded_subset : account.expanded ⊆ after.expanded

theorem Advances.refl (account : Account) : Advances account account :=
  ⟨rfl, rfl, rfl, subset_rfl⟩

theorem Advances.trans {account middle after : Account} (hfirst : Advances account middle)
    (hsecond : Advances middle after) : Advances account after :=
  ⟨hsecond.taken_eq.trans hfirst.taken_eq, hsecond.started_eq.trans hfirst.started_eq,
    hsecond.aside_eq.trans hfirst.aside_eq, hfirst.expanded_subset.trans hsecond.expanded_subset⟩

section Loops

variable {visited : VisitedSet S} {index : BKTIndex} {samples : Nat}
  {layout : index.Layout samples} {metric : Metric D} {searchDeleted : Bool}
  {holds : S → Finset Int → Prop} {account : Account} {space next : WorkSpace S D}
  {limits fuel : Nat}

/-! ## SearchTrees -/

/-- A round takes one node off and expands it. -/
theorem Progress.searchTreesStep (hlawful : visited.Lawful samples holds)
    (hprogress : Progress layout metric searchDeleted holds account space)
    (hsome : space.sptQueue.empty = false) {stop : Bool}
    (hstep : searchTreesStep visited index metric limits space = some (stop, next)) :
    ∃ after, Progress layout metric searchDeleted holds after next ∧ Advances account after ∧
      account.expanded.card < after.expanded.card ∧ Grows space next ∧
      (stop = true → limits ≤ next.numberOfCheckedLeaves) := by
  obtain ⟨hpopped, hdistance, hfresh⟩ := hprogress.popTree hsome
  rw [VBase.Sptag.searchTreesStep] at hstep
  generalize space.sptQueue.pop NodeDistPair.distance = popped at hpopped hdistance hfresh hstep
  obtain ⟨bcell, queue⟩ := popped
  dsimp only at hpopped hdistance hfresh hstep
  rw [hdistance] at hstep
  have haside : bcell.node ∈ insert bcell.node account.aside := Finset.mem_insert_self _ _
  obtain ⟨hsample, howner⟩ := hpopped.center_mem haside
  have hcenter : index.center bcell.node ∈ insert (index.center bcell.node) account.seen :=
    Finset.mem_insert_self _ _
  split at hstep
  next hleaf =>
    obtain ⟨middle, hvisit, hnext⟩ := Option.map_eq_some_iff.mp hstep
    obtain ⟨hvisited, hgrows, -⟩ := hpopped.visitLeaf hlawful hsample howner hvisit
    obtain ⟨hexpanded, -, hnew⟩ := hvisited.expand haside hcenter
    obtain ⟨hstop, rfl⟩ := Prod.mk.inj hnext
    refine ⟨_, hexpanded, ⟨rfl, rfl, ?_, Finset.subset_insert _ _⟩, ?_,
      ⟨hgrows.nodes_subset, hgrows.leaves_le, hgrows.nonempty⟩, ?_⟩
    · change (insert bcell.node account.aside).erase bcell.node ∪ newNodes index bcell.node =
        account.aside
      rw [newNodes, if_pos hleaf, Finset.union_empty, Finset.erase_insert hfresh]
    · rw [Finset.card_insert_of_notMem hnew]
      exact Nat.lt_succ_self _
    · intro htrue
      rw [htrue] at hstop
      exact of_decide_eq_true hstop
  next hinner =>
    obtain ⟨⟨new, middle⟩, hvisit, hnext⟩ := Option.map_eq_some_iff.mp hstep
    obtain ⟨hvisited, hsubset, -, hqueue, hleaves⟩ :=
      hpopped.visit hlawful hsample howner hvisit
    obtain ⟨hexpanded, hdisjoint, hnew⟩ := hvisited.expand haside hcenter
    have hchildren : newNodes index bcell.node = (index.children bcell.node).toFinset := by
      rw [newNodes, if_neg hinner]
    obtain ⟨rfl, rfl⟩ := Prod.mk.inj hnext
    have hpushed := hexpanded.pushAll (index.children_nodup bcell.node) (by
      intro below hbelow
      apply Finset.mem_union_right
      rw [hchildren]
      exact List.mem_toFinset.mpr hbelow)
    refine ⟨_, hpushed, ⟨rfl, rfl, ?_, Finset.subset_insert _ _⟩, ?_,
      ⟨hsubset, hleaves.ge, ?_⟩, ?_⟩
    · change ((insert bcell.node account.aside).erase bcell.node ∪ newNodes index bcell.node) \
        (index.children bcell.node).toFinset = account.aside
      rw [← hchildren, Finset.union_sdiff_right, Finset.erase_insert hfresh]
      change Disjoint _ ((insert bcell.node account.aside).erase bcell.node) at hdisjoint
      rw [Finset.erase_insert hfresh] at hdisjoint
      exact Finset.sdiff_eq_self_of_disjoint hdisjoint.symm
    · rw [Finset.card_insert_of_notMem hnew]
      exact Nat.lt_succ_self _
    · intro hlt
      change space.numberOfCheckedLeaves < middle.numberOfCheckedLeaves at hlt
      rw [hleaves] at hlt
      exact absurd hlt (lt_irrefl _)
    · intro htrue
      exact absurd htrue Bool.false_ne_true

/-- The loop ends when the trees are searched or enough leaves were new. -/
theorem Progress.searchTrees (hlawful : visited.Lawful samples holds)
    (hprogress : Progress layout metric searchDeleted holds account space)
    (hrun : searchTrees visited index metric limits fuel space = some next) :
    ∃ after, Progress layout metric searchDeleted holds after next ∧ Advances account after ∧
      Grows space next ∧
      (next.sptQueue.nodes = ∅ ∨ limits ≤ next.numberOfCheckedLeaves) := by
  induction fuel generalizing space account with
  | zero => cases hrun
  | succ fuel ih =>
      rw [VBase.Sptag.searchTrees] at hrun
      split at hrun
      next hempty =>
        obtain rfl := Option.some.inj hrun
        exact ⟨account, hprogress, Advances.refl account, Grows.refl space,
          Or.inl (Heap.empty_iff.mp hempty)⟩
      next hsome =>
        obtain ⟨⟨stop, middle⟩, hstep, hrest⟩ := Option.bind_eq_some_iff.mp hrun
        obtain ⟨between, hbetween, hadvances, -, hgrows, hstop⟩ :=
          hprogress.searchTreesStep hlawful (Bool.not_eq_true _ ▸ hsome) hstep
        cases stop with
        | true =>
            obtain rfl : middle = next := Option.some.inj hrest
            exact ⟨between, hbetween, hadvances, hgrows, Or.inr (hstop rfl)⟩
        | false =>
            obtain ⟨after, hafter, hmore, hgrows', hend⟩ := ih hbetween hrest
            exact ⟨after, hafter, hadvances.trans hmore, hgrows.trans hgrows', hend⟩

/-- After a search of the trees that had to find something, a sample waits or the trees are
searched. -/
theorem Progress.searchTrees_exhausts (hlawful : visited.Lawful samples holds)
    (hprogress : Progress layout metric searchDeleted holds account space)
    (hlimits : space.numberOfCheckedLeaves < limits)
    (hrun : VBase.Sptag.searchTrees visited index metric limits fuel space = some next) :
    ∃ after, Progress layout metric searchDeleted holds after next ∧ Advances account after ∧
      (next.ngQueue.nodes = ∅ → next.sptQueue.nodes = ∅) := by
  obtain ⟨after, hafter, hadvances, hgrows, hend⟩ := hprogress.searchTrees hlawful hrun
  refine ⟨after, hafter, hadvances, ?_⟩
  intro hempty
  rcases hend with hdone | hmany
  · exact hdone
  · have hnonempty := hgrows.nonempty (hlimits.trans_le hmany)
    rw [hempty] at hnonempty
    exact absurd hnonempty Finset.not_nonempty_empty

/-! ## SearchIterative -/

/-- New nodes come into a queue with room for all places. -/
theorem Heap.Lists.insertAll {value : Int → D} {limit : D} {queue : Heap (NodeDistPair D)}
    {places : Finset Int} {ids : List Int} (hlists : queue.Lists value limit)
    (hlength : places.card ≤ queue.length) (hnodes : queue.nodes ⊆ places)
    (hids : ∀ id ∈ ids, id ∈ places) (hnodup : ids.Nodup) (hnew : ∀ id ∈ ids, id ∉ queue.nodes) :
    (ids.foldl (fun queue id => queue.insert NodeDistPair.distance ⟨id, value id⟩)
        queue).Lists value limit ∧
      (ids.foldl (fun queue id => queue.insert NodeDistPair.distance ⟨id, value id⟩)
        queue).nodes = queue.nodes ∪ ids.toFinset ∧
      (ids.foldl (fun queue id => queue.insert NodeDistPair.distance ⟨id, value id⟩)
        queue).length = queue.length := by
  induction ids generalizing queue with
  | nil =>
      rw [List.toFinset_nil, Finset.union_empty]
      exact ⟨hlists, rfl, rfl⟩
  | cons id rest ih =>
      obtain ⟨hfresh, hrest⟩ := List.nodup_cons.mp hnodup
      have hid := hids id List.mem_cons_self
      have hout := hnew id List.mem_cons_self
      obtain ⟨hafter, hgrown, hsame⟩ :=
        hlists.insert (hlists.count_lt hnodes hid hout hlength) hout
      obtain ⟨hend, hall, hlast⟩ := ih hafter (hlength.trans hsame.ge)
        (by
          rw [hgrown]
          exact Finset.insert_subset hid hnodes)
        (fun other hother => hids other (List.mem_cons_of_mem id hother)) hrest
        (by
          intro other hother
          rw [hgrown, Finset.mem_insert, not_or]
          refine ⟨?_, hnew other (List.mem_cons_of_mem id hother)⟩
          rintro rfl
          exact hfresh hother)
      refine ⟨hend, ?_, hlast.trans hsame⟩
      rw [List.foldl_cons, hall, hgrown, List.toFinset_cons, Finset.insert_union,
        Finset.union_insert]

/-- A sample comes off its queue, and its duplicates come in. -/
theorem Progress.take (hprogress : Progress layout metric searchDeleted holds account space)
    (hsome : space.ngQueue.empty = false) :
    Progress layout metric searchDeleted holds
        { account with
          taken := insert (space.ngQueue.pop NodeDistPair.distance).1.node account.taken }
        { space with
          ngQueue := pushDuplicates index metric searchDeleted
            (space.ngQueue.pop NodeDistPair.distance).1.node
            (space.ngQueue.pop NodeDistPair.distance).2 } ∧
      (space.ngQueue.pop NodeDistPair.distance).1.node ∉ account.taken ∧
      (space.ngQueue.pop NodeDistPair.distance).1.node ∈ BKTIndex.sampleIds samples ∧
      (space.ngQueue.pop NodeDistPair.distance).1.distance =
        metric.distance (space.ngQueue.pop NodeDistPair.distance).1.node := by
  obtain ⟨hlists, hfresh, hnodes, hdistance, hlength⟩ := hprogress.ng.pop hsome
  generalize space.ngQueue.pop NodeDistPair.distance = popped at *
  obtain ⟨gnode, queue⟩ := popped
  dsimp only at hlists hfresh hnodes hdistance hlength ⊢
  have hwaits : gnode.node ∈ space.ngQueue.nodes := by
    rw [hnodes]
    exact Finset.mem_insert_self _ _
  have hgathered := hprogress.gathered
  have hsample := hgathered.sample gnode.node (Finset.mem_union_right _ hwaits)
  have hqueue : queue.nodes = space.ngQueue.nodes.erase gnode.node := by
    rw [hnodes, Finset.erase_insert hfresh]
  have hroom : (BKTIndex.sampleIds samples).card ≤ queue.length := by
    rw [BKTIndex.card_sampleIds, hlength]
    exact hprogress.ng_room
  have hold : queue.nodes ⊆ BKTIndex.sampleIds samples := by
    intro id hid
    rw [hqueue] at hid
    exact hgathered.sample id (Finset.mem_union_right _ (Finset.mem_of_mem_erase hid))
  have hids : ∀ id ∈ (index.duplicates gnode.node).filter (index.keeps searchDeleted),
      id ∈ BKTIndex.sampleIds samples ∧ id ∉ queue.nodes := by
    intro id hid
    have hduplicate := (List.mem_filter.mp hid).1
    refine ⟨(layout.duplicate_mem gnode.node hsample id hduplicate).1, ?_⟩
    intro hmem
    rw [hqueue] at hmem
    exact hgathered.duplicates_new hwaits hduplicate
      (Finset.mem_union_right _ (Finset.mem_of_mem_erase hmem))
  obtain ⟨hafter, hall, hsame⟩ := hlists.insertAll hroom hold (fun id hid => (hids id hid).1)
    ((layout.duplicates_nodup gnode.node hsample).filter _) fun id hid => (hids id hid).2
  refine ⟨⟨hprogress.status, hafter, ?_, hprogress.spt, hprogress.spt_room, ?_,
    hprogress.frontier, hprogress.aside_disjoint, hprogress.centers⟩, ?_, hsample, hdistance⟩
  · exact hprogress.ng_room.trans (hlength.ge.trans hsame.ge)
  · change Gathered layout searchDeleted account.seen (insert gnode.node account.taken)
      (pushDuplicates index metric searchDeleted gnode.node queue).nodes
    rw [pushDuplicates, hall, hqueue]
    exact hgathered.take hwaits
  · exact fun hmem => Finset.disjoint_left.mp hgathered.disjoint hmem hwaits

/-- The neighbors of a sample are checked. -/
theorem Progress.expandRow (hlawful : visited.Lawful samples holds)
    (hprogress : Progress layout metric searchDeleted holds account space) {ids : List Int}
    (hids : ∀ id ∈ ids, id ∈ BKTIndex.sampleIds samples ∧ layout.owner id = none)
    (hrun : ids.foldlM
      (fun space nn => VBase.Sptag.visitLeaf visited space ⟨nn, metric.distance nn⟩) space =
        some next) :
    ∃ seen, Progress layout metric searchDeleted holds { account with seen := seen } next := by
  induction ids generalizing space account with
  | nil =>
      obtain rfl := Option.some.inj hrun
      exact ⟨account.seen, hprogress⟩
  | cons id rest ih =>
      rw [List.foldlM_cons] at hrun
      obtain ⟨middle, hvisit, hrest⟩ := Option.bind_eq_some_iff.mp hrun
      obtain ⟨hsample, howner⟩ := hids id List.mem_cons_self
      obtain ⟨hmiddle, -, -⟩ := hprogress.visitLeaf hlawful hsample howner hvisit
      obtain ⟨seen, hseen⟩ :=
        ih hmiddle (fun other hother => hids other (List.mem_cons_of_mem id hother)) hrest
      exact ⟨seen, hseen⟩

/-- After `catchUp`, a sample waits or the trees are searched. -/
theorem Progress.catchUp (hlawful : visited.Lawful samples holds)
    (hpivots : 0 < index.otherDynamicPivots)
    (hnear : ∀ id ∈ BKTIndex.sampleIds samples, metric.distance id < metric.maxDist)
    (hprogress : Progress layout metric searchDeleted holds account space)
    (hrun : catchUp visited index metric fuel space = some next) :
    ∃ after, Progress layout metric searchDeleted holds after next ∧ Advances account after ∧
      (next.ngQueue.nodes = ∅ → next.sptQueue.nodes = ∅) := by
  rw [VBase.Sptag.catchUp] at hrun
  split at hrun
  next => exact hprogress.searchTrees_exhausts hlawful (by omega) hrun
  next hfar =>
    obtain rfl := Option.some.inj hrun
    refine ⟨account, hprogress, Advances.refl account, ?_⟩
    intro hempty
    -- An empty queue has `MaxDist` at the top, and every node of the trees is nearer.
    rcases hprogress.ng.top_distance with ⟨-, hlimit⟩ | ⟨id, hid, -⟩
    · rcases hprogress.spt.top_distance with ⟨hdone, -⟩ | ⟨node, hnode, htop⟩
      · exact hdone
      · rw [hlimit, htop] at hfar
        have htraversed := hprogress.frontier.traversed node
          (Finset.mem_union_right _ (Finset.mem_union_left _ hnode))
        exact absurd (hnear _ (layout.center_mem node htraversed).1) hfar
    · rw [hempty] at hid
      exact absurd hid (Finset.notMem_empty id)

theorem report_space (gnode : NodeDistPair D) (state : Iterating S D) :
    (report index searchDeleted gnode state).space = state.space := by
  rw [report]
  split <;> rfl

/-- A round takes one sample off, reports it unless it is deleted, and leaves the trees with
nothing if no sample waits. -/
theorem Progress.iterativeTurn (hlawful : visited.Lawful samples holds)
    (hpivots : 0 < index.otherDynamicPivots)
    (hnear : ∀ id ∈ BKTIndex.sampleIds samples, metric.distance id < metric.maxDist)
    {state after : Iterating S D}
    (hprogress : Progress layout metric searchDeleted holds account state.space)
    (hsome : state.space.ngQueue.empty = false)
    (hturn : iterativeTurn visited index metric searchDeleted fuel state = some after) :
    ∃ id ∈ BKTIndex.sampleIds samples, id ∉ account.taken ∧
      (∃ account', Progress layout metric searchDeleted holds account' after.space ∧
        Advances { account with taken := insert id account.taken } account' ∧
        (after.space.ngQueue.nodes = ∅ → after.space.sptQueue.nodes = ∅)) ∧
      (after.results, after.count) =
        if index.keeps searchDeleted id then
          ((state.results.addPoint id (metric.distance id)).2, state.count + 1)
        else (state.results, state.count) := by
  obtain ⟨htaken, hnew, hsample, hdistance⟩ := hprogress.take hsome
  rw [VBase.Sptag.iterativeTurn] at hturn
  generalize state.space.ngQueue.pop NodeDistPair.distance = popped at *
  obtain ⟨gnode, queue⟩ := popped
  dsimp only at htaken hnew hsample hdistance hturn
  obtain ⟨middle, hrow, hrest⟩ := Option.bind_eq_some_iff.mp hturn
  obtain ⟨last, hcatch, rfl⟩ := Option.map_eq_some_iff.mp hrest
  rw [report_space] at hrow
  obtain ⟨seen, hmiddle⟩ := htaken.expandRow hlawful (layout.neighbor_mem gnode.node hsample) hrow
  obtain ⟨account', hlast, hadvances, hdone⟩ := hmiddle.catchUp hlawful hpivots hnear hcatch
  refine ⟨gnode.node, hsample, hnew, ⟨account', hlast, ?_, hdone⟩, ?_⟩
  · exact ⟨hadvances.taken_eq, hadvances.started_eq, hadvances.aside_eq,
      hadvances.expanded_subset⟩
  · rw [report, ← hdistance]
    split <;> rfl

end Loops

end VBase.Sptag
