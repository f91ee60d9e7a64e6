import VBase.Sptag.PooledSearch

/-! # Every search ends

With a visited set that always returns, so does `Next`. A round of `SearchTrees` expands a node
that was not expanded before, and a round of `SearchIterative` takes off a sample that was not
taken off before.
-/

namespace VBase.Sptag

variable {S D : Type} [LinearOrder D]

/-- A visited set that always returns. -/
def VisitedSet.Total (visited : VisitedSet S) : Prop :=
  ∀ status id, ∃ result, visited.checkAndSet status id = some result

section Option

variable {α β : Type} {value : Option α}

theorem exists_map_eq_some (hvalue : ∃ item, value = some item) (f : α → β) :
    ∃ result, value.map f = some result := by
  obtain ⟨item, rfl⟩ := hvalue
  exact ⟨f item, rfl⟩

theorem exists_bind_eq_some {f : α → Option β} (hvalue : ∃ item, value = some item)
    (hf : ∀ item, value = some item → ∃ result, f item = some result) :
    ∃ result, value.bind f = some result := by
  obtain ⟨item, rfl⟩ := hvalue
  exact hf item rfl

/-- A loop returns if each of its rounds does. -/
theorem exists_foldlM_eq_some {step : β → α → Option β}
    (hstep : ∀ state item, ∃ next, step state item = some next) (items : List α) (state : β) :
    ∃ after, items.foldlM step state = some after := by
  induction items generalizing state with
  | nil => exact ⟨state, rfl⟩
  | cons item rest ih =>
      obtain ⟨next, hnext⟩ := hstep state item
      obtain ⟨after, hafter⟩ := ih next
      refine ⟨after, ?_⟩
      rw [List.foldlM_cons, hnext]
      exact hafter

end Option

section Returns

variable {visited : VisitedSet S} (htotal : visited.Total) (index : BKTIndex) (metric : Metric D)

include htotal

theorem visit_returns (space : WorkSpace S D) (pair : NodeDistPair D) :
    ∃ result, visit visited space pair = some result :=
  exists_map_eq_some (htotal space.nodeCheckStatus pair.node) _

theorem visitLeaf_returns (space : WorkSpace S D) (pair : NodeDistPair D) :
    ∃ next, visitLeaf visited space pair = some next :=
  exists_map_eq_some (visit_returns htotal space pair) _

theorem searchTreesStep_returns (limits : Nat) (space : WorkSpace S D) :
    ∃ result, searchTreesStep visited index metric limits space = some result := by
  rw [searchTreesStep]
  dsimp only
  split
  · exact exists_map_eq_some (visitLeaf_returns htotal _ _) _
  · exact exists_map_eq_some (visit_returns htotal _ _) _

theorem expandLevel_returns (count : Nat) (level : Heap (NodeDistPair D))
    (state : Spreading S D) :
    ∃ after, expandLevel visited index metric count level state = some after := by
  induction count generalizing level state with
  | zero => exact ⟨state, rfl⟩
  | succ count ih =>
      rw [expandLevel]
      dsimp only
      split
      · exact ih _ _
      · apply exists_bind_eq_some (visit_returns htotal _ _)
        intro result _
        exact ih _ _

theorem initTree_returns (space : WorkSpace S D) (start : Int) :
    ∃ next, initTree visited index metric space start = some next := by
  rw [initTree]
  split
  · exact ⟨_, rfl⟩
  · split
    · exact exists_map_eq_some (expandLevel_returns htotal index metric _ _ _) _
    · exact ⟨_, rfl⟩

end Returns

section Fuel

variable {visited : VisitedSet S} {index : BKTIndex} {samples : Nat}
  {layout : index.Layout samples} {metric : Metric D} {searchDeleted : Bool}
  {holds : S → Finset Int → Prop} {account : Account} {fuel : Nat} {space : WorkSpace S D}

theorem Progress.card_expanded_le
    (hprogress : Progress layout metric searchDeleted holds account space) :
    account.expanded.card ≤ index.treeRoots.length := by
  rw [← BKTIndex.card_places]
  apply Finset.card_le_card
  intro node hnode
  exact layout.traversed_mem node
    (hprogress.frontier.traversed node (Finset.mem_union_left _ hnode))

theorem Progress.card_taken_le
    (hprogress : Progress layout metric searchDeleted holds account space) :
    account.taken.card ≤ samples := by
  rw [← BKTIndex.card_sampleIds samples]
  apply Finset.card_le_card
  intro id hid
  exact hprogress.gathered.sample id (Finset.mem_union_left _ hid)

/-- `SearchTrees` has a round for each node that is not expanded. -/
theorem Progress.searchTrees_returns (htotal : visited.Total)
    (hlawful : visited.Lawful samples holds) (limits : Nat)
    (hprogress : Progress layout metric searchDeleted holds account space)
    (hfuel : index.treeRoots.length < account.expanded.card + fuel) :
    ∃ next, VBase.Sptag.searchTrees visited index metric limits fuel space = some next := by
  induction fuel generalizing space account with
  | zero =>
      have hle := hprogress.card_expanded_le
      omega
  | succ fuel ih =>
      rw [VBase.Sptag.searchTrees]
      split
      next => exact ⟨space, rfl⟩
      next hsome =>
        obtain ⟨⟨stop, middle⟩, hstep⟩ :=
          searchTreesStep_returns htotal index metric limits space
        obtain ⟨between, hbetween, -, hmore, -⟩ :=
          hprogress.searchTreesStep hlawful (Bool.not_eq_true _ ▸ hsome) hstep
        rw [hstep]
        cases stop with
        | true => exact ⟨middle, rfl⟩
        | false =>
            apply ih hbetween
            omega

theorem Progress.startSearch_returns (htotal : visited.Total)
    (hlawful : visited.Lawful samples holds)
    (hprogress : Progress layout metric searchDeleted holds account space)
    (haside : account.aside = ∅) (hstarted : account.started = ∅)
    (hfuel : index.treeRoots.length < fuel) :
    ∃ next, VBase.Sptag.startSearch visited index metric fuel space = some next := by
  apply exists_bind_eq_some
    (exists_foldlM_eq_some (initTree_returns htotal index metric) index.treeStart space)
  intro middle hinit
  obtain ⟨between, hbetween, -⟩ := hprogress.initTrees hlawful haside (fun _ hnode => hnode)
    layout.starts_nodup
    (by
      rw [hstarted]
      exact Finset.disjoint_empty_right _) hinit
  exact hbetween.searchTrees_returns htotal hlawful index.initialDynamicPivots
    (hfuel.trans_le (Nat.le_add_left fuel _))

theorem Progress.catchUp_returns (htotal : visited.Total)
    (hlawful : visited.Lawful samples holds)
    (hprogress : Progress layout metric searchDeleted holds account space)
    (hfuel : index.treeRoots.length < fuel) :
    ∃ next, VBase.Sptag.catchUp visited index metric fuel space = some next := by
  rw [VBase.Sptag.catchUp]
  split
  · exact hprogress.searchTrees_returns htotal hlawful _
      (hfuel.trans_le (Nat.le_add_left fuel _))
  · exact ⟨space, rfl⟩

theorem Progress.iterativeTurn_returns (htotal : visited.Total)
    (hlawful : visited.Lawful samples holds) {state : Iterating S D}
    (hprogress : Progress layout metric searchDeleted holds account state.space)
    (hsome : state.space.ngQueue.empty = false) (hfuel : index.treeRoots.length < fuel) :
    ∃ after, VBase.Sptag.iterativeTurn visited index metric searchDeleted fuel state =
      some after := by
  obtain ⟨htaken, -, hsample, -⟩ := hprogress.take hsome
  rw [VBase.Sptag.iterativeTurn]
  generalize state.space.ngQueue.pop NodeDistPair.distance = popped at *
  obtain ⟨gnode, queue⟩ := popped
  dsimp only at htaken hsample ⊢
  rw [report_space]
  apply exists_bind_eq_some (exists_foldlM_eq_some
    (fun space nn => visitLeaf_returns htotal space ⟨nn, metric.distance nn⟩) _ _)
  intro middle hrow
  obtain ⟨seen, hmiddle⟩ := htaken.expandRow hlawful (layout.neighbor_mem gnode.node hsample) hrow
  exact exists_map_eq_some (hmiddle.catchUp_returns htotal hlawful hfuel) _

/-- `SearchIterative` has a round for each sample that was not taken off. -/
theorem Progress.iterativeLoop_returns (htotal : visited.Total)
    (hlawful : visited.Lawful samples holds) (hpivots : 0 < index.otherDynamicPivots)
    (hnear : ∀ id ∈ BKTIndex.sampleIds samples, metric.distance id < metric.maxDist)
    (batch : Nat) (hfuel : index.treeRoots.length < fuel) {rounds : Nat}
    (state : Iterating S D)
    (hprogress : Progress layout metric searchDeleted holds account state.space)
    (hrounds : samples < account.taken.card + rounds) :
    ∃ after, VBase.Sptag.iterativeLoop visited index metric searchDeleted batch fuel rounds state =
      some after := by
  induction rounds generalizing state account with
  | zero =>
      have hle := hprogress.card_taken_le
      omega
  | succ rounds ih =>
      rw [VBase.Sptag.iterativeLoop]
      split
      next => exact ⟨state, rfl⟩
      next hsome =>
        have hwaits := Bool.not_eq_true _ ▸ hsome
        obtain ⟨middle, hturn⟩ := hprogress.iterativeTurn_returns htotal hlawful hwaits hfuel
        obtain ⟨id, -, hnew, ⟨between, hbetween, hadvances, -⟩, -⟩ :=
          hprogress.iterativeTurn hlawful hpivots hnear hwaits hturn
        have hmore : between.taken.card = account.taken.card + 1 := by
          rw [hadvances.taken_eq]
          exact Finset.card_insert_of_notMem hnew
        rw [hturn, Option.bind_some]
        split
        · exact ⟨middle, rfl⟩
        · apply ih middle hbetween
          omega

theorem Iterates.next_returns (htotal : visited.Total) (hlawful : visited.Lawful samples holds)
    (hinitial : 0 < index.initialDynamicPivots) (hpivots : 0 < index.otherDynamicPivots)
    (hnear : ∀ id ∈ BKTIndex.sampleIds samples, metric.distance id < metric.maxDist)
    (htrees : index.treeRoots.length < fuel) (hrounds : samples < fuel)
    {iter : ResultIterator S D}
    (hiterates : Iterates layout metric searchDeleted holds account iter) :
    ∃ result, iter.next visited index metric searchDeleted fuel = some result := by
  have hreset := hiterates.progress.setLeaves 0
  apply exists_map_eq_some
  apply exists_bind_eq_some
  · split
    next hfirst =>
      exact hreset.startSearch_returns htotal hlawful hiterates.aside_eq
        (hiterates.first hfirst) htrees
    next => exact ⟨_, rfl⟩
  · intro begun hbegin
    obtain ⟨between, hbetween, -⟩ := hiterates.begins hlawful hinitial hbegin
    apply exists_map_eq_some
    exact hbetween.progress.iterativeLoop_returns htotal hlawful hpivots hnear 1 htrees
      ⟨begun, _, 0⟩ (hrounds.trans_le (Nat.le_add_left fuel _))

theorem Iterates.nexts_returns (htotal : visited.Total) (hlawful : visited.Lawful samples holds)
    (hinitial : 0 < index.initialDynamicPivots) (hpivots : 0 < index.otherDynamicPivots)
    (hnear : ∀ id ∈ BKTIndex.sampleIds samples, metric.distance id < metric.maxDist)
    (htrees : index.treeRoots.length < fuel) (hrounds : samples < fuel) (calls : Nat)
    {iter : ResultIterator S D}
    (hiterates : Iterates layout metric searchDeleted holds account iter) :
    ∃ result, iter.nexts visited index metric searchDeleted fuel calls = some result := by
  induction calls generalizing iter account with
  | zero => exact ⟨_, rfl⟩
  | succ calls ih =>
      apply exists_bind_eq_some (hiterates.next_returns htotal hlawful hinitial hpivots hnear
        htrees hrounds)
      intro result hnext
      obtain ⟨answer, middle⟩ := result
      obtain ⟨between, hbetween, -⟩ := hiterates.next hlawful hinitial hpivots hnear hnext
      exact exists_map_eq_some (ih hbetween) _

theorem WorkSpace.Ready.scanAll_returns (htotal : visited.Total)
    (hlawful : visited.Lawful samples holds) (layout : index.Layout samples)
    (hinitial : 0 < index.initialDynamicPivots) (hpivots : 0 < index.otherDynamicPivots)
    (htrees : index.treeRoots.length < fuel) (hrounds : samples < fuel)
    {maxDist : D} {scans : List (Scan D)}
    (hnear : ∀ scan ∈ scans, scan.metric.maxDist = maxDist ∧
      ∀ id ∈ BKTIndex.sampleIds samples, scan.metric.distance id < maxDist)
    (hready : space.Ready index samples maxDist holds) :
    ∃ result, VBase.Sptag.scanAll visited index fuel scans space = some result := by
  induction scans generalizing space with
  | nil => exact ⟨_, rfl⟩
  | cons scan rest ih =>
      obtain ⟨rfl, hclose⟩ := hnear scan List.mem_cons_self
      have hiterates := hready.iterates hlawful layout scan.searchDeleted
      apply exists_bind_eq_some (hiterates.nexts_returns htotal hlawful hinitial hpivots hclose
        htrees hrounds scan.calls)
      intro result hfirst
      obtain ⟨first, iter⟩ := result
      obtain ⟨-, hnext⟩ := hready.nexts layout hlawful hinitial hpivots hclose hfirst
      exact exists_map_eq_some
        (ih (fun other hother => hnear other (List.mem_cons_of_mem _ hother)) hnext) _

end Fuel

end VBase.Sptag
