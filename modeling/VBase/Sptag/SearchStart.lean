import VBase.Sptag.SearchLoops

/-! # The start of a search

`InitSearchTrees` brings the first nodes of every tree into the queue. With breadth first
start, near nodes go through two more queues, and those of the first level are expanded on
their way.
-/

namespace VBase.Sptag

variable {S D : Type} [LinearOrder D]

section Start

variable {visited : VisitedSet S} {index : BKTIndex} {samples : Nat}
  {layout : index.Layout samples} {metric : Metric D} {searchDeleted : Bool}
  {holds : S → Finset Int → Prop} {account : Account} {space next : WorkSpace S D}

/-- A level of the breadth-first start, whose nodes count as aside together with those of `rest`. -/
structure Spreads {index : BKTIndex} {samples : Nat} (layout : index.Layout samples)
    (metric : Metric D) (searchDeleted : Bool) (holds : S → Finset Int → Prop)
    (account : Account) (rest : Finset Int) (state : Spreading S D) : Prop where
  progress : Progress layout metric searchDeleted holds
    { account with aside := rest ∪ state.queue.nodes } state.space
  queue : state.queue.Lists (fun node => metric.distance (index.center node)) metric.far
  length_eq : state.queue.length = maxBFSNodes
  disjoint : Disjoint rest state.queue.nodes

theorem bfsQueue_lists (value : Int → D) : (bfsQueue metric).Lists value metric.far :=
  Heap.lists_resize value (-1) metric.far (by decide)

omit [LinearOrder D] in
theorem bfsQueue_nodes (metric : Metric D) : (bfsQueue metric).nodes = ∅ := rfl

/-- A level begins without nodes of its own. -/
theorem spreads_bfsQueue {rest : Finset Int}
    (hprogress : Progress layout metric searchDeleted holds { account with aside := rest } space) :
    Spreads layout metric searchDeleted holds account rest ⟨bfsQueue metric, space⟩ := by
  refine ⟨?_, bfsQueue_lists _, rfl, ?_⟩
  · change Progress layout metric searchDeleted holds
      { account with aside := rest ∪ (bfsQueue metric).nodes } space
    rw [bfsQueue_nodes, Finset.union_empty]
    exact hprogress
  · exact Finset.disjoint_empty_right rest

section Level

variable {rest : Finset Int} {state : Spreading S D} {node : Int}

/-- A node of the rest goes to the queue of the trees. -/
theorem Spreads.push (hspreads : Spreads layout metric searchDeleted holds account rest state)
    (hnode : node ∈ rest) :
    Spreads layout metric searchDeleted holds account (rest.erase node)
      { state with
        space := { state.space with
          sptQueue := pushTree index metric state.space.sptQueue node } } := by
  have hout : node ∉ state.queue.nodes := Finset.disjoint_left.mp hspreads.disjoint hnode
  have hpushed := hspreads.progress.push (Finset.mem_union_left state.queue.nodes hnode)
  refine ⟨?_, hspreads.queue, hspreads.length_eq,
    hspreads.disjoint.mono_left (Finset.erase_subset node rest)⟩
  change Progress layout metric searchDeleted holds
    { account with aside := (rest ∪ state.queue.nodes).erase node } _ at hpushed
  rw [Finset.erase_union_distrib, Finset.erase_eq_of_notMem hout] at hpushed
  exact hpushed

/-- A node of the rest goes to one of the two queues. -/
theorem Spreads.spread (hspreads : Spreads layout metric searchDeleted holds account rest state)
    (hnode : node ∈ rest) :
    Spreads layout metric searchDeleted holds account (rest.erase node)
      (spread index metric state node) := by
  have hout : node ∉ state.queue.nodes := Finset.disjoint_left.mp hspreads.disjoint hnode
  rw [VBase.Sptag.spread]
  dsimp only
  split
  next hnear =>
    have hroom : state.queue.count < state.queue.length := by
      rw [hspreads.length_eq]
      exact hnear.2
    obtain ⟨hlists, hnodes, hlength⟩ := hspreads.queue.insert hroom hout
    refine ⟨?_, hlists, hlength.trans hspreads.length_eq, ?_⟩
    · have hsame : rest.erase node ∪ (state.queue.insert NodeDistPair.distance
          (treePair index metric node)).nodes = rest ∪ state.queue.nodes := by
        rw [treePair, hnodes, Finset.union_insert, ← Finset.insert_union,
          Finset.insert_erase hnode]
      change Progress layout metric searchDeleted holds { account with
        aside := rest.erase node ∪ (state.queue.insert NodeDistPair.distance
          (treePair index metric node)).nodes } state.space
      rw [hsame]
      exact hspreads.progress
    · change Disjoint (rest.erase node)
        (state.queue.insert NodeDistPair.distance (treePair index metric node)).nodes
      rw [treePair, hnodes, Finset.disjoint_insert_right]
      exact ⟨Finset.notMem_erase node rest,
        hspreads.disjoint.mono_left (Finset.erase_subset node rest)⟩
  next => exact hspreads.push hnode

theorem Spreads.spreadAll {nodes : List Int}
    (hspreads : Spreads layout metric searchDeleted holds account rest state)
    (hnodup : nodes.Nodup) (hnodes : ∀ node ∈ nodes, node ∈ rest) :
    Spreads layout metric searchDeleted holds account (rest \ nodes.toFinset)
      (nodes.foldl (VBase.Sptag.spread index metric) state) := by
  induction nodes generalizing rest state with
  | nil =>
      rw [List.toFinset_nil, Finset.sdiff_empty]
      exact hspreads
  | cons node others ih =>
      obtain ⟨hfresh, hothers⟩ := List.nodup_cons.mp hnodup
      have hend := ih (hspreads.spread (hnodes node List.mem_cons_self)) hothers (by
        intro other hother
        refine Finset.mem_erase.mpr ⟨?_, hnodes other (List.mem_cons_of_mem node hother)⟩
        rintro rfl
        exact hfresh hother)
      rw [List.toFinset_cons, Finset.sdiff_insert, ← Finset.erase_sdiff_comm]
      exact hend

end Level

variable (index metric) in
theorem spread_leaves (state : Spreading S D) (node : Int) :
    (spread index metric state node).space.numberOfCheckedLeaves =
      state.space.numberOfCheckedLeaves := by
  rw [spread]
  dsimp only
  split <;> rfl

variable (index metric) in
theorem spreadAll_leaves (nodes : List Int) (state : Spreading S D) :
    (nodes.foldl (spread index metric) state).space.numberOfCheckedLeaves =
      state.space.numberOfCheckedLeaves := by
  induction nodes generalizing state with
  | nil => rfl
  | cons node others ih => exact (ih _).trans (spread_leaves index metric state node)

theorem Heap.Lists.nodes_eq_empty {value : Int → D} {limit : D} {level : Heap (NodeDistPair D)}
    (hlevel : level.Lists value limit) (hcount : level.count = 0) : level.nodes = ∅ := by
  rw [← Finset.card_eq_zero, hlevel.card_nodes, hcount]

/-- The first of `count + 1` nodes comes off. -/
theorem Heap.Lists.pop_succ {value : Int → D} {limit : D} {level : Heap (NodeDistPair D)}
    {count : Nat} (hlevel : level.Lists value limit) (hcount : level.count = count + 1) :
    ∃ tmp behind, level.pop NodeDistPair.distance = (tmp, behind) ∧ behind.count = count ∧
      behind.Lists value limit ∧ tmp.node ∈ level.nodes ∧
      level.nodes.erase tmp.node = behind.nodes ∧ tmp.distance = value tmp.node := by
  have hsome : level.empty = false := by
    rw [Heap.empty, hcount]
    rfl
  have hbehind : (level.pop NodeDistPair.distance).2.count = count := by
    rw [Heap.pop, if_neg (by omega)]
    change level.count - 1 = count
    omega
  obtain ⟨hpopped, hfresh, hnodes, hdistance, -⟩ := hlevel.pop hsome
  refine ⟨(level.pop NodeDistPair.distance).1, (level.pop NodeDistPair.distance).2, rfl, hbehind,
    hpopped, ?_, ?_, hdistance⟩
  · rw [hnodes]
    exact Finset.mem_insert_self _ _
  · rw [hnodes, Finset.erase_insert hfresh]

/-- A level is emptied: its leaves go to the queue of the trees, and the others are expanded. -/
theorem Spreads.expandLevel (hlawful : visited.Lawful samples holds) {count : Nat}
    {level : Heap (NodeDistPair D)} {state after : Spreading S D}
    (hlevel : level.Lists (fun node => metric.distance (index.center node)) metric.far)
    (hcount : level.count = count)
    (hspreads : Spreads layout metric searchDeleted holds account level.nodes state)
    (hrun : expandLevel visited index metric count level state = some after) :
    ∃ account', Spreads layout metric searchDeleted holds account' ∅ after ∧
      Advances account account' ∧
      after.space.numberOfCheckedLeaves = state.space.numberOfCheckedLeaves := by
  induction count generalizing level state account with
  | zero =>
      obtain rfl := Option.some.inj hrun
      rw [hlevel.nodes_eq_empty hcount] at hspreads
      exact ⟨account, hspreads, Advances.refl account, rfl⟩
  | succ count ih =>
      obtain ⟨tmp, behind, hpop, hbehind, hpopped, hmem, hrest, hdistance⟩ :=
        hlevel.pop_succ hcount
      rw [VBase.Sptag.expandLevel, hpop] at hrun
      dsimp only at hrun
      have htmp : tmp = treePair index metric tmp.node := by
        rw [treePair, ← hdistance]
      split at hrun
      next hleaf =>
        have hpushed := hspreads.push hmem
        rw [hrest, pushTree, ← htmp] at hpushed
        obtain ⟨account', hafter, hadvances, hsame⟩ := ih hpopped hbehind hpushed hrun
        exact ⟨account', hafter, hadvances, hsame⟩
      next hinner =>
        obtain ⟨⟨new, middle⟩, hvisit, htail⟩ := Option.bind_eq_some_iff.mp hrun
        rw [hdistance] at hvisit
        have haside : tmp.node ∈ level.nodes ∪ state.queue.nodes := Finset.mem_union_left _ hmem
        obtain ⟨hsample, howner⟩ := hspreads.progress.center_mem haside
        obtain ⟨hvisited, -, -, -, hleaves⟩ :=
          hspreads.progress.visit hlawful hsample howner hvisit
        obtain ⟨hexpanded, hdisjoint, -⟩ :=
          hvisited.expand haside (Finset.mem_insert_self _ _)
        have hchildren : newNodes index tmp.node = (index.children tmp.node).toFinset := by
          rw [newNodes, if_neg hinner]
        have hout : tmp.node ∉ state.queue.nodes :=
          Finset.disjoint_left.mp hspreads.disjoint hmem
        change Disjoint _ ((level.nodes ∪ state.queue.nodes).erase tmp.node) at hdisjoint
        rw [Finset.erase_union_distrib, Finset.erase_eq_of_notMem hout, hrest,
          Finset.disjoint_union_right, hchildren] at hdisjoint
        -- The children wait beside what is left of the level.
        have hspreads' : Spreads layout metric searchDeleted holds
            { account with
              seen := insert (index.center tmp.node) account.seen
              expanded := insert tmp.node account.expanded }
            (behind.nodes ∪ (index.children tmp.node).toFinset)
            { state with space := middle } := by
          refine ⟨?_, hspreads.queue, hspreads.length_eq, ?_⟩
          · change Progress layout metric searchDeleted holds
              { account with
                seen := insert (index.center tmp.node) account.seen
                expanded := insert tmp.node account.expanded
                aside := (level.nodes ∪ state.queue.nodes).erase tmp.node ∪
                  newNodes index tmp.node } middle at hexpanded
            rw [Finset.erase_union_distrib, Finset.erase_eq_of_notMem hout, hrest, hchildren,
              Finset.union_right_comm] at hexpanded
            exact hexpanded
          · rw [Finset.disjoint_union_left]
            have hold := hspreads.disjoint.mono_left (Finset.erase_subset tmp.node level.nodes)
            rw [hrest] at hold
            exact ⟨hold, hdisjoint.2⟩
        have hspread := hspreads'.spreadAll (index.children_nodup tmp.node)
          fun below hbelow => Finset.mem_union_right _ (List.mem_toFinset.mpr hbelow)
        rw [Finset.union_sdiff_right, Finset.sdiff_eq_self_of_disjoint hdisjoint.1.symm]
          at hspread
        obtain ⟨account', hafter, hadvances, hsame⟩ := ih hpopped hbehind hspread htail
        refine ⟨account', hafter, ⟨hadvances.taken_eq, hadvances.started_eq, hadvances.aside_eq,
          (Finset.subset_insert _ _).trans hadvances.expanded_subset⟩, ?_⟩
        rw [hsame, spreadAll_leaves]
        exact hleaves

/-- The last level goes to the queue of the trees. -/
theorem Progress.drainLevel {count : Nat} {level : Heap (NodeDistPair D)}
    (hlevel : level.Lists (fun node => metric.distance (index.center node)) metric.far)
    (hcount : level.count = count)
    (hprogress : Progress layout metric searchDeleted holds
      { account with aside := level.nodes } space) :
    Progress layout metric searchDeleted holds { account with aside := ∅ }
        (drainLevel count level space) ∧
      (VBase.Sptag.drainLevel count level space).numberOfCheckedLeaves =
        space.numberOfCheckedLeaves := by
  induction count generalizing level space with
  | zero =>
      rw [hlevel.nodes_eq_empty hcount] at hprogress
      exact ⟨hprogress, rfl⟩
  | succ count ih =>
      obtain ⟨tmp, behind, hpop, hbehind, hpopped, hmem, hrest, hdistance⟩ :=
        hlevel.pop_succ hcount
      rw [VBase.Sptag.drainLevel, hpop]
      dsimp only
      have htmp : tmp = treePair index metric tmp.node := by
        rw [treePair, ← hdistance]
      have hpushed := hprogress.push hmem
      change Progress layout metric searchDeleted holds
        { account with aside := level.nodes.erase tmp.node } _ at hpushed
      rw [hrest, pushTree, ← htmp] at hpushed
      exact ih hpopped hbehind hpushed

/-- The search of a further tree begins, with its first nodes aside. -/
theorem Progress.start (hprogress : Progress layout metric searchDeleted holds account space)
    {more : Finset Int} (hstarts : ∀ node ∈ more, node ∈ index.starts)
    (hmore : Disjoint more account.started) :
    Progress layout metric searchDeleted holds
      { account with started := account.started ∪ more, aside := account.aside ∪ more } space := by
  obtain ⟨hdisjoint, hfrontier⟩ := hprogress.frontier.start hstarts hmore
  rw [Finset.disjoint_union_right, Finset.disjoint_union_right] at hdisjoint
  rw [Finset.union_assoc] at hfrontier
  refine ⟨hprogress.status, hprogress.ng, hprogress.ng_room, hprogress.spt, hprogress.spt_room,
    hprogress.gathered, hfrontier, ?_, hprogress.centers⟩
  rw [Finset.disjoint_union_right]
  exact ⟨hprogress.aside_disjoint, hdisjoint.2.1.symm⟩

/-- One tree of `InitSearchTrees`. -/
theorem Progress.initTree (hlawful : visited.Lawful samples holds)
    (hprogress : Progress layout metric searchDeleted holds account space)
    (haside : account.aside = ∅) {start : Int}
    (hstarts : ∀ node ∈ index.startNodes start, node ∈ index.starts)
    (hnodup : (index.startNodes start).Nodup)
    (hmore : Disjoint (index.startNodes start).toFinset account.started)
    (hrun : initTree visited index metric space start = some next) :
    ∃ after, Progress layout metric searchDeleted holds after next ∧
      Advances { account with
        started := account.started ∪ (index.startNodes start).toFinset } after ∧
      next.numberOfCheckedLeaves = space.numberOfCheckedLeaves := by
  have hbegun := hprogress.start
    (fun node hnode => hstarts node (List.mem_toFinset.mp hnode)) hmore
  rw [haside, Finset.empty_union] at hbegun
  rw [VBase.Sptag.initTree] at hrun
  split at hrun
  next hleaf =>
    obtain rfl := Option.some.inj hrun
    have hnodes : index.startNodes start = [start] := by
      rw [BKTIndex.startNodes, if_pos hleaf]
    rw [hnodes] at hbegun ⊢
    have hmem : start ∈ [start].toFinset := List.mem_toFinset.mpr List.mem_cons_self
    have hpushed := hbegun.push hmem
    refine ⟨_, hpushed, ⟨rfl, rfl, ?_, subset_rfl⟩, rfl⟩
    change [start].toFinset.erase start = account.aside
    rw [haside, List.toFinset_cons, List.toFinset_nil, Finset.erase_insert
      (Finset.notMem_empty start)]
  next hinner =>
    have hnodes : index.startNodes start = index.children start := by
      rw [BKTIndex.startNodes, if_neg hinner]
    rw [hnodes] at hbegun hnodup ⊢
    split at hrun
    next =>
      have hlevel : Spreads layout metric searchDeleted holds
          { account with started := account.started ∪ (index.children start).toFinset }
          (index.children start).toFinset ⟨bfsQueue metric, space⟩ := spreads_bfsQueue hbegun
      have hfirst := hlevel.spreadAll hnodup fun node hnode => List.mem_toFinset.mpr hnode
      rw [Finset.sdiff_self] at hfirst
      have hleaves := spreadAll_leaves index metric (index.children start)
        ⟨bfsQueue metric, space⟩
      generalize (index.children start).foldl (VBase.Sptag.spread index metric)
        ⟨bfsQueue metric, space⟩ = first at hfirst hleaves hrun
      obtain ⟨second, hsecond, rfl⟩ := Option.map_eq_some_iff.mp hrun
      have hmiddle := hfirst.progress
      rw [Finset.empty_union] at hmiddle
      have hnext : Spreads layout metric searchDeleted holds
          { account with started := account.started ∪ (index.children start).toFinset }
          first.queue.nodes ⟨bfsQueue metric, first.space⟩ := spreads_bfsQueue hmiddle
      obtain ⟨account', hspread, hadvances, hsame⟩ :=
        hnext.expandLevel hlawful hfirst.queue rfl hsecond
      have hlast := hspread.progress
      rw [Finset.empty_union] at hlast
      obtain ⟨hdrained, hdrain⟩ := hlast.drainLevel hspread.queue rfl
      refine ⟨_, hdrained, ⟨hadvances.taken_eq, hadvances.started_eq, haside.symm,
        hadvances.expanded_subset⟩, ?_⟩
      rw [hdrain, hsame]
      exact hleaves
    next =>
      obtain rfl := Option.some.inj hrun
      have hpushed := hbegun.pushAll hnodup fun node hnode => List.mem_toFinset.mpr hnode
      refine ⟨_, hpushed, ⟨rfl, rfl, ?_, subset_rfl⟩, rfl⟩
      change (index.children start).toFinset \ (index.children start).toFinset = account.aside
      rw [haside, Finset.sdiff_self]

theorem Progress.initTrees (hlawful : visited.Lawful samples holds)
    (hprogress : Progress layout metric searchDeleted holds account space)
    (haside : account.aside = ∅) {trees : List Int}
    (hstarts : ∀ node ∈ trees.flatMap index.startNodes, node ∈ index.starts)
    (hnodup : (trees.flatMap index.startNodes).Nodup)
    (hmore : Disjoint (trees.flatMap index.startNodes).toFinset account.started)
    (hrun : trees.foldlM (VBase.Sptag.initTree visited index metric) space = some next) :
    ∃ after, Progress layout metric searchDeleted holds after next ∧
      Advances { account with
        started := account.started ∪ (trees.flatMap index.startNodes).toFinset } after ∧
      next.numberOfCheckedLeaves = space.numberOfCheckedLeaves := by
  induction trees generalizing space account with
  | nil =>
      obtain rfl := Option.some.inj hrun
      refine ⟨account, hprogress, ⟨rfl, ?_, rfl, subset_rfl⟩, rfl⟩
      change account.started = account.started ∪ ∅
      rw [Finset.union_empty]
  | cons start rest ih =>
      rw [List.flatMap_cons] at hstarts hnodup hmore
      rw [List.toFinset_append, Finset.disjoint_union_left] at hmore
      obtain ⟨hfirst, hrest, hapart⟩ := List.nodup_append.mp hnodup
      rw [List.foldlM_cons] at hrun
      obtain ⟨middle, htree, htail⟩ := Option.bind_eq_some_iff.mp hrun
      obtain ⟨between, hbetween, hadvances, hleaves⟩ := hprogress.initTree hlawful haside
        (fun node hnode => hstarts node (List.mem_append_left _ hnode)) hfirst hmore.1 htree
      obtain ⟨after, hafter, hmoves, hsame⟩ := ih hbetween (hadvances.aside_eq.trans haside)
        (fun node hnode => hstarts node (List.mem_append_right _ hnode)) hrest
        (by
          rw [hadvances.started_eq, Finset.disjoint_union_right]
          refine ⟨hmore.2, Finset.disjoint_left.mpr ?_⟩
          intro node hlater hearlier
          exact hapart node (List.mem_toFinset.mp hearlier) node (List.mem_toFinset.mp hlater)
            rfl) htail
      refine ⟨after, hafter, ⟨hmoves.taken_eq.trans hadvances.taken_eq, ?_,
        hmoves.aside_eq.trans hadvances.aside_eq,
        hadvances.expanded_subset.trans hmoves.expanded_subset⟩, hsame.trans hleaves⟩
      have hstarted := hmoves.started_eq
      change after.started = between.started ∪ _ at hstarted
      rw [hstarted, hadvances.started_eq, List.flatMap_cons, List.toFinset_append,
        Finset.union_assoc]

/-- After the start, a sample waits or the trees are searched. -/
theorem Progress.startSearch (hlawful : visited.Lawful samples holds)
    (hpivots : 0 < index.initialDynamicPivots)
    (hprogress : Progress layout metric searchDeleted holds account space)
    (haside : account.aside = ∅) (hstarted : account.started = ∅)
    (hleaves : space.numberOfCheckedLeaves = 0) {fuel : Nat}
    (hrun : startSearch visited index metric fuel space = some next) :
    ∃ after, Progress layout metric searchDeleted holds after next ∧
      Advances { account with started := index.starts.toFinset } after ∧
      (next.ngQueue.nodes = ∅ → next.sptQueue.nodes = ∅) := by
  obtain ⟨middle, hinit, htrees⟩ := Option.bind_eq_some_iff.mp hrun
  obtain ⟨between, hbetween, hadvances, hsame⟩ := hprogress.initTrees hlawful haside
    (fun _ hnode => hnode) layout.starts_nodup
    (by
      rw [hstarted]
      exact Finset.disjoint_empty_right _) hinit
  obtain ⟨after, hafter, hmoves, hdone⟩ :=
    hbetween.searchTrees_exhausts hlawful (by omega) htrees
  refine ⟨after, hafter, ?_, hdone⟩
  rw [hstarted, Finset.empty_union] at hadvances
  exact hadvances.trans hmoves

end Start

end VBase.Sptag
