import VBase.Sptag.SearchProgress

/-! # The steps of a search

Each operation of the search keeps an account of what was checked, taken off and expanded.
The account is not part of the program; it says where every node and every sample is.
-/

namespace VBase.Sptag

variable {S D : Type} [LinearOrder D]

/-- A visited set whose state stands for a set of ids. It answers for samples, if it returns. -/
structure VisitedSet.Lawful (visited : VisitedSet S) (samples : Nat)
    (holds : S → Finset Int → Prop) : Prop where
  clear_holds : ∀ {status seen}, holds status seen → holds (visited.clear status) ∅
  check_holds : ∀ {status seen id there next}, holds status seen →
    id ∈ BKTIndex.sampleIds samples → visited.checkAndSet status id = some (there, next) →
      there = decide (id ∈ seen) ∧ holds next (insert id seen)

/-- What happened so far: the samples that were checked and those taken off, the nodes that the
search of the trees began with and those it expanded, and nodes that are on their way between two
queues. -/
structure Account where
  seen : Finset Int
  taken : Finset Int
  started : Finset Int
  expanded : Finset Int
  aside : Finset Int

/-- The workspace is as the account says. -/
structure Progress {index : BKTIndex} {samples : Nat} (layout : index.Layout samples)
    (metric : Metric D) (searchDeleted : Bool) (holds : S → Finset Int → Prop)
    (account : Account) (space : WorkSpace S D) : Prop where
  status : holds space.nodeCheckStatus account.seen
  ng : space.ngQueue.Lists metric.distance metric.maxDist
  ng_room : samples ≤ space.ngQueue.length
  spt : space.sptQueue.Lists (fun node => metric.distance (index.center node)) metric.maxDist
  spt_room : index.treeRoots.length ≤ space.sptQueue.length
  gathered : Gathered layout searchDeleted account.seen account.taken space.ngQueue.nodes
  frontier : Frontier layout account.started account.expanded
    (space.sptQueue.nodes ∪ account.aside)
  aside_disjoint : Disjoint space.sptQueue.nodes account.aside
  centers : ∀ node ∈ account.expanded, index.center node ∈ account.seen

/-- Samples only come into the queue, and one that counts as checked waits in it. -/
structure Grows (space next : WorkSpace S D) : Prop where
  nodes_subset : space.ngQueue.nodes ⊆ next.ngQueue.nodes
  leaves_le : space.numberOfCheckedLeaves ≤ next.numberOfCheckedLeaves
  nonempty : space.numberOfCheckedLeaves < next.numberOfCheckedLeaves → next.ngQueue.nodes.Nonempty

omit [LinearOrder D] in
theorem Grows.refl (space : WorkSpace S D) : Grows space space :=
  ⟨subset_rfl, le_rfl, fun hlt => absurd hlt (lt_irrefl _)⟩

omit [LinearOrder D] in
theorem Grows.trans {space middle next : WorkSpace S D} (hfirst : Grows space middle)
    (hsecond : Grows middle next) : Grows space next := by
  refine ⟨hfirst.nodes_subset.trans hsecond.nodes_subset,
    hfirst.leaves_le.trans hsecond.leaves_le, ?_⟩
  intro hlt
  rcases hfirst.leaves_le.lt_or_eq with hless | heq
  · exact (hfirst.nonempty hless).mono hsecond.nodes_subset
  · exact hsecond.nonempty (heq ▸ hlt)

section Steps

variable {visited : VisitedSet S} {index : BKTIndex} {samples : Nat}
  {layout : index.Layout samples} {metric : Metric D} {searchDeleted : Bool}
  {holds : S → Finset Int → Prop} {account : Account} {space next : WorkSpace S D}

/-! ## Samples -/

/-- A sample is checked, and waits if it is new. -/
theorem Progress.visit (hlawful : visited.Lawful samples holds)
    (hprogress : Progress layout metric searchDeleted holds account space) {id : Int}
    (hsample : id ∈ BKTIndex.sampleIds samples) (howner : layout.owner id = none) {new : Bool}
    (hvisit : visit visited space ⟨id, metric.distance id⟩ = some (new, next)) :
    Progress layout metric searchDeleted holds
        { account with seen := insert id account.seen } next ∧
      space.ngQueue.nodes ⊆ next.ngQueue.nodes ∧
      (new = true → next.ngQueue.nodes.Nonempty) ∧
      next.sptQueue = space.sptQueue ∧
      next.numberOfCheckedLeaves = space.numberOfCheckedLeaves := by
  obtain ⟨⟨there, status⟩, hcheck, hnext⟩ := Option.map_eq_some_iff.mp hvisit
  obtain ⟨rfl, hholds⟩ := hlawful.check_holds hprogress.status hsample hcheck
  have hcenters : ∀ node ∈ account.expanded, index.center node ∈ insert id account.seen :=
    fun node hnode => Finset.mem_insert_of_mem (hprogress.centers node hnode)
  by_cases hseen : id ∈ account.seen
  · simp only [hseen, decide_true, if_true] at hnext
    obtain ⟨rfl, rfl⟩ := Prod.mk.inj hnext
    refine ⟨⟨hholds, hprogress.ng, hprogress.ng_room, hprogress.spt, hprogress.spt_room, ?_,
      hprogress.frontier, hprogress.aside_disjoint, hcenters⟩, subset_rfl, nofun, rfl, rfl⟩
    rw [Finset.insert_eq_of_mem hseen]
    exact hprogress.gathered
  · simp only [hseen, decide_false, Bool.false_eq_true, if_false] at hnext
    obtain ⟨rfl, rfl⟩ := Prod.mk.inj hnext
    have hgathered := hprogress.gathered.check hsample howner hseen
    have hnew : id ∉ space.ngQueue.nodes := fun hmem =>
      hprogress.gathered.new_of_not_seen howner hseen (Finset.mem_union_right _ hmem)
    have hroom : space.ngQueue.count < space.ngQueue.length := by
      apply hprogress.ng.count_lt _ hsample hnew
      · rw [BKTIndex.card_sampleIds]
        exact hprogress.ng_room
      · intro other hother
        exact hprogress.gathered.sample other (Finset.mem_union_right _ hother)
    obtain ⟨hlists, hnodes, hlength⟩ := hprogress.ng.insert hroom hnew
    refine ⟨⟨hholds, hlists, ?_, hprogress.spt, hprogress.spt_room, ?_, hprogress.frontier,
      hprogress.aside_disjoint, hcenters⟩, ?_, ?_, rfl, rfl⟩
    · rw [hlength]
      exact hprogress.ng_room
    · rw [hnodes]
      exact hgathered
    · rw [hnodes]
      exact Finset.subset_insert id _
    · intro _
      rw [hnodes]
      exact Finset.insert_nonempty id _

/-- The count of the checked samples is not part of the account. -/
theorem Progress.setLeaves (hprogress : Progress layout metric searchDeleted holds account space)
    (leaves : Nat) :
    Progress layout metric searchDeleted holds account
      { space with numberOfCheckedLeaves := leaves } :=
  ⟨hprogress.status, hprogress.ng, hprogress.ng_room, hprogress.spt, hprogress.spt_room,
    hprogress.gathered, hprogress.frontier, hprogress.aside_disjoint, hprogress.centers⟩

theorem Progress.visitLeaf (hlawful : visited.Lawful samples holds)
    (hprogress : Progress layout metric searchDeleted holds account space) {id : Int}
    (hsample : id ∈ BKTIndex.sampleIds samples) (howner : layout.owner id = none)
    (hvisit : visitLeaf visited space ⟨id, metric.distance id⟩ = some next) :
    Progress layout metric searchDeleted holds
        { account with seen := insert id account.seen } next ∧
      Grows space next ∧ next.sptQueue = space.sptQueue := by
  obtain ⟨⟨new, middle⟩, hmiddle, hnext⟩ := Option.map_eq_some_iff.mp hvisit
  obtain ⟨hafter, hsubset, hnonempty, hspt, hleaves⟩ :=
    hprogress.visit hlawful hsample howner hmiddle
  cases new with
  | true =>
      obtain rfl : { middle with numberOfCheckedLeaves := middle.numberOfCheckedLeaves + 1 } =
        next := hnext
      refine ⟨hafter.setLeaves _, ⟨hsubset, ?_, fun _ => hnonempty rfl⟩, hspt⟩
      change space.numberOfCheckedLeaves ≤ middle.numberOfCheckedLeaves + 1
      omega
  | false =>
      obtain rfl : middle = next := hnext
      refine ⟨hafter, ⟨hsubset, hleaves.ge, ?_⟩, hspt⟩
      intro hlt
      omega

/-! ## Nodes of the trees -/

/-- A node that was aside comes into the queue of the trees. -/
theorem Progress.push (hprogress : Progress layout metric searchDeleted holds account space)
    {node : Int} (hnode : node ∈ account.aside) :
    Progress layout metric searchDeleted holds
      { account with aside := account.aside.erase node }
      { space with sptQueue := pushTree index metric space.sptQueue node } := by
  have hnew : node ∉ space.sptQueue.nodes :=
    fun hmem => Finset.disjoint_left.mp hprogress.aside_disjoint hmem hnode
  have hplaces : ∀ known ∈ space.sptQueue.nodes ∪ account.aside, known ∈ index.places :=
    fun known hknown => layout.traversed_mem known
      (hprogress.frontier.traversed known (Finset.mem_union_right _ hknown))
  have hroom : space.sptQueue.count < space.sptQueue.length := by
    apply hprogress.spt.count_lt _ (hplaces node (Finset.mem_union_right _ hnode)) hnew
    · rw [BKTIndex.card_places]
      exact hprogress.spt_room
    · exact fun known hknown => hplaces known (Finset.mem_union_left _ hknown)
  obtain ⟨hlists, hnodes, hlength⟩ := hprogress.spt.insert hroom hnew
  have hwaiting : (pushTree index metric space.sptQueue node).nodes ∪ account.aside.erase node =
      space.sptQueue.nodes ∪ account.aside := by
    rw [pushTree, treePair, hnodes, Finset.insert_union, ← Finset.union_insert,
      Finset.insert_erase hnode]
  refine ⟨hprogress.status, hprogress.ng, hprogress.ng_room, hlists, ?_, hprogress.gathered, ?_,
    ?_, hprogress.centers⟩
  · exact hprogress.spt_room.trans hlength.ge
  · change Frontier layout account.started account.expanded
      ((pushTree index metric space.sptQueue node).nodes ∪ account.aside.erase node)
    rw [hwaiting]
    exact hprogress.frontier
  · change Disjoint (pushTree index metric space.sptQueue node).nodes (account.aside.erase node)
    rw [pushTree, treePair, hnodes, Finset.disjoint_insert_left]
    exact ⟨Finset.notMem_erase node _,
      hprogress.aside_disjoint.mono_right (Finset.erase_subset node _)⟩

theorem Progress.pushAll (hprogress : Progress layout metric searchDeleted holds account space)
    {nodes : List Int} (hnodup : nodes.Nodup) (hnodes : ∀ node ∈ nodes, node ∈ account.aside) :
    Progress layout metric searchDeleted holds
      { account with aside := account.aside \ nodes.toFinset }
      { space with sptQueue := nodes.foldl (pushTree index metric) space.sptQueue } := by
  induction nodes generalizing account space with
  | nil =>
      rw [List.toFinset_nil, Finset.sdiff_empty]
      exact hprogress
  | cons node rest ih =>
      obtain ⟨hfresh, hrest⟩ := List.nodup_cons.mp hnodup
      have hstep := hprogress.push (hnodes node List.mem_cons_self)
      have hpushed := ih hstep hrest (by
        intro other hother
        refine Finset.mem_erase.mpr ⟨?_, hnodes other (List.mem_cons_of_mem node hother)⟩
        rintro rfl
        exact hfresh hother)
      rw [List.toFinset_cons, Finset.sdiff_insert, ← Finset.erase_sdiff_comm]
      exact hpushed

/-- A node comes off the queue of the trees. -/
theorem Progress.popTree (hprogress : Progress layout metric searchDeleted holds account space)
    (hsome : space.sptQueue.empty = false) :
    Progress layout metric searchDeleted holds
        { account with
          aside := insert (space.sptQueue.pop NodeDistPair.distance).1.node account.aside }
        { space with sptQueue := (space.sptQueue.pop NodeDistPair.distance).2 } ∧
      (space.sptQueue.pop NodeDistPair.distance).1.distance =
        metric.distance (index.center (space.sptQueue.pop NodeDistPair.distance).1.node) ∧
      (space.sptQueue.pop NodeDistPair.distance).1.node ∉ account.aside := by
  obtain ⟨hlists, hfresh, hnodes, hdistance, hlength⟩ := hprogress.spt.pop hsome
  have hfrontier := hprogress.frontier
  have hdisjoint := hprogress.aside_disjoint
  rw [hnodes, Finset.insert_union, ← Finset.union_insert] at hfrontier
  rw [hnodes, Finset.disjoint_insert_left] at hdisjoint
  refine ⟨⟨hprogress.status, hprogress.ng, hprogress.ng_room, hlists, ?_, hprogress.gathered,
    hfrontier, ?_, hprogress.centers⟩, hdistance, hdisjoint.1⟩
  · exact hprogress.spt_room.trans hlength.ge
  · exact Finset.disjoint_insert_right.mpr ⟨hfresh, hdisjoint.2⟩

/-- A node whose center was checked is expanded, and its children are aside. -/
theorem Progress.expand (hprogress : Progress layout metric searchDeleted holds account space)
    {node : Int} (hnode : node ∈ account.aside) (hcenter : index.center node ∈ account.seen) :
    Progress layout metric searchDeleted holds
        { account with
          expanded := insert node account.expanded
          aside := account.aside.erase node ∪ newNodes index node } space ∧
      Disjoint (newNodes index node) (account.aside.erase node) ∧ node ∉ account.expanded := by
  have hwaits : node ∈ space.sptQueue.nodes ∪ account.aside := Finset.mem_union_right _ hnode
  have hnew := hprogress.frontier.newNodes_disjoint hwaits
  have hqueue : node ∉ space.sptQueue.nodes :=
    fun hmem => Finset.disjoint_left.mp hprogress.aside_disjoint hmem hnode
  have hfrontier := hprogress.frontier.expand hwaits
  have hrest : (space.sptQueue.nodes ∪ account.aside).erase node ∪ newNodes index node =
      space.sptQueue.nodes ∪ (account.aside.erase node ∪ newNodes index node) := by
    rw [Finset.erase_union_distrib, Finset.erase_eq_of_notMem hqueue, Finset.union_assoc]
  rw [hrest] at hfrontier
  rw [Finset.disjoint_union_right, Finset.disjoint_union_right] at hnew
  refine ⟨⟨hprogress.status, hprogress.ng, hprogress.ng_room, hprogress.spt, hprogress.spt_room,
    hprogress.gathered, hfrontier, ?_, ?_⟩, ?_, ?_⟩
  · rw [Finset.disjoint_union_right]
    exact ⟨hprogress.aside_disjoint.mono_right (Finset.erase_subset node _), hnew.2.1.symm⟩
  · intro known hknown
    rcases Finset.mem_insert.mp hknown with rfl | hold
    · exact hcenter
    · exact hprogress.centers known hold
  · exact hnew.2.2.mono_right (Finset.erase_subset node _)
  · exact fun hmem => Finset.disjoint_left.mp hprogress.frontier.disjoint hmem hwaits

/-- What a node that waits leads to. -/
theorem Progress.center_mem (hprogress : Progress layout metric searchDeleted holds account space)
    {node : Int} (hnode : node ∈ account.aside) :
    index.center node ∈ BKTIndex.sampleIds samples ∧ layout.owner (index.center node) = none :=
  layout.center_mem node (hprogress.frontier.traversed node
    (Finset.mem_union_right _ (Finset.mem_union_right _ hnode)))

end Steps

end VBase.Sptag
