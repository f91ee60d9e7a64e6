import VBase.Sptag.BKTSearch

/-! # How far a search has come

Every node of a tree waits in a queue until it is expanded, and every sample until it is
taken off. A node has one parent and a sample is checked once, so nothing waits twice, and
queues with room for all nodes and all samples never lose anything.
-/

namespace VBase.Sptag

variable {S D : Type} [LinearOrder D]

/-! ## Queues of nodes -/

namespace Heap

/-- The nodes in a queue. -/
def nodes (queue : Heap (NodeDistPair D)) : Finset Int :=
  (queue.elems.map NodeDistPair.node).toFinset

/-- A queue in order that has no node twice and each with its distance. `limit` is the distance of
the value that stands before the heap. -/
structure Lists (value : Int → D) (limit : D) (queue : Heap (NodeDistPair D)) : Prop where
  valid : Valid NodeDistPair.distance queue
  nodup : (queue.elems.map NodeDistPair.node).Nodup
  distance_eq : ∀ pair ∈ queue.elems, pair.distance = value pair.node
  spare_eq : queue.spare.distance = limit

variable {value : Int → D} {limit : D} {queue : Heap (NodeDistPair D)} {id : Int}

omit [LinearOrder D] in
theorem mem_nodes : id ∈ queue.nodes ↔ ∃ pair ∈ queue.elems, pair.node = id := by
  rw [nodes, Multiset.mem_toFinset, Multiset.mem_map]

theorem Lists.card_nodes (hlists : queue.Lists value limit) : queue.nodes.card = queue.count := by
  rw [nodes, Multiset.toFinset_card_of_nodup hlists.nodup, Multiset.card_map, card_elems]

omit [LinearOrder D] in
theorem empty_iff : queue.empty = true ↔ queue.nodes = ∅ := by
  rw [empty, beq_iff_eq, ← card_elems, Multiset.card_eq_zero, nodes, Multiset.toFinset_eq_empty,
    Multiset.map_eq_zero]

theorem lists_resize (value : Int → D) (node : Int) (limit : D) {size : Nat} (hsize : size ≠ 0) :
    (resize (⟨node, limit⟩ : NodeDistPair D) size).Lists value limit where
  valid := valid_resize _ hsize
  nodup := Multiset.nodup_zero
  distance_eq := fun _ hpair => absurd hpair (Multiset.notMem_zero _)
  spare_eq := rfl

theorem Lists.clear (hlists : queue.Lists value limit) {other : Int → D} :
    queue.clear.Lists other limit where
  valid := hlists.valid.clear
  nodup := Multiset.nodup_zero
  distance_eq := fun _ hpair => absurd hpair (Multiset.notMem_zero _)
  spare_eq := hlists.spare_eq

/-- A new node comes into a queue with room. -/
theorem Lists.insert (hlists : queue.Lists value limit) (hroom : queue.count < queue.length)
    (hnew : id ∉ queue.nodes) :
    (queue.insert NodeDistPair.distance ⟨id, value id⟩).Lists value limit ∧
      (queue.insert NodeDistPair.distance ⟨id, value id⟩).nodes = Insert.insert id queue.nodes ∧
      (queue.insert NodeDistPair.distance ⟨id, value id⟩).length = queue.length := by
  obtain ⟨hvalid, helems⟩ := hlists.valid.insert_of_room hroom ⟨id, value id⟩
  have hshape : (queue.insert NodeDistPair.distance ⟨id, value id⟩).spare = queue.spare ∧
      (queue.insert NodeDistPair.distance ⟨id, value id⟩).length = queue.length := by
    rw [Heap.insert, if_neg hroom.ne]
    exact ⟨rfl, rfl⟩
  refine ⟨⟨hvalid, ?_, ?_, ?_⟩, ?_, hshape.2⟩
  · rw [helems, Multiset.map_cons, Multiset.nodup_cons]
    refine ⟨?_, hlists.nodup⟩
    intro hmem
    exact hnew (Multiset.mem_toFinset.mpr hmem)
  · intro pair hpair
    rw [helems] at hpair
    rcases Multiset.mem_cons.mp hpair with rfl | hold
    · rfl
    · exact hlists.distance_eq pair hold
  · rw [hshape.1]
    exact hlists.spare_eq
  · rw [nodes, helems, Multiset.map_cons, Multiset.toFinset_cons, nodes]

/-- A node comes off a queue that is not empty. -/
theorem Lists.pop (hlists : queue.Lists value limit) (hsome : queue.empty = false) :
    (queue.pop NodeDistPair.distance).2.Lists value limit ∧
      (queue.pop NodeDistPair.distance).1.node ∉ (queue.pop NodeDistPair.distance).2.nodes ∧
      queue.nodes = Insert.insert (queue.pop NodeDistPair.distance).1.node
        (queue.pop NodeDistPair.distance).2.nodes ∧
      (queue.pop NodeDistPair.distance).1.distance =
        value (queue.pop NodeDistPair.distance).1.node ∧
      (queue.pop NodeDistPair.distance).2.length = queue.length := by
  have hpos : 0 < queue.count := by
    apply Nat.pos_of_ne_zero
    intro hzero
    rw [empty, hzero] at hsome
    cases hsome
  obtain ⟨hvalid, helems, -⟩ := hlists.valid.pop hpos
  have hshape : (queue.pop NodeDistPair.distance).2.spare = queue.spare ∧
      (queue.pop NodeDistPair.distance).2.length = queue.length := by
    rw [Heap.pop, if_neg hpos.ne']
    exact ⟨rfl, rfl⟩
  have hnodup := hlists.nodup
  rw [← helems, Multiset.map_cons, Multiset.nodup_cons] at hnodup
  have hmem : ∀ pair ∈ (queue.pop NodeDistPair.distance).2.elems, pair ∈ queue.elems := by
    intro pair hpair
    rw [← helems]
    exact Multiset.mem_cons_of_mem hpair
  refine ⟨⟨hvalid, hnodup.2, fun pair hpair => hlists.distance_eq pair (hmem pair hpair), ?_⟩,
    ?_, ?_, ?_, hshape.2⟩
  · rw [hshape.1]
    exact hlists.spare_eq
  · intro hnode
    exact hnodup.1 (Multiset.mem_toFinset.mp hnode)
  · rw [nodes, ← helems, Multiset.map_cons, Multiset.toFinset_cons, nodes]
  · apply hlists.distance_eq
    rw [← helems]
    exact Multiset.mem_cons_self _ _

/-- The distance at the top is that of a node, or the limit. -/
theorem Lists.top_distance (hlists : queue.Lists value limit) :
    (queue.nodes = ∅ ∧ queue.top.distance = limit) ∨
      ∃ node ∈ queue.nodes, queue.top.distance = value node := by
  rw [top]
  split
  next hzero =>
    refine Or.inl ⟨?_, hlists.spare_eq⟩
    rw [← Finset.card_eq_zero, hlists.card_nodes, hzero]
  next hpos =>
    have hroot : queue.heap 0 ∈ queue.elems :=
      ArrayHeap.mem_contents.mpr ⟨0, Nat.pos_of_ne_zero hpos, rfl⟩
    exact Or.inr ⟨(queue.heap 0).node, mem_nodes.mpr ⟨_, hroot, rfl⟩,
      hlists.distance_eq _ hroot⟩

/-- A queue with room for all places has room for one that is not in it. -/
theorem Lists.count_lt (hlists : queue.Lists value limit) {places : Finset Int}
    (hnodes : queue.nodes ⊆ places) (hplace : id ∈ places) (hnew : id ∉ queue.nodes)
    (hlength : places.card ≤ queue.length) : queue.count < queue.length := by
  have hmore : (Insert.insert id queue.nodes).card ≤ places.card :=
    Finset.card_le_card (Finset.insert_subset hplace hnodes)
  rw [Finset.card_insert_of_notMem hnew, hlists.card_nodes] at hmore
  omega

end Heap

/-! ## Indexes in order -/

namespace BKTIndex

/-- Where the search of a tree begins: at its root if that is a leaf, and at its children if not. -/
def startNodes (index : BKTIndex) (start : Int) : List Int :=
  if index.isLeaf start then [start] else index.children start

def starts (index : BKTIndex) : List Int := index.treeStart.flatMap index.startNodes

/-- The nodes of the trees that a search can come to. -/
inductive Traversed (index : BKTIndex) : Int → Prop
  | start {node : Int} (hstart : node ∈ index.starts) : Traversed index node
  | child {node below : Int} (hnode : Traversed index node) (hinner : index.isLeaf node = false)
      (hchild : below ∈ index.children node) : Traversed index below

/-- The places of the trees. -/
def places (index : BKTIndex) : Finset Int :=
  (Finset.range index.treeRoots.length).image fun place : Nat => (place : Int)

/-- The ids of the samples. -/
def sampleIds (samples : Nat) : Finset Int :=
  (Finset.range samples).image fun id : Nat => (id : Int)

/-- An index in order. A node of the trees has one parent. A sample is the center of a node that
is searched, or else a duplicate that only the sample it belongs to leads to. -/
structure Layout (index : BKTIndex) (samples : Nat) where
  parentOf : Int → Option Int
  owner : Int → Option Int
  starts_nodup : index.starts.Nodup
  parentOf_start : ∀ node ∈ index.starts, parentOf node = none
  parentOf_child : ∀ node, index.Traversed node → index.isLeaf node = false →
    ∀ below ∈ index.children node, parentOf below = some node
  traversed_mem : ∀ node, index.Traversed node → node ∈ index.places
  center_mem : ∀ node, index.Traversed node →
    index.center node ∈ sampleIds samples ∧ owner (index.center node) = none
  neighbor_mem : ∀ id ∈ sampleIds samples, ∀ nn ∈ index.neighbors id,
    nn ∈ sampleIds samples ∧ owner nn = none
  duplicates_nodup : ∀ id ∈ sampleIds samples, (index.duplicates id).Nodup
  duplicate_mem : ∀ id ∈ sampleIds samples, ∀ other ∈ index.duplicates id,
    other ∈ sampleIds samples ∧ owner other = some id
  center_of_owner : ∀ id ∈ sampleIds samples, owner id = none →
    ∃ node, index.Traversed node ∧ index.center node = id
  duplicate_of_owner : ∀ id ∈ sampleIds samples, ∀ other, owner id = some other →
    other ∈ sampleIds samples ∧ owner other = none ∧ id ∈ index.duplicates other

theorem card_places (index : BKTIndex) : index.places.card = index.treeRoots.length := by
  rw [places, Finset.card_image_of_injective, Finset.card_range]
  exact fun _ _ heq => Int.ofNat.inj heq

theorem card_sampleIds (samples : Nat) : (sampleIds samples).card = samples := by
  rw [sampleIds, Finset.card_image_of_injective, Finset.card_range]
  exact fun _ _ heq => Int.ofNat.inj heq

theorem mem_sampleIds {samples : Nat} {id : Int} :
    id ∈ sampleIds samples ↔ 0 ≤ id ∧ id < samples := by
  rw [sampleIds, Finset.mem_image]
  constructor
  · rintro ⟨place, hplace, rfl⟩
    have hlt := Finset.mem_range.mp hplace
    omega
  · rintro ⟨hpos, hlt⟩
    refine ⟨id.toNat, ?_, Int.toNat_of_nonneg hpos⟩
    rw [Finset.mem_range]
    omega

theorem indices_nodup (first last : Int) : (indices first last).Nodup := by
  rw [indices]
  apply List.Nodup.map _ List.nodup_range
  intro left right heq
  have hsame : first + (left : Int) = first + (right : Int) := heq
  omega

theorem children_nodup (index : BKTIndex) (node : Int) : (index.children node).Nodup :=
  indices_nodup _ _

end BKTIndex

/-! ## What was expanded and what waits -/

/-- The nodes of the trees that were expanded and those that wait. -/
structure Frontier {index : BKTIndex} {samples : Nat} (layout : index.Layout samples)
    (started expanded waiting : Finset Int) : Prop where
  disjoint : Disjoint expanded waiting
  traversed : ∀ node ∈ expanded ∪ waiting, index.Traversed node
  introduced : ∀ node ∈ expanded ∪ waiting,
    node ∈ started ∨ ∃ parent ∈ expanded, layout.parentOf node = some parent
  started_subset : started ⊆ expanded ∪ waiting
  started_start : ∀ node ∈ started, node ∈ index.starts
  closed : ∀ node ∈ expanded, index.isLeaf node = false →
    ∀ below ∈ index.children node, below ∈ expanded ∪ waiting

section Frontier

variable {index : BKTIndex} {samples : Nat} {layout : index.Layout samples}
  {started expanded waiting : Finset Int} {node : Int}

theorem frontier_empty (layout : index.Layout samples) : Frontier layout ∅ ∅ ∅ where
  disjoint := Finset.disjoint_empty_left ∅
  traversed := fun _ hnode => absurd hnode (Finset.notMem_empty _)
  introduced := fun _ hnode => absurd hnode (Finset.notMem_empty _)
  started_subset := Finset.empty_subset _
  started_start := fun _ hnode => absurd hnode (Finset.notMem_empty _)
  closed := fun _ hnode => absurd hnode (Finset.notMem_empty _)

/-- The nodes that one expansion adds. -/
def newNodes (index : BKTIndex) (node : Int) : Finset Int :=
  if index.isLeaf node then ∅ else (index.children node).toFinset

/-- Only its parent brings a node in. -/
theorem Frontier.newNodes_disjoint (hfrontier : Frontier layout started expanded waiting)
    (hnode : node ∈ waiting) : Disjoint (newNodes index node) (expanded ∪ waiting) := by
  rw [newNodes]
  split
  next => exact Finset.disjoint_empty_left _
  next hinner =>
    rw [Bool.not_eq_true] at hinner
    apply Finset.disjoint_left.mpr
    intro below hbelow hknown
    have hparent : layout.parentOf below = some node :=
      layout.parentOf_child node (hfrontier.traversed node (Finset.mem_union_right _ hnode)) hinner
        below (List.mem_toFinset.mp hbelow)
    rcases hfrontier.introduced below hknown with hstart | ⟨parent, hexpanded, hother⟩
    · rw [layout.parentOf_start below (hfrontier.started_start below hstart)] at hparent
      cases hparent
    · rw [hparent] at hother
      obtain rfl := Option.some.inj hother
      exact Finset.disjoint_left.mp hfrontier.disjoint hexpanded hnode

/-- A node is expanded, and what it leads to waits instead. -/
theorem Frontier.expand (hfrontier : Frontier layout started expanded waiting)
    (hnode : node ∈ waiting) :
    Frontier layout started (insert node expanded) (waiting.erase node ∪ newNodes index node) := by
  have hnew := hfrontier.newNodes_disjoint hnode
  have htraversed := hfrontier.traversed node (Finset.mem_union_right expanded hnode)
  have hgrows : ∀ known ∈ expanded ∪ waiting,
      known ∈ insert node expanded ∪ (waiting.erase node ∪ newNodes index node) := by
    intro known hknown
    by_cases hsame : known = node
    · exact Finset.mem_union_left _ (hsame ▸ Finset.mem_insert_self node expanded)
    · rcases Finset.mem_union.mp hknown with hold | hold
      · exact Finset.mem_union_left _ (Finset.mem_insert_of_mem hold)
      · exact Finset.mem_union_right _
          (Finset.mem_union_left _ (Finset.mem_erase.mpr ⟨hsame, hold⟩))
  -- Everything that is known now was known before or is a child of the node.
  have hcases : ∀ known ∈ insert node expanded ∪ (waiting.erase node ∪ newNodes index node),
      known ∈ expanded ∪ waiting ∨ known ∈ newNodes index node := by
    intro known hknown
    rcases Finset.mem_union.mp hknown with hleft | hright
    · rcases Finset.mem_insert.mp hleft with rfl | hold
      · exact Or.inl (Finset.mem_union_right _ hnode)
      · exact Or.inl (Finset.mem_union_left _ hold)
    · rcases Finset.mem_union.mp hright with hold | hchild
      · exact Or.inl (Finset.mem_union_right _ (Finset.mem_of_mem_erase hold))
      · exact Or.inr hchild
  have hinner : ∀ below ∈ newNodes index node,
      index.isLeaf node = false ∧ below ∈ index.children node := by
    intro below hbelow
    rw [newNodes] at hbelow
    split at hbelow
    next => exact absurd hbelow (Finset.notMem_empty _)
    next hinner => exact ⟨Bool.not_eq_true _ ▸ hinner, List.mem_toFinset.mp hbelow⟩
  refine ⟨?_, ?_, ?_, hfrontier.started_subset.trans hgrows, hfrontier.started_start, ?_⟩
  · apply Finset.disjoint_left.mpr
    intro known hknown hwaits
    have hold : known ∈ expanded ∪ waiting := by
      rcases Finset.mem_insert.mp hknown with rfl | hold
      · exact Finset.mem_union_right _ hnode
      · exact Finset.mem_union_left _ hold
    rcases Finset.mem_union.mp hwaits with herased | hchild
    · obtain ⟨hne, hwaiting⟩ := Finset.mem_erase.mp herased
      rcases Finset.mem_insert.mp hknown with hsame | hexpanded
      · exact hne hsame
      · exact Finset.disjoint_left.mp hfrontier.disjoint hexpanded hwaiting
    · exact Finset.disjoint_left.mp hnew hchild hold
  · intro known hknown
    rcases hcases known hknown with hold | hchild
    · exact hfrontier.traversed known hold
    · obtain ⟨hnotleaf, hbelow⟩ := hinner known hchild
      exact .child htraversed hnotleaf hbelow
  · intro known hknown
    rcases hcases known hknown with hold | hchild
    · rcases hfrontier.introduced known hold with hstart | ⟨parent, hexpanded, hparent⟩
      · exact Or.inl hstart
      · exact Or.inr ⟨parent, Finset.mem_insert_of_mem hexpanded, hparent⟩
    · obtain ⟨hnotleaf, hbelow⟩ := hinner known hchild
      exact Or.inr ⟨node, Finset.mem_insert_self node expanded,
        layout.parentOf_child node htraversed hnotleaf known hbelow⟩
  · intro known hknown hnotleaf below hbelow
    rcases Finset.mem_insert.mp hknown with rfl | hold
    · apply Finset.mem_union_right
      apply Finset.mem_union_right
      rw [newNodes, if_neg (by rw [hnotleaf]; exact Bool.false_ne_true)]
      exact List.mem_toFinset.mpr hbelow
    · exact hgrows below (hfrontier.closed known hold hnotleaf below hbelow)

/-- The search of a further tree begins. -/
theorem Frontier.start (hfrontier : Frontier layout started expanded waiting)
    {more : Finset Int} (hstarts : ∀ node ∈ more, node ∈ index.starts)
    (hmore : Disjoint more started) :
    Disjoint more (expanded ∪ waiting) ∧
      Frontier layout (started ∪ more) expanded (waiting ∪ more) := by
  have hnew : Disjoint more (expanded ∪ waiting) := by
    apply Finset.disjoint_left.mpr
    intro node hnode hknown
    rcases hfrontier.introduced node hknown with hstart | ⟨parent, -, hparent⟩
    · exact Finset.disjoint_left.mp hmore hnode hstart
    · rw [layout.parentOf_start node (hstarts node hnode)] at hparent
      cases hparent
  refine ⟨hnew, ?_⟩
  rw [Finset.disjoint_union_right] at hnew
  have hassoc : expanded ∪ (waiting ∪ more) = (expanded ∪ waiting) ∪ more :=
    (Finset.union_assoc _ _ _).symm
  refine ⟨?_, ?_, ?_, ?_, ?_, ?_⟩
  · rw [Finset.disjoint_union_right]
    exact ⟨hfrontier.disjoint, hnew.1.symm⟩
  · intro node hnode
    rw [hassoc] at hnode
    rcases Finset.mem_union.mp hnode with hold | hstart
    · exact hfrontier.traversed node hold
    · exact .start (hstarts node hstart)
  · intro node hnode
    rw [hassoc] at hnode
    rcases Finset.mem_union.mp hnode with hold | hstart
    · exact (hfrontier.introduced node hold).imp_left (Finset.mem_union_left more)
    · exact Or.inl (Finset.mem_union_right started hstart)
  · rw [hassoc]
    exact Finset.union_subset_union_left hfrontier.started_subset
  · intro node hnode
    rcases Finset.mem_union.mp hnode with hold | hstart
    · exact hfrontier.started_start node hold
    · exact hstarts node hstart
  · intro node hnode hinner below hbelow
    rw [hassoc]
    exact Finset.mem_union_left more (hfrontier.closed node hnode hinner below hbelow)

/-- When nothing waits, every node was expanded. -/
theorem Frontier.complete (hfrontier : Frontier layout started expanded ∅)
    (hstarted : ∀ node ∈ index.starts, node ∈ started) (htraversed : index.Traversed node) :
    node ∈ expanded := by
  induction htraversed with
  | start hstart =>
      have hknown := hfrontier.started_subset (hstarted _ hstart)
      rwa [Finset.union_empty] at hknown
  | child _ hinner hchild ih =>
      have hknown := hfrontier.closed _ ih hinner _ hchild
      rwa [Finset.union_empty] at hknown

end Frontier

/-! ## What was taken off and what waits -/

/-- The samples that were taken off and those that wait: those that were checked, and the
duplicates of those that were taken off. -/
structure Gathered {index : BKTIndex} {samples : Nat} (layout : index.Layout samples)
    (searchDeleted : Bool) (seen taken waiting : Finset Int) : Prop where
  disjoint : Disjoint taken waiting
  sample : ∀ id ∈ taken ∪ waiting, id ∈ BKTIndex.sampleIds samples
  seen_owner : ∀ id ∈ seen, layout.owner id = none
  mem_iff : ∀ id, id ∈ taken ∪ waiting ↔
    id ∈ seen ∨ ∃ other ∈ taken, id ∈ index.duplicates other ∧ index.keeps searchDeleted id

section Gathered

variable {index : BKTIndex} {samples : Nat} {layout : index.Layout samples} {searchDeleted : Bool}
  {seen taken waiting : Finset Int} {id : Int}

theorem gathered_empty (layout : index.Layout samples) (searchDeleted : Bool) :
    Gathered layout searchDeleted ∅ ∅ ∅ where
  disjoint := Finset.disjoint_empty_left ∅
  sample := fun _ hid => absurd hid (Finset.notMem_empty _)
  seen_owner := fun _ hid => absurd hid (Finset.notMem_empty _)
  mem_iff := by
    intro id
    refine iff_of_false (Finset.notMem_empty id) ?_
    rintro (hseen | ⟨other, hother, -⟩)
    · exact Finset.notMem_empty id hseen
    · exact Finset.notMem_empty other hother

/-- A sample of its own that was not checked is new. -/
theorem Gathered.new_of_not_seen (hgathered : Gathered layout searchDeleted seen taken waiting)
    (howner : layout.owner id = none) (hseen : id ∉ seen) : id ∉ taken ∪ waiting := by
  intro hknown
  rcases (hgathered.mem_iff id).mp hknown with hmem | ⟨other, hother, hduplicate, -⟩
  · exact hseen hmem
  · have hsample := hgathered.sample other (Finset.mem_union_left waiting hother)
    rw [(layout.duplicate_mem other hsample id hduplicate).2] at howner
    cases howner

/-- A sample is checked for the first time. -/
theorem Gathered.check (hgathered : Gathered layout searchDeleted seen taken waiting)
    (hsample : id ∈ BKTIndex.sampleIds samples) (howner : layout.owner id = none)
    (hseen : id ∉ seen) :
    Gathered layout searchDeleted (insert id seen) taken (insert id waiting) := by
  have hnew := hgathered.new_of_not_seen howner hseen
  rw [Finset.mem_union, not_or] at hnew
  refine ⟨?_, ?_, ?_, ?_⟩
  · exact Finset.disjoint_insert_right.mpr ⟨hnew.1, hgathered.disjoint⟩
  · intro other hother
    rw [Finset.union_insert] at hother
    rcases Finset.mem_insert.mp hother with rfl | hold
    · exact hsample
    · exact hgathered.sample other hold
  · intro other hother
    rcases Finset.mem_insert.mp hother with rfl | hold
    · exact howner
    · exact hgathered.seen_owner other hold
  · intro other
    rw [Finset.union_insert, Finset.mem_insert, Finset.mem_insert, hgathered.mem_iff, or_assoc]

/-- The duplicates that a sample brings in are new. -/
theorem Gathered.duplicates_new (hgathered : Gathered layout searchDeleted seen taken waiting)
    (hid : id ∈ waiting) {other : Int} (hother : other ∈ index.duplicates id) :
    other ∉ taken ∪ waiting := by
  intro hknown
  have hsample := hgathered.sample id (Finset.mem_union_right taken hid)
  have howner := (layout.duplicate_mem id hsample other hother).2
  rcases (hgathered.mem_iff other).mp hknown with hseen | ⟨first, hfirst, hduplicate, -⟩
  · rw [hgathered.seen_owner other hseen] at howner
    cases howner
  · have hsample' := hgathered.sample first (Finset.mem_union_left waiting hfirst)
    rw [(layout.duplicate_mem first hsample' other hduplicate).2] at howner
    obtain rfl := Option.some.inj howner
    exact Finset.disjoint_left.mp hgathered.disjoint hfirst hid

/-- A sample is taken off, and its duplicates wait. -/
theorem Gathered.take (hgathered : Gathered layout searchDeleted seen taken waiting)
    (hid : id ∈ waiting) :
    Gathered layout searchDeleted seen (insert id taken) (waiting.erase id ∪
      ((index.duplicates id).filter (index.keeps searchDeleted)).toFinset) := by
  have hsample := hgathered.sample id (Finset.mem_union_right taken hid)
  have hsplit : insert id taken ∪ (waiting.erase id ∪
      ((index.duplicates id).filter (index.keeps searchDeleted)).toFinset) =
        (taken ∪ waiting) ∪
          ((index.duplicates id).filter (index.keeps searchDeleted)).toFinset := by
    rw [← Finset.union_assoc, Finset.insert_union, ← Finset.union_insert, Finset.insert_erase hid]
  have hduplicate : ∀ other,
      other ∈ ((index.duplicates id).filter (index.keeps searchDeleted)).toFinset ↔
        other ∈ index.duplicates id ∧ index.keeps searchDeleted other := by
    intro other
    rw [List.mem_toFinset, List.mem_filter]
  refine ⟨?_, ?_, hgathered.seen_owner, ?_⟩
  · apply Finset.disjoint_left.mpr
    intro other hother hwaits
    have hold : other ∈ taken ∪ waiting := by
      rcases Finset.mem_insert.mp hother with rfl | hold
      · exact Finset.mem_union_right taken hid
      · exact Finset.mem_union_left waiting hold
    rcases Finset.mem_union.mp hwaits with herased | hmem
    · obtain ⟨hne, hwaiting⟩ := Finset.mem_erase.mp herased
      rcases Finset.mem_insert.mp hother with hsame | htaken
      · exact hne hsame
      · exact Finset.disjoint_left.mp hgathered.disjoint htaken hwaiting
    · exact hgathered.duplicates_new hid ((hduplicate other).mp hmem).1 hold
  · intro other hother
    rw [hsplit] at hother
    rcases Finset.mem_union.mp hother with hold | hmem
    · exact hgathered.sample other hold
    · exact (layout.duplicate_mem id hsample other ((hduplicate other).mp hmem).1).1
  · intro other
    rw [hsplit, Finset.mem_union, hgathered.mem_iff, hduplicate, or_assoc]
    apply or_congr_right
    constructor
    · rintro (⟨first, hfirst, hmem⟩ | hmem)
      · exact ⟨first, Finset.mem_insert_of_mem hfirst, hmem⟩
      · exact ⟨id, Finset.mem_insert_self id taken, hmem⟩
    · rintro ⟨first, hfirst, hmem⟩
      rcases Finset.mem_insert.mp hfirst with rfl | hold
      · exact Or.inr hmem
      · exact Or.inl ⟨first, hold, hmem⟩

/-- When nothing waits and every center was checked, all samples that are not deleted were taken
off. -/
theorem Gathered.complete (hgathered : Gathered layout searchDeleted seen taken ∅)
    (hcenters : ∀ node, index.Traversed node → index.center node ∈ seen)
    (hsample : id ∈ BKTIndex.sampleIds samples) (hkeeps : index.keeps searchDeleted id = true) :
    id ∈ taken := by
  have hown : ∀ other ∈ BKTIndex.sampleIds samples, layout.owner other = none →
      other ∈ taken := by
    intro other hother howner
    obtain ⟨node, hnode, rfl⟩ := layout.center_of_owner other hother howner
    have hknown := (hgathered.mem_iff _).mpr (Or.inl (hcenters node hnode))
    rwa [Finset.union_empty] at hknown
  cases howner : layout.owner id with
  | none => exact hown id hsample howner
  | some other =>
      obtain ⟨hother, hnone, hduplicate⟩ := layout.duplicate_of_owner id hsample other howner
      have hknown := (hgathered.mem_iff id).mpr
        (Or.inr ⟨other, hown other hother hnone, hduplicate, hkeeps⟩)
      rwa [Finset.union_empty] at hknown

end Gathered

end VBase.Sptag
