import VBase.Sptag.ResultIterator

/-! # Scans with a workspace from the pool

An iterator gets its workspace from a pool and gives it back, and the next one gets it as it
was left. `Reset` is enough for every scan to be on its own: no scan sees what an earlier one
checked, took off or left in the queues.
-/

namespace VBase.Sptag

variable {S D : Type} [LinearOrder D]

/-! ## Visited sets -/

namespace OptHashPosVector

/-- The table holds ids of samples, as the numbers that the source casts them to. -/
def HoldsSamples (samples : Nat) (self : OptHashPosVector) (seen : Finset Int) : Prop :=
  self.HoldsIds (seen.image UInt32.ofInt) ∧ seen ⊆ BKTIndex.sampleIds samples

variable {samples : Nat}

/-- The cast keeps an id, since `SizeType` has no more samples. -/
theorem toNat_ofInt (hsamples : samples < 2 ^ 31) {id : Int}
    (hid : id ∈ BKTIndex.sampleIds samples) : ((UInt32.ofInt id).toNat : Int) = id := by
  obtain ⟨hpos, hlt⟩ := BKTIndex.mem_sampleIds.mp hid
  have hmod : id % 2 ^ 32 = id := Int.emod_eq_of_lt hpos (by omega)
  have hsmall : id.toNat < 2 ^ 32 := by omega
  rw [UInt32.ofInt, hmod, UInt32.toNat_ofNat', Nat.mod_eq_of_lt hsmall]
  exact Int.toNat_of_nonneg hpos

theorem ofInt_add_one_ne_zero (hsamples : samples < 2 ^ 31) {id : Int}
    (hid : id ∈ BKTIndex.sampleIds samples) : UInt32.ofInt id + 1 ≠ 0 := by
  have hnat := toNat_ofInt hsamples hid
  have hlt := (BKTIndex.mem_sampleIds.mp hid).2
  intro hzero
  have hsum := congrArg UInt32.toNat hzero
  rw [UInt32.toNat_add] at hsum
  change ((UInt32.ofInt id).toNat + 1) % 2 ^ 32 = 0 at hsum
  omega

theorem ofInt_mem_image (hsamples : samples < 2 ^ 31) {id : Int} {seen : Finset Int}
    (hid : id ∈ BKTIndex.sampleIds samples) (hseen : seen ⊆ BKTIndex.sampleIds samples) :
    UInt32.ofInt id ∈ seen.image UInt32.ofInt ↔ id ∈ seen := by
  rw [Finset.mem_image]
  constructor
  · rintro ⟨other, hother, heq⟩
    have hsame : other = id := by
      rw [← toNat_ofInt hsamples (hseen hother), heq, toNat_ofInt hsamples hid]
    exact hsame ▸ hother
  · intro hmem
    exact ⟨id, hmem, rfl⟩

/-- The hash table is a set of samples. -/
theorem visited_lawful (hsamples : samples < 2 ^ 31) (depth : Nat) :
    (visited depth).Lawful samples (HoldsSamples samples) where
  clear_holds := fun hholds => ⟨hholds.1.clear, Finset.empty_subset _⟩
  check_holds := by
    intro status seen id there next hholds hid hcheck
    obtain ⟨hids, hseen⟩ := hholds
    obtain ⟨hthere, hnext⟩ := hids.checkAndSet (ofInt_add_one_ne_zero hsamples hid) hcheck
    refine ⟨?_, ?_, Finset.insert_subset hid hseen⟩
    · rw [hthere]
      exact decide_eq_decide.mpr (ofInt_mem_image hsamples hid hseen)
    · rwa [Finset.image_insert]

theorem holdsSamples_init (samples : Nat) {size exp : Nat} (hfits : shifts size + exp ≤ 29) :
    HoldsSamples samples (init size exp hfits) ∅ :=
  ⟨holdsIds_init hfits, Finset.empty_subset _⟩

end OptHashPosVector

/-! ## Workspaces -/

/-- A workspace of the pool, with whatever an earlier search left in it. -/
structure WorkSpace.Ready (index : BKTIndex) (samples : Nat) (maxDist : D)
    (holds : S → Finset Int → Prop) (space : WorkSpace S D) : Prop where
  status : ∃ seen, holds space.nodeCheckStatus seen
  ng : ∃ value, space.ngQueue.Lists value maxDist
  ng_room : samples ≤ space.ngQueue.length
  spt : ∃ value, space.sptQueue.Lists value maxDist
  spt_room : index.treeRoots.length ≤ space.sptQueue.length

section Scans

variable {visited : VisitedSet S} {index : BKTIndex} {samples : Nat}
  {layout : index.Layout samples} {metric : Metric D} {searchDeleted : Bool}
  {holds : S → Finset Int → Prop} {account : Account} {fuel : Nat} {space : WorkSpace S D}

theorem WorkSpace.ready_init {status : S} {seen : Finset Int} (hholds : holds status seen)
    (maxDist : D) {maxCheck : Nat} (hcheck : 0 < maxCheck) (hng : samples ≤ maxCheck * 30)
    (hspt : index.treeRoots.length ≤ maxCheck * 10) :
    (WorkSpace.init status maxDist maxCheck).Ready index samples maxDist holds where
  status := ⟨seen, hholds⟩
  ng := ⟨fun _ => maxDist, Heap.lists_resize _ _ _ (by omega)⟩
  ng_room := hng
  spt := ⟨fun _ => maxDist, Heap.lists_resize _ _ _ (by omega)⟩
  spt_room := hspt

theorem Progress.ready (hprogress : Progress layout metric searchDeleted holds account space) :
    space.Ready index samples metric.maxDist holds where
  status := ⟨_, hprogress.status⟩
  ng := ⟨_, hprogress.ng⟩
  ng_room := hprogress.ng_room
  spt := ⟨_, hprogress.spt⟩
  spt_room := hprogress.spt_room

omit [LinearOrder D] in
theorem nodes_clear (queue : Heap (NodeDistPair D)) : queue.clear.nodes = ∅ := rfl

/-- `Reset` makes a workspace as good as new. -/
theorem WorkSpace.Ready.iterates (hlawful : visited.Lawful samples holds)
    (hready : space.Ready index samples metric.maxDist holds) (layout : index.Layout samples)
    (searchDeleted : Bool) :
    Iterates layout metric searchDeleted holds ⟨∅, ∅, ∅, ∅, ∅⟩
      (getIterator visited metric space) := by
  obtain ⟨seen, hholds⟩ := hready.status
  obtain ⟨ngValue, hng⟩ := hready.ng
  obtain ⟨sptValue, hspt⟩ := hready.spt
  refine ⟨⟨hlawful.clear_holds hholds, hng.clear, hready.ng_room, hspt.clear, hready.spt_room,
    gathered_empty layout searchDeleted, ?_, Finset.disjoint_empty_right _, ?_⟩, rfl, rfl,
    fun _ => rfl, ?_⟩
  · change Frontier layout ∅ ∅ (space.sptQueue.clear.nodes ∪ ∅)
    rw [nodes_clear, Finset.union_empty]
    exact frontier_empty layout
  · intro node hnode
    exact absurd hnode (Finset.notMem_empty node)
  · intro hlater
    exact absurd hlater Bool.true_eq_false.mp

/-! ## Scans -/

/-- The answers of a scan, one for each call: first results that are not deleted, each with its
distance and none twice, then nothing, and nothing only after all of them. -/
def Enumerates (index : BKTIndex) (samples : Nat) (scan : Scan D)
    (answers : List (Option (BasicResult D))) : Prop :=
  ∃ (results : List (BasicResult D)) (idle : Nat),
    answers = results.map some ++ List.replicate idle none ∧
    results.length + idle = scan.calls ∧
    (results.map BasicResult.vid).Nodup ∧
    (∀ result ∈ results,
      result.vid ∈ index.reported scan.searchDeleted (BKTIndex.sampleIds samples) ∧
      result.dist = scan.metric.distance result.vid) ∧
    (0 < idle → (results.map BasicResult.vid).toFinset =
      index.reported scan.searchDeleted (BKTIndex.sampleIds samples))

omit [LinearOrder D] in
/-- A scan with more calls than samples comes to the end. -/
theorem Enumerates.exhausts {scan : Scan D} {answers : List (Option (BasicResult D))}
    (henumerates : Enumerates index samples scan answers) (hcalls : samples < scan.calls) :
    none ∈ answers := by
  obtain ⟨results, idle, rfl, hsum, hnodup, hresults, -⟩ := henumerates
  have hfew : results.length ≤ samples := by
    rw [← List.length_map BasicResult.vid, ← List.toFinset_card_of_nodup hnodup,
      ← BKTIndex.card_sampleIds samples]
    apply Finset.card_le_card
    intro id hid
    obtain ⟨result, hresult, rfl⟩ := List.mem_map.mp (List.mem_toFinset.mp hid)
    exact (Finset.mem_filter.mp (hresults result hresult).1).1
  apply List.mem_append_right
  exact List.mem_replicate.mpr ⟨by omega, rfl⟩

theorem ResultIterator.length_nexts {calls : Nat} {iter after : ResultIterator S D}
    {answers : List (Option (BasicResult D))}
    (hrun : iter.nexts visited index metric searchDeleted fuel calls = some (answers, after)) :
    answers.length = calls := by
  induction calls generalizing iter answers with
  | zero =>
      obtain ⟨rfl, -⟩ := Prod.mk.inj (Option.some.inj hrun)
      exact List.length_nil
  | succ calls ih =>
      obtain ⟨⟨answer, middle⟩, -, hrest⟩ := Option.bind_eq_some_iff.mp hrun
      obtain ⟨⟨others, last⟩, hothers, hends⟩ := Option.map_eq_some_iff.mp hrest
      obtain ⟨rfl, rfl⟩ := Prod.mk.inj hends
      rw [List.length_cons, ih hothers]

/-- One scan leaves a workspace for the next. -/
theorem WorkSpace.Ready.nexts (layout : index.Layout samples)
    (hlawful : visited.Lawful samples holds)
    (hinitial : 0 < index.initialDynamicPivots) (hpivots : 0 < index.otherDynamicPivots)
    {scan : Scan D}
    (hnear : ∀ id ∈ BKTIndex.sampleIds samples, scan.metric.distance id < scan.metric.maxDist)
    (hready : space.Ready index samples scan.metric.maxDist holds)
    {answers : List (Option (BasicResult D))} {after : ResultIterator S D}
    (hrun : (getIterator visited scan.metric space).nexts visited index scan.metric
      scan.searchDeleted fuel scan.calls = some (answers, after)) :
    Enumerates index samples scan answers ∧
      after.space.Ready index samples scan.metric.maxDist holds := by
  obtain ⟨account, results, idle, hafter, hanswers, hnodup, hresults, hidle⟩ :=
    (hready.iterates hlawful layout scan.searchDeleted).nexts hlawful hinitial hpivots hnear hrun
  refine ⟨⟨results, idle, hanswers, ?_, hnodup, ?_, ?_⟩, hafter.progress.ready⟩
  · rw [← ResultIterator.length_nexts hrun, hanswers, List.length_append, List.length_map,
      List.length_replicate]
  · intro result hresult
    obtain ⟨hmem, -, hdist⟩ := hresults result hresult
    exact ⟨hmem, hdist⟩
  · intro hpos
    have hall := hidle hpos
    rwa [BKTIndex.reported, Finset.filter_empty, Finset.empty_union] at hall

/-- Any scans, with what they need of the distances. -/
theorem WorkSpace.Ready.scanAll (layout : index.Layout samples)
    (hlawful : visited.Lawful samples holds)
    (hinitial : 0 < index.initialDynamicPivots) (hpivots : 0 < index.otherDynamicPivots)
    {maxDist : D} {scans : List (Scan D)}
    (hnear : ∀ scan ∈ scans, scan.metric.maxDist = maxDist ∧
      ∀ id ∈ BKTIndex.sampleIds samples, scan.metric.distance id < maxDist)
    (hready : space.Ready index samples maxDist holds)
    {answers : List (List (Option (BasicResult D)))} {after : WorkSpace S D}
    (hrun : scanAll visited index fuel scans space = some (answers, after)) :
    List.Forall₂ (Enumerates index samples) scans answers := by
  induction scans generalizing space answers with
  | nil =>
      obtain ⟨rfl, -⟩ := Prod.mk.inj (Option.some.inj hrun)
      exact List.Forall₂.nil
  | cons scan rest ih =>
      obtain ⟨⟨first, iter⟩, hfirst, hrest⟩ := Option.bind_eq_some_iff.mp hrun
      obtain ⟨⟨others, last⟩, hothers, heq⟩ := Option.map_eq_some_iff.mp hrest
      obtain ⟨rfl, rfl⟩ := Prod.mk.inj heq
      obtain ⟨rfl, hclose⟩ := hnear scan List.mem_cons_self
      obtain ⟨henumerates, hnext⟩ := hready.nexts layout hlawful hinitial hpivots hclose hfirst
      apply List.Forall₂.cons henumerates
      exact ih (fun other hother => hnear other (List.mem_cons_of_mem _ hother)) hnext hothers

/-- However often a workspace that was initialised once is used again, every scan with it
enumerates the samples that its own query may see. -/
theorem scans_enumerate (layout : index.Layout samples) (hsamples : samples < 2 ^ 31)
    (hinitial : 0 < index.initialDynamicPivots) (hpivots : 0 < index.otherDynamicPivots)
    {maxDist : D} {scans : List (Scan D)}
    (hnear : ∀ scan ∈ scans, scan.metric.maxDist = maxDist ∧
      ∀ id ∈ BKTIndex.sampleIds samples, scan.metric.distance id < maxDist)
    {maxCheck hashExp : Nat} (hcheck : 0 < maxCheck)
    (hfits : OptHashPosVector.shifts maxCheck + hashExp ≤ 29) (hng : samples ≤ maxCheck * 30)
    (hspt : index.treeRoots.length ≤ maxCheck * 10) {depth : Nat}
    {answers : List (List (Option (BasicResult D)))} {after : WorkSpace OptHashPosVector D}
    (hrun : scanAll (OptHashPosVector.visited depth) index fuel scans
      (WorkSpace.init (OptHashPosVector.init maxCheck hashExp hfits) maxDist maxCheck) =
        some (answers, after)) :
    List.Forall₂ (Enumerates index samples) scans answers := by
  have hholds := OptHashPosVector.holdsSamples_init samples hfits
  have hready := WorkSpace.ready_init hholds maxDist hcheck hng hspt
  exact hready.scanAll layout (OptHashPosVector.visited_lawful hsamples depth) hinitial hpivots
    hnear hrun

/-- Two samples, a duplicate of the first one, and the second one deleted. -/
def smallIndex : BKTIndex where
  treeStart := [0]
  treeRoots := [⟨3, 1, 3⟩, ⟨0, -3, 4⟩, ⟨1, -1, -1⟩, ⟨2, -1, -1⟩]
  bfs := false
  neighborhoodSize := 2
  graph := fun id => if id = 0 then [1, -3] else if id = 1 then [0, -1] else [-1, -1]
  deletedID := {1}
  initialDynamicPivots := 1
  otherDynamicPivots := 1

theorem smallIndex_traversed {node : Int} (hnode : smallIndex.Traversed node) :
    node = 1 ∨ node = 2 := by
  induction hnode with
  | start hstart =>
      have hstarts : smallIndex.starts = [1, 2] := by decide
      rw [hstarts] at hstart
      simpa using hstart
  | child _ hinner _ ih =>
      rcases ih with rfl | rfl
      · exact absurd hinner (by decide)
      · exact absurd hinner (by decide)

def smallLayout : smallIndex.Layout 3 where
  parentOf := fun _ => none
  owner := fun id => if id = 2 then some 0 else none
  starts_nodup := by decide
  parentOf_start := fun _ _ => rfl
  parentOf_child := by
    intro node hnode hinner
    rcases smallIndex_traversed hnode with rfl | rfl
    · exact absurd hinner (by decide)
    · exact absurd hinner (by decide)
  traversed_mem := by
    intro node hnode
    rcases smallIndex_traversed hnode with rfl | rfl
    · decide
    · decide
  center_mem := by
    intro node hnode
    rcases smallIndex_traversed hnode with rfl | rfl
    · decide
    · decide
  neighbor_mem := by decide
  duplicates_nodup := by decide
  duplicate_mem := by decide
  center_of_owner := by
    intro id hid howner
    have hcenter : id = 0 ∨ id = 1 := by
      obtain ⟨hpos, hlt⟩ := BKTIndex.mem_sampleIds.mp hid
      have hne : id ≠ 2 := by
        rintro rfl
        exact absurd howner (by decide)
      omega
    rcases hcenter with rfl | rfl
    · exact ⟨1, .start (by decide), by decide⟩
    · exact ⟨2, .start (by decide), by decide⟩
  duplicate_of_owner := by
    intro id hid other howner
    have htwo : id = 2 := by
      by_contra hne
      rw [if_neg hne] at howner
      cases howner
    subst htwo
    obtain rfl := Option.some.inj howner
    decide

/-- Distances to a query next to the second sample. -/
def smallMetric : Metric Nat where
  distance := fun id => if id = 1 then 1 else 4
  maxDist := 100
  far := 1000
  scale := fun dist => dist + dist / 10

/-- One scan without and one with deleted samples. -/
def smallScans : List (Scan Nat) := [⟨smallMetric, false, 3⟩, ⟨smallMetric, true, 2⟩]

/-- The table of the source, initialised for one check. -/
def smallSpace : WorkSpace OptHashPosVector Nat :=
  WorkSpace.init (OptHashPosVector.init 1 2 (by decide)) 100 1

theorem smallScans_near : ∀ scan ∈ smallScans, scan.metric.maxDist = 100 ∧
    ∀ id ∈ BKTIndex.sampleIds 3, scan.metric.distance id < 100 := by
  decide

theorem scans_enumerate_small :
    (scanAll (OptHashPosVector.visited 3) smallIndex 8 smallScans smallSpace).isSome = true ∧
      ∃ answers after,
        scanAll (OptHashPosVector.visited 3) smallIndex 8 smallScans smallSpace =
          some (answers, after) ∧
        List.Forall₂ (Enumerates smallIndex 3) smallScans answers := by
  have hreturns :
      (scanAll (OptHashPosVector.visited 3) smallIndex 8 smallScans smallSpace).isSome = true := by
    decide +kernel
  refine ⟨hreturns, ?_⟩
  obtain ⟨⟨answers, after⟩, hrun⟩ := Option.isSome_iff_exists.mp hreturns
  exact ⟨answers, after, hrun, scans_enumerate smallLayout (by decide) (by decide) (by decide)
    smallScans_near (by decide) (by decide) (by decide) (by decide) hrun⟩

end Scans

end VBase.Sptag
