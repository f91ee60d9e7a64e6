import VBase.Hnsw.Insertion

/-! # New data for an element

`updatePoint` replaces the vector of an element. On every layer of the element it chooses
the links of the neighbours anew, from what is at most two links away, and then connects
the element like a new one, only that its lists are in use already. The graph stays linked,
and nothing in here throws: the search may find the element alone, and is then left out.
-/

namespace VBase.Hnsw.Graph

open PriorityQueue Command

variable {Q : {T K : Type} → [LinearOrder K] → (T → K) → Type} [PriorityQueue Q]
variable {D : Type}

/-! ## Gathering -/

/-- The sets around an element: candidates of its layer, and neighbours among its links. -/
structure Gathered (graph : Graph D) (internalId layer : Nat) (around : Around) : Prop where
  cand_nodup : around.sCand.Nodup
  cand_at : ∀ cand ∈ around.sCand, graph.At layer cand
  neigh_mem : ∀ neigh ∈ around.sNeigh, neigh ∈ graph.links internalId layer

section

variable {graph : Graph D} {internalId layer : Nat}

theorem foldl_insert_nodup (ids : List Nat) {sCand : List Nat} (hnodup : sCand.Nodup) :
    (ids.foldl (fun sCand elTwoHop => sCand.insert elTwoHop) sCand).Nodup := by
  induction ids generalizing sCand with
  | nil => exact hnodup
  | cons id rest ih => exact ih (hnodup.insert)

theorem mem_foldl_insert {ids sCand : List Nat} {cand : Nat} :
    cand ∈ ids.foldl (fun sCand elTwoHop => sCand.insert elTwoHop) sCand ↔
      cand ∈ sCand ∨ cand ∈ ids := by
  induction ids generalizing sCand with
  | nil => simp
  | cons id rest ih =>
      rw [List.foldl_cons, ih, List.mem_insert_iff, List.mem_cons]
      tauto

theorem Gathered.hop (hlinked : graph.Linked) {around : Around}
    (hid : graph.At layer internalId) (hgathered : graph.Gathered internalId layer around)
    (draws : Draws) {hop : Nat × Nat} (hhop : hop.1 ∈ graph.links internalId layer) :
    graph.Gathered internalId layer (graph.gatherHop draws layer around hop) := by
  have hat := hlinked.closed layer internalId hid hop.1 hhop
  have hnodup : (around.sCand.insert hop.1).Nodup := hgathered.cand_nodup.insert
  have hcand : ∀ cand ∈ around.sCand.insert hop.1, graph.At layer cand := by
    intro cand hmem
    rcases List.mem_insert_iff.mp hmem with rfl | hold
    · exact hat
    · exact hgathered.cand_at cand hold
  unfold gatherHop
  split
  · exact ⟨hnodup, hcand, hgathered.neigh_mem⟩
  · refine ⟨foldl_insert_nodup _ hnodup, ?_, ?_⟩
    · intro cand hmem
      rcases mem_foldl_insert.mp hmem with hold | htwo
      · exact hcand cand hold
      · exact hlinked.closed layer hop.1 hat cand htwo
    · intro neigh hmem
      rcases List.mem_insert_iff.mp hmem with rfl | hold
      · exact hhop
      · exact hgathered.neigh_mem neigh hold

theorem gather_gathered (hlinked : graph.Linked) (hid : graph.At layer internalId)
    (draws : Draws) :
    graph.Gathered internalId layer (graph.gather draws internalId layer) := by
  have hpass : ∀ (hops : List (Nat × Nat)) (around : Around),
      (∀ hop ∈ hops, hop.1 ∈ graph.links internalId layer) →
      graph.Gathered internalId layer around →
      graph.Gathered internalId layer (hops.foldl (graph.gatherHop draws layer) around) := by
    intro hops
    induction hops with
    | nil => exact fun _ _ hgathered => hgathered
    | cons hop rest ih =>
        intro around hhops hgathered
        exact ih _ (fun other hother => hhops other (List.mem_cons_of_mem _ hother))
          (hgathered.hop hlinked hid draws (hhops hop List.mem_cons_self))
  refine hpass _ _ (fun hop hhop => List.fst_mem_of_mem_zipIdx hhop) ⟨by simp, ?_, by simp⟩
  intro cand hmem
  exact List.mem_singleton.mp hmem ▸ hid

end

variable [LinearOrder D]

/-! ## The links of the neighbours -/

section

variable {graph : Graph D} {layer neigh : Nat}

/-- The candidates for a neighbour come from the set, each at most once, without itself. -/
theorem closestAround_ids (graph : Graph D) (draws : Draws) (sCand : List Nat) (neigh : Nat) :
    (elems (graph.closestAround draws sCand neigh : Q (Prod.fst : D × Nat → D))).map Prod.snd ≤
      ↑(sCand.filter fun cand => cand ≠ neigh) := by
  have hpass : ∀ (keep : Nat) (ids : List Nat) (queue : Q (Prod.fst : D × Nat → D)),
      (elems (ids.foldl (fun candidates cand =>
        if cand = neigh then candidates
        else if accepts keep candidates (graph.between neigh cand, cand) then
          pushBounded keep candidates (graph.between neigh cand, cand)
        else candidates) queue)).map Prod.snd ≤
      (elems queue).map Prod.snd + ↑(ids.filter fun cand => cand ≠ neigh) := by
    intro keep ids
    induction ids with
    | nil => exact fun queue => by simp
    | cons cand rest ih =>
        intro queue
        rw [List.foldl_cons]
        refine (ih _).trans ?_
        by_cases hself : cand = neigh
        · simp [hself]
        · rw [if_neg hself, List.filter_cons_of_pos (by simpa using hself), ← Multiset.cons_coe,
            Multiset.add_cons, ← Multiset.cons_add]
          refine add_le_add_left ?_ _
          split
          next haccepts =>
            have hle := Multiset.map_le_map (f := Prod.snd) (elems_pushBounded_le haccepts)
            rwa [Multiset.map_cons] at hle
          next => exact Multiset.le_cons_self _ _
  have hperm := (draws.traverse_perm sCand).filter fun cand => cand ≠ neigh
  unfold closestAround
  refine (hpass _ _ _).trans ?_
  rw [elems_empty, Multiset.map_zero, zero_add, Multiset.coe_eq_coe.mpr hperm]

theorem relink_yields (hlinked : graph.Linked) (draws : Draws) {sCand : List Nat}
    (hnodup : sCand.Nodup) (hat : ∀ cand ∈ sCand, graph.At layer cand) (neigh : Nat) :
    Yields (relink Q draws layer sCand neigh) graph
      (fun _ after => after.Linked ∧ Relinked {layer} graph after) (fun _ _ => False) := by
  have hids := closestAround_ids (Q := Q) graph draws sCand neigh
  have hlists : graph.Lists layer neigh (selectedIds graph.between
      (graph.closestAround draws sCand neigh : Q (Prod.fst : D × Nat → D))
      (graph.Mcurmax layer)) := by
    have hmem : ∀ id ∈ selectedIds graph.between
        (graph.closestAround draws sCand neigh : Q (Prod.fst : D × Nat → D))
        (graph.Mcurmax layer), id ∈ sCand ∧ id ≠ neigh := by
      intro id hid
      obtain ⟨candidate, hcandidate, rfl⟩ := mem_selectedIds hid
      have hsnd := Multiset.mem_of_le hids (Multiset.mem_map_of_mem Prod.snd hcandidate)
      simpa using hsnd
    refine ⟨length_selectedIds_le _ _ _, selectedIds_nodup _ _ ?_, ?_, ?_⟩
    · exact Multiset.nodup_of_le hids (Multiset.coe_nodup.mpr (hnodup.filter _))
    · exact fun hself => (hmem neigh hself).2 rfl
    · exact fun link hlink => hat link (hmem link hlink).1
  simp only [relink, yields_bind, yields_get, yields_set]
  refine ⟨hlinked.setLinklist ?_, relinked_setLinklist (by simp)⟩
  rwa [LinkList.links_write _ (hlists.length_le.trans_lt (hlinked.room_lt layer))]

theorem relinkLayer_yields (hlinked : graph.Linked) (draws : Draws) {internalId : Nat}
    (hid : graph.At layer internalId) :
    Yields (relinkLayer Q draws internalId layer) graph
      (fun _ after => after.Linked ∧ Relinked {layer} graph after) (fun _ _ => False) := by
  have hgathered := gather_gathered hlinked hid draws
  simp only [relinkLayer, yields_bind, yields_get]
  split
  · exact ⟨hlinked, Relinked.refl _ _⟩
  · refine yields_forM
      (motive := fun _ state => state.Linked ∧ Relinked {layer} graph state) ?_
      ⟨hlinked, Relinked.refl _ _⟩
    rintro _ neigh _ state _ ⟨hstate, hrelinked⟩
    refine (relink_yields hstate draws hgathered.cand_nodup ?_ neigh).imp ?_ fun _ _ h => h
    · exact fun cand hmem => hrelinked.at_iff.mpr (hgathered.cand_at cand hmem)
    · exact fun _ _ ⟨hafter, hstep⟩ => ⟨hafter, hrelinked.trans hstep⟩

end

/-! ## Connecting the element again -/

section

variable {graph : Graph D} {dataPoint : List D} {entry internalId : Nat}

/-- One level of the repair. `count` levels are still to come. -/
theorem repairAt_yields {updated : Graph D} {currObj level maxLevel : Nat}
    (hlinked : graph.Linked) (hrelinked : Relinked Set.univ updated graph)
    (hentry : updated.At maxLevel entry) (hlevel : level ≤ maxLevel)
    (hid : updated.At level internalId) (halive : updated.isMarkedDeleted internalId = false)
    (hstart : updated.At level currObj) :
    Yields (repairAt Q dataPoint entry internalId currObj level) graph
      (fun next after => after.Linked ∧ Relinked Set.univ updated after ∧ updated.At level next)
      (fun _ _ => False) := by
  simp only [repairAt, yields_bind]
  refine (searchCommand_yields hlinked (hrelinked.at_iff.mpr hstart) dataPoint).imp
    ?_ fun _ _ h => h
  rintro topCandidates searched ⟨hsearched, hpool, hfound, -⟩
  have hall := hrelinked.trans (hpool.mono (Set.empty_subset _))
  generalize hfilter : (pushAll PriorityQueue.empty ((drain topCandidates).filter
    fun found => found.2 ≠ internalId) : Q (Prod.fst : D × Nat → D)) = filtered
  have helems : elems filtered = (elems topCandidates).filter fun found => found.2 ≠ internalId := by
    rw [← hfilter, elems_pushAll, elems_empty, zero_add, ← coe_drain topCandidates,
      Multiset.filter_coe]
  have hfiltered := hfound.of_le (helems ▸ Multiset.filter_le _ _)
  split
  next hsome =>
    have hcandidates : searched.Candidates level internalId
        (searched.addEntry dataPoint entry filtered) := by
      refine Candidates.addEntry ⟨?_, ?_, hfiltered.nodup⟩ ?_
        (hall.at_iff.mpr (hentry.mono hlevel)) ?_
      · exact fun found hmem => hpool.at_iff.mpr (hfiltered.arrived found hmem).1
      · intro found hmem
        rw [helems] at hmem
        exact (Multiset.mem_filter.mp hmem).2
      · intro found hmem
        rw [hpool.marks]
        exact hfiltered.undeleted found hmem
      · rintro hdeleted rfl
        rw [hall.marks, halive] at hdeleted
        cases hdeleted
    refine (mutuallyConnectNewElement_yields hsearched (hall.at_iff.mpr hid) hcandidates
      (by simp)).imp ?_ ?_
    · rintro next after ⟨hafter, hstep, hnext, -⟩
      exact ⟨hafter, hall.trans (hstep.mono (Set.subset_univ _)), hall.at_iff.mp hnext⟩
    · rintro _ _ ⟨-, hnone⟩
      have hsize : size filtered ≤ searched.efConstruction := by
        rw [hpool.others]
        exact hfiltered.size_le
      have hpos := size_addEntry_pos hsearched.ef_pos hsize hsome dataPoint entry
      omega
  next => exact ⟨hsearched, hall, hstart⟩

theorem repairConnectionsForUpdate_yields {updated : Graph D} {maxLevel : Nat}
    (hlinked : graph.Linked) (hrelinked : Relinked Set.univ updated graph)
    (hcount : updated.curElementCount ≤ updated.maxElements) (hentry : updated.At maxLevel entry)
    (hid : internalId < updated.curElementCount)
    (hlevel : updated.elementLevels internalId ≤ maxLevel)
    (halive : updated.isMarkedDeleted internalId = false) :
    Yields (repairConnectionsForUpdate Q dataPoint entry internalId
        (updated.elementLevels internalId) maxLevel) graph
      (fun _ after => after.Linked ∧ Relinked Set.univ updated after) (fun _ _ => False) := by
  have hloop : ∀ currObj, updated.At (updated.elementLevels internalId) currObj →
      Yields ((List.range (updated.elementLevels internalId + 1)).reverse.foldlM
        (repairAt Q dataPoint entry internalId) currObj) graph
        (fun _ after => after.Linked ∧ Relinked Set.univ updated after) (fun _ _ => False) := by
    intro currObj hstart
    refine Yields.imp (yields_countdown (motive := fun count currObj state =>
        state.Linked ∧ Relinked Set.univ updated state ∧
        count ≤ updated.elementLevels internalId + 1 ∧ updated.At (count - 1) currObj) ?_ _
      ⟨hlinked, hrelinked, le_rfl, hstart⟩) (fun _ _ h => ⟨h.1, h.2.1⟩) fun _ _ h => h
    rintro level currObj state ⟨hstate, hold, hle, hat⟩
    refine (repairAt_yields hstate hold hentry (by omega) ⟨hid, by omega⟩ halive hat).imp ?_
      fun _ _ h => h
    rintro next after ⟨hafter, hnew, hnext⟩
    exact ⟨hafter, hnew, by omega, hnext.mono (Nat.sub_le level 1)⟩
  have hlow : ¬ ((maxLevel : Int) < (updated.elementLevels internalId : Int)) := by omega
  simp only [repairConnectionsForUpdate, yields_bind, yields_get, if_neg hlow]
  split
  next hlower =>
    obtain ⟨currObj, hdescend, hat⟩ := descendTo_ok dataPoint false
      (by rw [hrelinked.others]; exact hcount) hlinked.closed
      (by omega : updated.elementLevels internalId < maxLevel) (hrelinked.at_iff.mpr hentry)
    simp only [Int.toNat_natCast, hdescend, Construction.lift, yields_bind, yields_pure]
    exact hloop currObj ((hrelinked.at_iff.mp hat).mono (Nat.le_succ _))
  next =>
    simp only [yields_bind, yields_pure]
    exact hloop entry (hentry.mono hlevel)

omit [LinearOrder D] in
theorem Linked.setData (hlinked : graph.Linked) (id : Nat) (dataPoint : List D) :
    (graph.setData id dataPoint).Linked where
  M_pos := hlinked.M_pos
  ef_pos := hlinked.ef_pos
  M_le := hlinked.M_le
  room_lt := hlinked.room_lt
  lists := fun level other hother =>
    have hlists := hlinked.lists level other hother
    ⟨hlists.length_le, hlists.nodup, hlists.ne_self, hlists.at_level⟩
  pool := hlinked.pool

/-- Replacing the data of an element keeps the graph linked and never throws. -/
theorem updatePoint_yields (hlinked : graph.Linked)
    (hcount : graph.curElementCount ≤ graph.maxElements) {maxLevel : Nat}
    (hmaxlevel : graph.maxlevel = maxLevel) (hpoint : graph.enterpointNode = some entry)
    (hentry : graph.At maxLevel entry) (hid : internalId < graph.curElementCount)
    (hlevel : graph.elementLevels internalId ≤ maxLevel)
    (halive : graph.isMarkedDeleted internalId = false) (draws : Draws) (dataPoint : List D) :
    Yields (updatePoint Q draws dataPoint internalId) graph
      (fun _ after => after.Linked ∧ Relinked Set.univ (graph.setData internalId dataPoint) after)
      (fun _ _ => False) := by
  have hupdated := hlinked.setData internalId dataPoint
  simp only [updatePoint, yields_bind, yields_modify, yields_get]
  split
  · exact ⟨hupdated, Relinked.refl _ _⟩
  · have hlayers : Yields ((List.range (graph.elementLevels internalId + 1)).forM
        (relinkLayer Q draws internalId)) (graph.setData internalId dataPoint)
        (fun _ after => after.Linked ∧
          Relinked Set.univ (graph.setData internalId dataPoint) after) (fun _ _ => False) := by
      refine yields_forM (motive := fun _ state => state.Linked ∧
        Relinked Set.univ (graph.setData internalId dataPoint) state) ?_
        ⟨hupdated, Relinked.refl _ _⟩
      rintro seen layer rest state hsplit ⟨hstate, hrelinked⟩
      have hmem : layer ∈ List.range (graph.elementLevels internalId + 1) := by
        rw [← hsplit]
        simp
      have hat : (graph.setData internalId dataPoint).At layer internalId :=
        ⟨hid, Nat.le_of_lt_succ (List.mem_range.mp hmem)⟩
      refine (relinkLayer_yields hstate draws (hrelinked.at_iff.mpr hat)).imp ?_ fun _ _ h => h
      exact fun _ _ ⟨hafter, hstep⟩ =>
        ⟨hafter, hrelinked.trans (hstep.mono (Set.subset_univ _))⟩
    rw [yields_bind]
    refine hlayers.imp ?_ fun _ _ h => h
    rintro _ relinked ⟨hstate, hrelinked⟩
    have hsame : (graph.setData internalId dataPoint).enterpointNode = some entry := hpoint
    have hlevels : (graph.setData internalId dataPoint).maxlevel = maxLevel := hmaxlevel
    simp only [hsame, hlevels]
    exact repairConnectionsForUpdate_yields hstate hrelinked hcount hentry hid hlevel halive

end

end VBase.Hnsw.Graph
