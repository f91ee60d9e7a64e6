import VBase.Hnsw.Linking

/-! # Inserting an element

A new element is placed with blank lists and connected level by level, from the highest
that both it and the graph have down to the base layer. On every level that is still to
come nothing links to it yet, so the search there does not find it. Each level hands the
next one an element to start from.
-/

namespace VBase.Hnsw.Graph

open PriorityQueue Command

variable {Q : {T K : Type} → [LinearOrder K] → (T → K) → Type} [PriorityQueue Q]
variable {D : Type}

/-- Some element is marked deleted. -/
def HasDeleted (graph : Graph D) : Prop :=
  ∃ id < graph.curElementCount, graph.isMarkedDeleted id = true

theorem At.mono {graph : Graph D} {level lower id : Nat} (hat : graph.At level id)
    (hlower : lower ≤ level) : graph.At lower id :=
  ⟨hat.1, hlower.trans hat.2⟩

/-- A level whose lists have not changed is as fresh as before. -/
theorem Relinked.fresh {levels : Set Nat} {graph after : Graph D} {level curC : Nat}
    (hrelinked : Relinked levels graph after) (hlevel : level ∉ levels)
    (hfresh : graph.Fresh level curC) : after.Fresh level curC where
  blank := by
    rw [hrelinked.untouched curC level hlevel]
    exact hfresh.blank
  unlinked := by
    intro id hid
    rw [links, hrelinked.untouched id level hlevel]
    exact hfresh.unlinked id (hrelinked.at_iff.mp hid)

variable [LinearOrder D]

/-! ## Candidates -/

section

variable {graph : Graph D} {query : List D} {level curC entry : Nat}
  {topCandidates : Q (Prod.fst : D × Nat → D)}

/-- A search changes nothing but the pool of visited lists. -/
theorem searchCommand_yields (hlinked : graph.Linked) (hentry : graph.At level entry)
    (query : List D) :
    Yields (searchCommand entry query level) graph
      (fun (topCandidates : Q (Prod.fst : D × Nat → D)) after => after.Linked ∧
        Relinked ∅ graph after ∧ graph.Found query level entry topCandidates ∧
        (graph.isMarkedDeleted entry = false → 0 < size topCandidates))
      (fun _ _ => False) := by
  obtain ⟨hfound, hsome, hpool⟩ := searchBaseLayer_found (Q := Q) hlinked.ef_pos
    (hlinked.closed level) hentry query hlinked.pool
  simp only [searchCommand, yields_bind, yields_get, yields_set, yields_pure]
  refine ⟨⟨hlinked.M_pos, hlinked.ef_pos, hlinked.M_le, hlinked.room_lt, ?_, hpool⟩,
    ⟨rfl, fun _ => rfl, fun _ _ _ => rfl⟩, hfound, hsome⟩
  intro layer id hid
  have hlists := hlinked.lists layer id hid
  exact ⟨hlists.length_le, hlists.nodup, hlists.ne_self, hlists.at_level⟩

/-- The entry point joins the candidates if it is deleted, when no search has found it. -/
theorem Candidates.addEntry (hcandidates : graph.Candidates level curC topCandidates)
    (hundeleted : ∀ found ∈ elems topCandidates, graph.isMarkedDeleted found.2 = false)
    (hentry : graph.At level entry)
    (hne : graph.isMarkedDeleted entry = true → entry ≠ curC) :
    graph.Candidates level curC (graph.addEntry query entry topCandidates) := by
  unfold Graph.addEntry
  split
  next hdeleted =>
    have hle := elems_trim_le graph.efConstruction (push topCandidates (graph.neighbor query entry))
    have hmem : ∀ found ∈ elems (if graph.efConstruction <
        size (push topCandidates (graph.neighbor query entry)) then
          pop (push topCandidates (graph.neighbor query entry))
        else push topCandidates (graph.neighbor query entry)),
        found = graph.neighbor query entry ∨ found ∈ elems topCandidates := by
      intro found hfound
      have hpushed := Multiset.mem_of_le hle hfound
      rwa [elems_push, Multiset.mem_cons] at hpushed
    refine ⟨?_, ?_, Multiset.nodup_of_le (Multiset.map_le_map hle) ?_⟩
    · intro found hfound
      rcases hmem found hfound with rfl | hold
      · exact hentry
      · exact hcandidates.at_level found hold
    · intro found hfound
      rcases hmem found hfound with rfl | hold
      · exact hne hdeleted
      · exact hcandidates.ne found hold
    · rw [elems_push, Multiset.map_cons, Multiset.nodup_cons]
      refine ⟨?_, hcandidates.nodup⟩
      intro hold
      obtain ⟨found, hfound, heq⟩ := Multiset.mem_map.mp hold
      have halive := hundeleted found hfound
      rw [show found.2 = entry from heq, hdeleted] at halive
      cases halive
  next => exact hcandidates

theorem size_addEntry_pos (hef : 0 < graph.efConstruction)
    (hsize : size topCandidates ≤ graph.efConstruction) (hsome : 0 < size topCandidates)
    (query : List D) (entry : Nat) : 0 < size (graph.addEntry query entry topCandidates) := by
  unfold addEntry
  split
  · simp only
    rw [size_trim _ (by rw [size_push]; omega), size_push]
    omega
  · exact hsome

/-- What a search finds may be linked to an element that it cannot have met. -/
theorem Found.candidates {start : Nat} (hfound : graph.Found query level start topCandidates)
    (hstart : start ≠ curC) (hunlinked : ∀ id, graph.At level id → curC ∉ graph.links id level) :
    graph.Candidates level curC topCandidates where
  at_level := fun found hmem => (hfound.arrived found hmem).1
  nodup := hfound.nodup
  ne := by
    rintro found hmem rfl
    rcases (hfound.arrived found hmem).2 with heq | ⟨source, hsource, hlink⟩
    · exact hstart heq.symm
    · exact hunlinked source hsource hlink

end

/-! ## Level by level -/

section

variable {placed : Graph D} {dataPoint : List D} {curC curlevel enterpointCopy maxlevelcopy : Nat}

/-- A graph with a new element that is not connected yet. -/
structure Placed (placed : Graph D) (curC curlevel enterpointCopy maxlevelcopy : Nat) : Prop where
  linked : placed.Linked
  count_le : placed.curElementCount ≤ placed.maxElements
  cur_lt : curC < placed.curElementCount
  cur_level : placed.elementLevels curC = curlevel
  fresh : ∀ level ≤ curlevel, placed.Fresh level curC
  entry : placed.At maxlevelcopy enterpointCopy
  entry_ne : enterpointCopy ≠ curC

/-- The loop over the levels: those from `count` on are connected, and the next search starts
at an old element. -/
structure Connecting (placed : Graph D) (curC curlevel maxlevelcopy count currObj : Nat)
    (state : Graph D) : Prop where
  linked : state.Linked
  relinked : Relinked {level | count ≤ level} placed state
  count_le : count ≤ min curlevel maxlevelcopy + 1
  start_at : 0 < count → placed.At (count - 1) currObj
  start_ne : currObj ≠ curC

/-- One level is connected. It may lack a candidate only if an element is deleted. -/
theorem connectAt_yields (hplaced : Placed placed curC curlevel enterpointCopy maxlevelcopy)
    {level currObj : Nat} {state : Graph D}
    (hstate : Connecting placed curC curlevel maxlevelcopy (level + 1) currObj state) :
    Yields (connectAt Q dataPoint curC enterpointCopy maxlevelcopy currObj level) state
      (fun next after => Connecting placed curC curlevel maxlevelcopy level next after)
      (fun failure _ => failure = .undefined ∧ placed.HasDeleted) := by
  have hlevel : level ≤ curlevel ∧ level ≤ maxlevelcopy := by
    have hcount := hstate.count_le
    omega
  have hfresh := hstate.relinked.fresh (by simp) (hplaced.fresh level hlevel.1)
  have hstart : placed.At level currObj := hstate.start_at (Nat.succ_pos level)
  have hguard : ¬ ((maxlevelcopy : Int) < (level : Int)) := by omega
  simp only [connectAt, if_neg hguard, yields_bind, yields_get]
  refine (searchCommand_yields hstate.linked (hstate.relinked.at_iff.mpr hstart) dataPoint).imp
    ?_ fun _ _ h => h.elim
  rintro topCandidates searched ⟨hsearched, hpool, hfound, hsome⟩
  have hall := hstate.relinked.trans (hpool.mono (Set.empty_subset _))
  have hcandidates : searched.Candidates level curC
      (searched.addEntry dataPoint enterpointCopy topCandidates) := by
    refine Candidates.addEntry ?_ ?_ (hall.at_iff.mpr (hplaced.entry.mono hlevel.2))
      fun _ => hplaced.entry_ne
    · have hold := hfound.candidates hstate.start_ne hfresh.unlinked
      exact ⟨fun found hmem => hpool.at_iff.mpr (hold.at_level found hmem), hold.ne, hold.nodup⟩
    · intro found hmem
      rw [hpool.marks]
      exact hfound.undeleted found hmem
  have hcur : searched.At level curC :=
    hall.at_iff.mpr ⟨hplaced.cur_lt, hplaced.cur_level.symm ▸ hlevel.1⟩
  refine (mutuallyConnectNewElement_yields hsearched hcur hcandidates
    fun _ => hpool.fresh (Set.notMem_empty _) hfresh).imp ?_ ?_
  · rintro next after ⟨hafter, hrelinked, hnext, hne⟩
    refine ⟨hafter, ?_, by have := hstate.count_le; omega, ?_, hne⟩
    · refine (hall.mono fun layer hlayer => ?_).trans (hrelinked.mono ?_)
      · exact (Nat.le_succ level).trans hlayer
      · rintro layer rfl
        exact le_rfl (a := layer)
    · exact fun _ => (hall.at_iff.mp hnext).mono (Nat.sub_le level 1)
  · rintro failure _ ⟨rfl, hnone⟩
    refine ⟨rfl, currObj, hstart.1, ?_⟩
    rw [← hstate.relinked.marks]
    by_contra halive
    have hsize : size topCandidates ≤ searched.efConstruction := by
      rw [hpool.others]
      exact hfound.size_le
    have hpos := size_addEntry_pos hsearched.ef_pos hsize
      (hsome (Bool.eq_false_of_not_eq_true halive)) dataPoint enterpointCopy
    omega

/-- A placed element is connected on all the levels it shares with the graph. -/
theorem connect_yields (hplaced : Placed placed curC curlevel enterpointCopy maxlevelcopy) :
    Yields (connect Q dataPoint curC curlevel enterpointCopy maxlevelcopy) placed
      (fun _ after => after.Linked ∧ Relinked Set.univ placed after)
      (fun failure _ => failure = .undefined ∧ placed.HasDeleted) := by
  have hlevels : (min (curlevel : Int) (maxlevelcopy : Int) + 1).toNat =
      min curlevel maxlevelcopy + 1 := by omega
  have hloop : ∀ currObj, placed.At (min curlevel maxlevelcopy) currObj → currObj ≠ curC →
      Yields ((List.range (min (curlevel : Int) (maxlevelcopy : Int) + 1).toNat).reverse.foldlM
        (connectAt Q dataPoint curC enterpointCopy maxlevelcopy) currObj) placed
        (fun _ after => after.Linked ∧ Relinked Set.univ placed after)
        (fun failure _ => failure = .undefined ∧ placed.HasDeleted) := by
    intro currObj hstart hne
    rw [hlevels]
    refine Yields.imp (yields_countdown
      (motive := fun count => Connecting placed curC curlevel maxlevelcopy count)
      (fun _ _ _ hstate => connectAt_yields hplaced hstate) _ ?_) ?_ fun _ _ h => h
    · exact ⟨hplaced.linked, Relinked.refl _ _, le_rfl, fun _ => hstart, hne⟩
    · exact fun _ _ hfinal => ⟨hfinal.linked, hfinal.relinked.mono (Set.subset_univ _)⟩
  simp only [connect, yields_bind, yields_get]
  split
  next hlower =>
    obtain ⟨currObj, hdescend, hat⟩ := descendTo_ok dataPoint true hplaced.count_le
      hplaced.linked.closed (by omega : curlevel < maxlevelcopy) hplaced.entry
    simp only [Int.toNat_natCast, hdescend, Construction.lift, yields_bind, yields_pure]
    refine hloop currObj (hat.mono (by omega)) ?_
    rintro rfl
    have hle := hat.2
    rw [hplaced.cur_level] at hle
    omega
  next hupper =>
    simp only [yields_bind, yields_pure]
    exact hloop enterpointCopy (hplaced.entry.mono (by omega)) hplaced.entry_ne

end

end VBase.Hnsw.Graph
