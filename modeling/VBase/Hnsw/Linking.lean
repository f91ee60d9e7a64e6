import VBase.Hnsw.LayerSearch
import VBase.Foundation.Command

/-! # Linking keeps the lists in order

A graph is linked if every list of an element has room to spare for what it holds and
holds different other elements of its level. `mutuallyConnectNewElement` makes many
checks of that kind and throws where one fails. On a linked graph none of them does, and
the graph stays linked.
-/

namespace VBase.Hnsw.Graph

open PriorityQueue Command

variable {Q : {T K : Type} → [LinearOrder K] → (T → K) → Type} [PriorityQueue Q]
variable {D : Type}

/-- Ids that may stand in the list of an element on a level. -/
structure Lists (graph : Graph D) (level id : Nat) (ids : List Nat) : Prop where
  length_le : ids.length ≤ graph.Mcurmax level
  nodup : ids.Nodup
  ne_self : id ∉ ids
  at_level : ∀ link ∈ ids, graph.At level link

/-- The parameters leave room for links, and every list is in order. -/
structure Linked (graph : Graph D) : Prop where
  M_pos : 0 < graph.M
  ef_pos : 0 < graph.efConstruction
  M_le : ∀ level, graph.M ≤ graph.Mcurmax level
  room_lt : ∀ level, graph.Mcurmax level < 65536
  lists : ∀ level id, graph.At level id → graph.Lists level id (graph.links id level)
  pool : graph.visitedListPool.Sound ∅

/-- `after` differs from `graph` in the lists of some levels only, and not in their marks. -/
structure Relinked (levels : Set Nat) (graph after : Graph D) : Prop where
  others : after = { graph with
    getLinklistAtLevel := after.getLinklistAtLevel, visitedListPool := after.visitedListPool }
  marks : ∀ id, after.isMarkedDeleted id = graph.isMarkedDeleted id
  untouched : ∀ id level, level ∉ levels →
    after.getLinklistAtLevel id level = graph.getLinklistAtLevel id level

section

variable {graph after final : Graph D} {levels : Set Nat} {level id : Nat}

theorem Linked.closed (hlinked : graph.Linked) (level : Nat) : graph.Closed level :=
  fun id hid => (hlinked.lists level id hid).at_level

theorem Relinked.refl (levels : Set Nat) (graph : Graph D) : Relinked levels graph graph :=
  ⟨rfl, fun _ => rfl, fun _ _ _ => rfl⟩

theorem Relinked.trans (hfirst : Relinked levels graph after)
    (hsecond : Relinked levels after final) : Relinked levels graph final where
  others := by
    rw [hsecond.others, hfirst.others]
  marks := fun id => (hsecond.marks id).trans (hfirst.marks id)
  untouched := fun id level hlevel =>
    (hsecond.untouched id level hlevel).trans (hfirst.untouched id level hlevel)

theorem Relinked.mono {more : Set Nat} (hrelinked : Relinked levels graph after)
    (hsub : levels ⊆ more) : Relinked more graph after :=
  ⟨hrelinked.others, hrelinked.marks,
    fun id level hlevel => hrelinked.untouched id level fun hmem => hlevel (hsub hmem)⟩

theorem Relinked.at_iff (hrelinked : Relinked levels graph after) :
    after.At level id ↔ graph.At level id := by
  rw [hrelinked.others]
  exact Iff.rfl

theorem Relinked.lists_iff (hrelinked : Relinked levels graph after) {ids : List Nat} :
    after.Lists level id ids ↔ graph.Lists level id ids := by
  constructor
  · rintro ⟨hlength, hnodup, hself, hat⟩
    rw [hrelinked.others] at hlength hat
    exact ⟨hlength, hnodup, hself, hat⟩
  · rintro ⟨hlength, hnodup, hself, hat⟩
    rw [hrelinked.others]
    exact ⟨hlength, hnodup, hself, hat⟩

/-! ## One list -/

@[simp] theorem setLinklist_self (list : LinkList) :
    (graph.setLinklist id level list).getLinklistAtLevel id level = list :=
  if_pos ⟨rfl, rfl⟩

theorem setLinklist_of_ne {other layer : Nat} (list : LinkList)
    (hne : ¬ (other = id ∧ layer = level)) :
    (graph.setLinklist id level list).getLinklistAtLevel other layer =
      graph.getLinklistAtLevel other layer :=
  if_neg hne

@[simp] theorem setLinklist_setLinklist (first second : LinkList) :
    (graph.setLinklist id level first).setLinklist id level second =
      graph.setLinklist id level second := by
  unfold setLinklist
  congr 1
  funext other layer
  simp only
  split <;> rfl

theorem relinked_setLinklist {list : LinkList}
    (hmark : list.isMarked = (graph.getLinklistAtLevel id level).isMarked) :
    Relinked {level} graph (graph.setLinklist id level list) where
  others := rfl
  marks := by
    intro other
    by_cases heq : other = id ∧ 0 = level
    · obtain ⟨rfl, rfl⟩ := heq
      rw [isMarkedDeleted, setLinklist_self, hmark, isMarkedDeleted]
    · rw [isMarkedDeleted, setLinklist_of_ne list heq, isMarkedDeleted]
  untouched := fun other layer hlayer => setLinklist_of_ne list fun heq => hlayer heq.2

/-- A list may be replaced by one that is in order. -/
theorem Linked.setLinklist (hlinked : graph.Linked) {list : LinkList}
    (hlists : graph.Lists level id list.links) : (graph.setLinklist id level list).Linked where
  M_pos := hlinked.M_pos
  ef_pos := hlinked.ef_pos
  M_le := hlinked.M_le
  room_lt := hlinked.room_lt
  pool := hlinked.pool
  lists := by
    intro layer other hother
    have hsame : ∀ ids, graph.Lists layer other ids →
        (graph.setLinklist id level list).Lists layer other ids :=
      fun _ hids => ⟨hids.length_le, hids.nodup, hids.ne_self, hids.at_level⟩
    by_cases heq : other = id ∧ layer = level
    · obtain ⟨rfl, rfl⟩ := heq
      rw [links, setLinklist_self]
      exact hsame _ hlists
    · rw [links, setLinklist_of_ne list heq]
      exact hsame _ (hlinked.lists layer other hother)

end

/-! ## The element's own links -/

section

variable {graph : Graph D} {level curC : Nat} {isUpdate : Bool} {ids : List Nat}

/-- The item of a numbered list behind those that were seen. -/
theorem eq_of_zipIdx {seen rest : List (Nat × Nat)} {item : Nat × Nat}
    (hsplit : seen ++ item :: rest = ids.zipIdx) :
    ids[seen.length]? = some item.1 ∧ item.2 = seen.length := by
  have hitem : ids.zipIdx[seen.length]? = some item := by
    rw [← hsplit]
    simp
  rw [List.getElem?_zipIdx, Option.map_eq_some_iff] at hitem
  obtain ⟨id, hid, rfl⟩ := hitem
  exact ⟨hid, by simp⟩

/-- The list while ids are stored in it: the first `count` slots are done. -/
structure Storing (before list : LinkList) (ids : List Nat) (count : Nat) : Prop where
  length : list.getListCount = UInt16.ofNat ids.length
  mark : list.isMarked = before.isMarked
  stored : ∀ idx < count, ids[idx]? = some (list.slots idx)
  rest : ∀ idx, count ≤ idx → list.slots idx = before.slots idx

theorem Storing.store {before list : LinkList} {count id : Nat}
    (hstoring : Storing before list ids count) (hid : ids[count]? = some id) :
    Storing before (list.store count id) ids (count + 1) where
  length := hstoring.length
  mark := hstoring.mark
  stored := by
    intro idx hidx
    by_cases heq : idx = count
    · subst heq
      rwa [LinkList.store_slots_self]
    · rw [LinkList.store_slots_of_ne list id heq]
      exact hstoring.stored idx (by omega)
  rest := by
    intro idx hidx
    rw [LinkList.store_slots_of_ne list id (by omega)]
    exact hstoring.rest idx (by omega)

theorem Storing.links_eq {before list : LinkList} (hstoring : Storing before list ids ids.length)
    (hlength : ids.length < 65536) : list.links = ids := by
  refine LinkList.links_eq hlength hstoring.length ?_
  intro idx hidx
  have hslot := hstoring.stored idx hidx
  rw [List.getElem?_eq_getElem hidx] at hslot
  exact (Option.some.inj hslot).symm

/-- What the loop over the new links goes through: the list of the element changes and nothing
else does. -/
def LinksStored (graph : Graph D) (level curC : Nat) (ids : List Nat) (count : Nat)
    (state : Graph D) : Prop :=
  ∃ list, state = graph.setLinklist curC level list ∧
    Storing (graph.getLinklistAtLevel curC level) list ids count

theorem storeLink_yields {state : Graph D} {count id : Nat}
    (hstate : graph.LinksStored level curC ids count state) (hid : ids[count]? = some id)
    (hlevel : level ≤ graph.elementLevels id)
    (hblank : isUpdate = false → graph.getLinklistAtLevel curC level = LinkList.blank) :
    Yields (storeLink curC level isUpdate (id, count)) state
      (fun _ after => graph.LinksStored level curC ids (count + 1) after) (fun _ _ => False) := by
  obtain ⟨list, rfl, hstoring⟩ := hstate
  have hslot : ¬ (list.slots count ≠ 0 ∧ (!isUpdate) = true) := by
    rintro ⟨hused, hnew⟩
    rw [hstoring.rest count le_rfl, hblank (by simpa using hnew)] at hused
    exact hused rfl
  have hexists : ¬ (graph.setLinklist curC level list).elementLevels id < level :=
    not_lt.mpr hlevel
  simp only [storeLink, yields_bind, yields_get, setLinklist_self, if_neg hslot, if_neg hexists,
    yields_set, setLinklist_setLinklist]
  exact ⟨list.store count id, rfl, hstoring.store hid⟩

/-- The new links are stored without an exception. A new element needs a blank list for that. -/
theorem linkSelected_yields (hlinked : graph.Linked) (hids : graph.Lists level curC ids)
    (hblank : isUpdate = false → graph.getLinklistAtLevel curC level = LinkList.blank) :
    Yields (linkSelected curC level isUpdate ids) graph
      (fun _ after => after.Linked ∧ Relinked {level} graph after ∧
        ∀ other, other ≠ curC →
          after.getLinklistAtLevel other level = graph.getLinklistAtLevel other level)
      (fun _ _ => False) := by
  have hheader : ¬ ((graph.getLinklistAtLevel curC level).header ≠ 0 ∧ (!isUpdate) = true) := by
    rintro ⟨hused, hnew⟩
    rw [hblank (by simpa using hnew)] at hused
    exact hused rfl
  have hlength : ids.length < 65536 := hids.length_le.trans_lt (hlinked.room_lt level)
  simp only [linkSelected, yields_bind, yields_get, if_neg hheader, yields_set]
  have hloop : Yields (ids.zipIdx.forM (storeLink curC level isUpdate))
      (graph.setLinklist curC level ((graph.getLinklistAtLevel curC level).setListCount
        (UInt16.ofNat ids.length)))
      (fun _ after => graph.LinksStored level curC ids ids.zipIdx.length after)
      (fun _ _ => False) := by
    refine yields_forM (motive := fun seen => graph.LinksStored level curC ids seen.length) ?_ ?_
    · rintro seen ⟨id, idx⟩ rest state hsplit hstate
      obtain ⟨hid, rfl⟩ := eq_of_zipIdx hsplit
      rw [List.length_append, List.length_singleton]
      exact storeLink_yields hstate hid (hids.at_level id (List.mem_of_getElem? hid)).2 hblank
    · exact ⟨_, rfl, LinkList.getListCount_setListCount _ _, LinkList.isMarked_setListCount _ _,
        by simp, fun _ _ => rfl⟩
  refine hloop.imp ?_ fun _ _ hfalse => hfalse
  rintro _ after ⟨list, rfl, hstoring⟩
  rw [List.length_zipIdx] at hstoring
  refine ⟨hlinked.setLinklist ?_, relinked_setLinklist hstoring.mark, fun other hne => ?_⟩
  · rwa [hstoring.links_eq hlength]
  · exact setLinklist_of_ne list fun heq => hne heq.1

end

/-! ## The links back -/

section

variable [LinearOrder D] {graph : Graph D} {level curC neighbor : Nat} {isUpdate : Bool}

/-- The links of a full neighbour are chosen anew among those it has and the new one. -/
theorem lists_reselect (hlinked : graph.Linked) (hcur : graph.At level curC)
    (hneighbor : graph.At level neighbor) (hne : neighbor ≠ curC)
    (habsent : curC ∉ graph.links neighbor level) :
    graph.Lists level neighbor (graph.reselect Q curC level neighbor) := by
  have hold := hlinked.lists level neighbor hneighbor
  unfold reselect
  generalize hcandidates : (pushAll PriorityQueue.empty
    ((graph.between curC neighbor, curC) :: (graph.links neighbor level).map fun link =>
      (graph.between link neighbor, link)) : Q (Prod.fst : D × Nat → D)) = candidates
  have hids : (elems candidates).map Prod.snd = ↑(curC :: graph.links neighbor level) := by
    rw [← hcandidates, elems_pushAll, elems_empty, zero_add, Multiset.map_coe, List.map_cons,
      List.map_map]
    exact congrArg _ (congrArg _ (List.map_id _))
  have hmem : ∀ id ∈ selectedIds graph.between candidates (graph.Mcurmax level),
      id = curC ∨ id ∈ graph.links neighbor level := by
    intro id hid
    obtain ⟨candidate, hcandidate, rfl⟩ := mem_selectedIds hid
    have hsnd := Multiset.mem_map_of_mem Prod.snd hcandidate
    rw [hids, Multiset.mem_coe, List.mem_cons] at hsnd
    exact hsnd
  refine ⟨length_selectedIds_le _ _ _, selectedIds_nodup _ _ ?_, ?_, ?_⟩
  · rw [hids, Multiset.coe_nodup]
    exact List.nodup_cons.mpr ⟨habsent, hold.nodup⟩
  · intro hself
    exact (hmem neighbor hself).elim hne hold.ne_self
  · intro id hid
    rcases hmem id hid with rfl | hlink
    · exact hcur
    · exact hold.at_level id hlink

/-- A neighbour is linked back, or is already, or drops a link for it. -/
theorem linkBack_yields (hlinked : graph.Linked) (hcur : graph.At level curC)
    (hneighbor : graph.At level neighbor) (hne : neighbor ≠ curC)
    (hnew : isUpdate = false → curC ∉ graph.links neighbor level) :
    Yields (linkBack Q curC level isUpdate neighbor) graph
      (fun _ after => after.Linked ∧ Relinked {level} graph after ∧
        ∀ other, other ≠ neighbor →
          after.getLinklistAtLevel other level = graph.getLinklistAtLevel other level)
      (fun _ _ => False) := by
  have hold := hlinked.lists level neighbor hneighbor
  have hroom := hlinked.room_lt level
  have hcount : (graph.getLinklistAtLevel neighbor level).getListCount.toNat ≤
      graph.Mcurmax level := by
    rw [← LinkList.length_links]
    exact hold.length_le
  have hothers : ∀ list other, other ≠ neighbor →
      (graph.setLinklist neighbor level list).getLinklistAtLevel other level =
        graph.getLinklistAtLevel other level :=
    fun list other hother => setLinklist_of_ne list fun heq => hother heq.1
  simp only [linkBack, yields_bind, yields_get, if_neg (not_lt.mpr hcount), if_neg hne,
    if_neg (not_lt.mpr hneighbor.2)]
  split
  next => exact ⟨hlinked, Relinked.refl _ _, fun _ _ => rfl⟩
  next hskip =>
    have habsent : curC ∉ graph.links neighbor level := by
      intro hmem
      cases hupdate : isUpdate with
      | false => exact hnew hupdate hmem
      | true => exact hskip ⟨hupdate, hmem⟩
    split
    next hlt =>
      have hlinks := LinkList.links_append (graph.getLinklistAtLevel neighbor level) curC
        (by omega)
      refine ⟨hlinked.setLinklist ?_, relinked_setLinklist (by simp), hothers _⟩
      rw [hlinks]
      refine ⟨by simpa using Nat.succ_le_of_lt hlt, ?_, ?_, ?_⟩
      · exact List.nodup_append.mpr ⟨hold.nodup, List.nodup_singleton _, by
          rintro id hid _ hcurC rfl
          exact habsent (List.mem_singleton.mp hcurC ▸ hid)⟩
      · rw [List.mem_append, List.mem_singleton, not_or]
        exact ⟨hold.ne_self, hne⟩
      · intro link hlink
        rcases List.mem_append.mp hlink with hmem | hmem
        · exact hold.at_level link hmem
        · exact List.mem_singleton.mp hmem ▸ hcur
    next =>
      have hselected := lists_reselect (Q := Q) hlinked hcur hneighbor hne habsent
      refine ⟨hlinked.setLinklist ?_, relinked_setLinklist (by simp), hothers _⟩
      rwa [LinkList.links_write _ (hselected.length_le.trans_lt hroom)]

/-! ## Both directions -/

/-- Candidates for the links of an element: different other elements of the level. -/
structure Candidates (graph : Graph D) (level curC : Nat)
    (topCandidates : Q (Prod.fst : D × Nat → D)) : Prop where
  at_level : ∀ found ∈ elems topCandidates, graph.At level found.2
  ne : ∀ found ∈ elems topCandidates, found.2 ≠ curC
  nodup : ((elems topCandidates).map Prod.snd).Nodup

/-- An element that is new on a level: its list is blank and nothing links to it. -/
structure Fresh (graph : Graph D) (level curC : Nat) : Prop where
  blank : graph.getLinklistAtLevel curC level = LinkList.blank
  unlinked : ∀ id, graph.At level id → curC ∉ graph.links id level

theorem Candidates.lists (hlinked : graph.Linked) {topCandidates : Q (Prod.fst : D × Nat → D)}
    (hcandidates : graph.Candidates level curC topCandidates) :
    graph.Lists level curC (selectedIds graph.between topCandidates graph.M) where
  length_le := (length_selectedIds_le _ _ _).trans (hlinked.M_le level)
  nodup := selectedIds_nodup _ _ hcandidates.nodup
  ne_self := by
    intro hmem
    obtain ⟨candidate, hcandidate, heq⟩ := mem_selectedIds hmem
    exact hcandidates.ne candidate hcandidate heq
  at_level := by
    intro link hlink
    obtain ⟨candidate, hcandidate, rfl⟩ := mem_selectedIds hlink
    exact hcandidates.at_level candidate hcandidate

/-- The loop over the links back. A list that it has not come to is as it was. -/
theorem forM_linkBack_yields (hlinked : graph.Linked) (hcur : graph.At level curC) {ids : List Nat}
    (hids : graph.Lists level curC ids)
    (hnew : isUpdate = false → ∀ id, graph.At level id → id ≠ curC →
      curC ∉ graph.links id level) :
    Yields (ids.forM (linkBack Q curC level isUpdate)) graph
      (fun _ after => after.Linked ∧ Relinked {level} graph after) (fun _ _ => False) := by
  refine Yields.imp (yields_forM (motive := fun seen state =>
    state.Linked ∧ Relinked {level} graph state ∧
      ∀ id, id ∉ seen → state.getLinklistAtLevel id level = graph.getLinklistAtLevel id level)
    ?_ ⟨hlinked, Relinked.refl _ _, fun _ _ => rfl⟩)
    (fun _ _ ⟨hafter, hrelinked, _⟩ => ⟨hafter, hrelinked⟩) fun _ _ h => h
  · rintro seen neighbor rest state hsplit ⟨hstate, hrelinked, hothers⟩
    have hmem : neighbor ∈ ids := by
      rw [← hsplit]
      simp
    have hneighbor := hids.at_level neighbor hmem
    have hne : neighbor ≠ curC := fun heq => hids.ne_self (heq ▸ hmem)
    have hseen : neighbor ∉ seen := by
      have hnodup := hids.nodup
      rw [← hsplit, List.nodup_append] at hnodup
      exact fun hin => hnodup.2.2 neighbor hin neighbor List.mem_cons_self rfl
    refine (linkBack_yields hstate (hrelinked.at_iff.mpr hcur) (hrelinked.at_iff.mpr hneighbor)
      hne ?_).imp ?_ fun _ _ h => h
    · intro hinsert
      rw [links, hothers neighbor hseen]
      exact hnew hinsert neighbor hneighbor hne
    · rintro _ after ⟨hafter, hstep, hrest⟩
      refine ⟨hafter, hrelinked.trans hstep, fun id hid => ?_⟩
      rw [List.mem_append, List.mem_singleton, not_or] at hid
      rw [hrest id hid.2, hothers id hid.1]

/-- Connecting an element keeps the graph linked and throws nothing. It fails only without a
candidate, where it reads the last of no selected neighbours. -/
theorem mutuallyConnectNewElement_yields (hlinked : graph.Linked) (hcur : graph.At level curC)
    {topCandidates : Q (Prod.fst : D × Nat → D)}
    (hcandidates : graph.Candidates level curC topCandidates)
    (hfresh : isUpdate = false → graph.Fresh level curC) :
    Yields (mutuallyConnectNewElement curC topCandidates level isUpdate) graph
      (fun next after => after.Linked ∧ Relinked {level} graph after ∧
        graph.At level next ∧ next ≠ curC)
      (fun failure _ => failure = .undefined ∧ size topCandidates = 0) := by
  have hlists := hcandidates.lists hlinked
  simp only [mutuallyConnectNewElement, yields_bind, yields_get,
    if_neg (not_lt.mpr (size_getNeighborsByHeuristic2_le graph.between topCandidates graph.M))]
  split
  next hlast =>
    refine ⟨rfl, ?_⟩
    by_contra hsome
    have hpos := size_getNeighborsByHeuristic2_pos graph.between hlinked.M_pos
      (Nat.pos_of_ne_zero hsome)
    rw [← length_selectedIds, List.getLast?_eq_none_iff.mp hlast] at hpos
    exact absurd hpos (lt_irrefl 0)
  next next hlast =>
    have hnext := List.mem_of_getLast? hlast
    rw [yields_bind]
    refine (linkSelected_yields hlinked hlists fun hinsert => (hfresh hinsert).blank).imp ?_
      fun _ _ h => h.elim
    rintro _ middle ⟨hmiddle, hfirst, hothers⟩
    rw [yields_bind]
    refine (forM_linkBack_yields (Q := Q) hmiddle (hfirst.at_iff.mpr hcur)
      (hfirst.lists_iff.mpr hlists) ?_).imp ?_ fun _ _ h => h.elim
    · intro hinsert id hid hne
      rw [links, hothers id hne]
      exact (hfresh hinsert).unlinked id (hfirst.at_iff.mp hid)
    · rintro _ after ⟨hafter, hsecond⟩
      exact ⟨hafter, hfirst.trans hsecond, hlists.at_level next hnext,
        fun heq => hlists.ne_self (heq ▸ hnext)⟩

end

end VBase.Hnsw.Graph
