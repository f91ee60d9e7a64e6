import VBase.AccessMethod.HnswLibrary
import VBase.Executor.EarlyStop
import VBase.Executor.NearestScan

/-! # Two ways to the nearest tuples

The pase_hnsw scan searches with a window and returns the closest elements. The
hnsw scan enumerates the base layer and lets a bounded Sort stop it early. With
the same window both pop the same elements: the flag is raised at the first
element beyond the window, which is where the other search breaks.
-/

namespace VBase.Executor

open AccessMethod BestFirst Hnsw PriorityQueue

variable {Q : {T K : Type} → [LinearOrder K] → (T → K) → Type} [PriorityQueue Q]
variable {D : Type} [LinearOrder D]

section Results

variable {index : HierarchicalNSW D}

/-- `Next`, as the access method sees it. -/
theorem source_pull {iter after : ResultIterator Q D} {lists lists' : VisitedListPool}
    {value : Option (UInt64 × D)} (hopen : iter.workspace.isSome)
    (hnext : iter.next index lists = some (value, after, lists')) :
    (hnswLibrary index).source.pull ((⟨iter, hopen⟩ : OpenIterator Q D), lists) =
      Except.ok (value, ⟨after, OpenIterator.next_workspace index hnext hopen⟩, lists') := by
  simp only [IteratorLibrary.source, hnswLibrary, OpenIterator.next, hnext, Option.get_some]

/-- An iterator as a source delivers the reports of its elements. -/
theorem delivers_yields {iter : ResultIterator Q D} {lists : VisitedListPool} {ids : List Nat}
    (hdelivers : ResultIterator.Delivers index iter lists ids) (hopen : iter.workspace.isSome) :
    ∃ items, (hnswLibrary index).source.Yields ((⟨iter, hopen⟩ : OpenIterator Q D), lists) items ∧
      items.map Prod.fst = ids.map (index.report iter.target) := by
  induction hdelivers with
  | @finished iter lists hnone =>
      obtain ⟨iter', lists', hresults⟩ := hnone 1
      obtain ⟨after, lists'', hnext⟩ : ∃ after lists'',
          iter.next index lists = some (none, after, lists'') := by
        cases hnext : iter.next index lists with
        | none => simp [ResultIterator.results, hnext] at hresults
        | some result =>
            simp only [ResultIterator.results, hnext, Option.bind_eq_bind, Option.bind_some,
              Option.pure_def, Option.some.injEq, Prod.mk.injEq, List.replicate_one,
              List.cons.injEq] at hresults
            exact ⟨result.2.1, result.2.2, by rw [← hresults.1.1]⟩
      exact ⟨[], Source.Yields.done (source_pull hopen hnext), rfl⟩
  | @found iter iter' lists lists' id rest workspace later _ _ _ hnext htarget _ ih =>
      obtain ⟨items, hitems, hmap⟩ := ih (OpenIterator.next_workspace index hnext hopen)
      refine ⟨_, Source.Yields.item (source_pull hopen hnext) hitems, ?_⟩
      rw [List.map_cons, List.map_cons, hmap, htarget]

/-- The elements that a search of the base layer can reach. -/
def baseLayer (index : HierarchicalNSW D) (target : List D) : Set Nat :=
  {id | id < index.curElementCount ∧ index.Reachable (index.baseLayerEntry target) id}

theorem mem_baseLayer {target : List D} (hcount : 0 < index.curElementCount) {id : Nat}
    (hreach : index.Reachable (index.baseLayerEntry target) id) : id ∈ baseLayer index target :=
  ⟨index.reachable_lt (index.baseLayerEntry_lt target hcount) hreach, hreach⟩

theorem reports_of_undeleted
    (hundeleted : ∀ id < index.curElementCount, index.isMarkedDeleted id = false) {target : List D}
    {id : Nat} (hid : id ∈ baseLayer index target) : index.reports id = true := by
  simp [HierarchicalNSW.reports, hundeleted id hid.1]

/-- Without deletions a new iterator delivers one complete order of the base layer. -/
theorem create_yields (hcount : 0 < index.curElementCount)
    (hundeleted : ∀ id < index.curElementCount, index.isMarkedDeleted id = false)
    (target : List D) {lists : VisitedListPool} {held : Set Nat} (hsound : lists.Sound held) :
    ∃ order items, index.BaseOrder target (index.baseLayerEntry target) order ∧
      frontier index.getLinklist0 (index.baseLayerEntry target) order = ∅ ∧
      (hnswLibrary (Q := Q) index).source.Yields
        ((hnswLibrary index).create target lists) items ∧
      items.map Prod.fst = order.map (index.report target) := by
  obtain ⟨order, horder, hdone, hdelivers⟩ :=
    ResultIterator.new_delivers (Q := Q) index hcount target hsound
  have hall : order.filter index.reports = order := by
    refine List.filter_eq_self.mpr fun id hid => ?_
    have hreach := horder.reachable (horder.subset_seen (List.mem_toFinset.mpr hid))
    exact reports_of_undeleted hundeleted (mem_baseLayer hcount hreach)
  rw [hall] at hdelivers
  obtain ⟨items, hitems, hmap⟩ := delivers_yields hdelivers rfl
  exact ⟨order, items, horder, hdone, hitems, hmap⟩

theorem create_yields_of_empty (hzero : index.curElementCount = 0) (target : List D)
    (lists : VisitedListPool) :
    (hnswLibrary (Q := Q) index).source.Yields ((hnswLibrary index).create target lists) [] := by
  obtain ⟨items, hitems, hmap⟩ := delivers_yields (ResultIterator.Delivers.finished fun count =>
    ResultIterator.results_of_empty (Q := Q) hzero count (ResultIterator.new target lists).1
      (ResultIterator.new (Q := Q) target lists).2) rfl
  rw [List.map_eq_nil_iff.mp hmap] at hitems
  exact hitems

end Results

section Window

variable {ι : Type} [DecidableEq ι] {next : ι → List ι} {dist : ι → D} {start : ι} {width : Nat}

omit [LinearOrder D] in
theorem countP_map_of_nodup {popped : List ι} (hnodup : popped.Nodup) (low : D → Prop)
    [DecidablePred low] :
    (popped.map dist).countP (fun value => low value) =
      (popped.toFinset.filter (fun other => low (dist other))).card := by
  have hval : popped.toFinset.val = ↑popped := by rw [List.toFinset_val, hnodup.dedup]
  rw [Finset.card_def, Finset.filter_val, hval, Multiset.filter_coe, Multiset.coe_card,
    ← List.countP_eq_length_filter, List.countP_map]
  rfl

/-- A distance exceeds those before it when its element is beyond their window. -/
theorem exceeds_iff_beyond (hwidth : 0 < width) {popped : List ι} (hnodup : popped.Nodup)
    (vertex : ι) :
    exceeds width (popped.map dist) (dist vertex) = true ↔
      Beyond dist width popped.toFinset vertex := by
  rw [Beyond, ← countP_map_of_nodup hnodup fun value => value < dist vertex,
    ← nthSmallest_iff_countP hwidth fun _ _ => lt_of_le_of_lt]
  simp [exceeds, Option.any_eq_true]

variable {popped all : List ι}

/-- The flag is not raised before the search with a window breaks. -/
theorem length_lt_of_raised (hwindow : Windowed next dist start width popped) (hwidth : 0 < width)
    (hall : Order next dist start all) (heq : popped = all.take popped.length) {read : Nat}
    (hraised : raised width ((all.map dist).take read) = true) :
    popped.length < read ∧ popped.length < all.length := by
  obtain ⟨index, value, bound, hvalue, hbound, hlt⟩ := raised_iff.mp hraised
  obtain ⟨hindex, rfl⟩ := List.getElem?_eq_some_iff.mp hvalue
  rw [List.length_take, List.length_map] at hindex
  rw [List.getElem_take, List.getElem_map] at hlt
  rw [List.take_take, Nat.min_eq_left (by omega), ← List.map_take] at hbound
  have hexceeds : exceeds width ((all.take index).map dist) (dist all[index]) = true := by
    rw [exceeds, hbound]
    simpa using hlt
  rw [exceeds_iff_beyond hwidth (hall.take index).nodup] at hexceeds
  have hle := hwindow.length_le_of_beyond heq (by omega) hexceeds
  omega

/-- The flag is raised where it breaks. -/
theorem raised_of_length_lt (hwindow : Windowed next dist start width popped) (hwidth : 0 < width)
    (hall : Order next dist start all) (heq : popped = all.take popped.length)
    (hlength : popped.length < all.length) :
    raised width ((all.map dist).take (popped.length + 1)) = true := by
  have hbeyond := hwindow.beyond_of_length hall heq hlength
  rw [← exceeds_iff_beyond hwidth hwindow.order.nodup] at hbeyond
  rw [← List.map_take, List.take_succ_eq_append_getElem hlength, ← heq, List.map_append,
    List.map_singleton, raised_concat, hbeyond, Bool.or_true]

/-- What is read up to the flag has the same smallest distances as what is popped. -/
theorem take_read_eq (hwindow : Windowed next dist start width popped) (hwidth : 0 < width)
    (hall : Order next dist start all) (heq : popped = all.take popped.length) {k count : Nat}
    (hk : k ≤ width)
    (hcount : count = all.length ∨ raised width ((all.map dist).take count) = true)
    (hstop : ∀ read < count, raised width ((all.map dist).take read) = true → read < k) :
    (((all.map dist).take count).insertionSort (· ≤ ·)).take k =
      ((popped.map dist).insertionSort (· ≤ ·)).take k := by
  rcases Nat.lt_or_ge popped.length all.length with hlt | hge
  · have hbeyond := hwindow.beyond_of_length hall heq hlt
    have hraised := raised_of_length_lt hwindow hwidth hall heq hlt
    have hwide : width ≤ popped.length :=
      (hbeyond.trans (Finset.card_filter_le _ _)).trans (List.toFinset_card_le popped)
    have hread : count = popped.length + 1 := by
      have hle : count ≤ popped.length + 1 := by
        by_contra hmore
        have hshort := hstop _ (not_le.mp hmore) hraised
        omega
      have hless : popped.length < count := by
        rcases hcount with rfl | hflag
        · exact hlt
        · exact (length_lt_of_raised hwindow hwidth hall heq hflag).1
      omega
    rw [hread, ← List.map_take, List.take_succ_eq_append_getElem hlt, ← heq, List.map_append,
      take_insertionSort_append]
    intro high hhigh
    rw [List.mem_singleton.mp hhigh, countP_map_of_nodup hwindow.order.nodup]
    refine (hk.trans hbeyond).trans (Finset.card_le_card ?_)
    exact Finset.monotone_filter_right _ fun _ _ => le_of_lt
  · have hsame : popped = all := by rw [heq, List.take_of_length_le hge]
    have hread : count = all.length := by
      refine hcount.resolve_right fun hflag => ?_
      have hless := (length_lt_of_raised hwindow hwidth hall heq hflag).2
      omega
    rw [hread, hsame, ← List.map_take, List.take_length]

end Window

/-! ## The two scans -/

/-- A heap tuple and its identifier. -/
structure HeapTuple (β : Type) where
  tSelf : ItemPointer
  data : β

/-- The tuple that is visible under an identifier. -/
def heapFetch {β : Type} (heap : ItemPointer → Option β) (tid : ItemPointer) :
    Option (HeapTuple β) :=
  (heap tid).map fun data => ⟨tid, data⟩

theorem eq_of_map_eq {α β : Type} {f : α → β} {first second : List α}
    (hinj : ∀ left ∈ first, ∀ right ∈ second, f left = f right → left = right)
    (hmap : first.map f = second.map f) : first = second := by
  induction first generalizing second with
  | nil => exact (List.map_eq_nil_iff.mp hmap.symm).symm
  | cons left rest ih =>
      obtain ⟨right, others, rfl, hhead, htail⟩ := List.map_eq_cons_iff.mp hmap.symm
      rw [hinj left List.mem_cons_self right List.mem_cons_self hhead.symm,
        ih (fun a ha b hb => hinj a (List.mem_cons_of_mem _ ha) b (List.mem_cons_of_mem _ hb))
          htail.symm]

section Scans

variable {β : Type} {index : HierarchicalNSW D} {target : List D}
  {heap : ItemPointer → Option β} {key : HeapTuple β → D}

variable (index target heap key) in
/-- Every element is the identifier of a visible tuple, and the sort operator computes the
distance of the index. -/
def Stores : Prop :=
  ∀ id ∈ baseLayer index target, ∃ row,
    heapFetch heap (ItemPointer.ofLabel (index.getExternalLabel id)) = some row ∧
      key row = index.dist target id

variable (index target heap) in
/-- `row` is the tuple of an element of the base layer. -/
def Stored (row : HeapTuple β) : Prop :=
  ∃ id ∈ baseLayer index target,
    heapFetch heap (ItemPointer.ofLabel (index.getExternalLabel id)) = some row

theorem Stores.key_eq (hstores : Stores index target heap key) {id : Nat}
    (hid : id ∈ baseLayer index target) {row : HeapTuple β}
    (hrow : heapFetch heap (ItemPointer.ofLabel (index.getExternalLabel id)) = some row) :
    key row = index.dist target id := by
  obtain ⟨stored, hstored, hkey⟩ := hstores id hid
  obtain rfl := Option.some.inj (hrow.symm.trans hstored)
  exact hkey

/-- Where distances are distinct, a sort key belongs to one tuple. -/
theorem Stores.eq_of_key_eq (hstores : Stores index target heap key)
    (hdistinct : Set.InjOn (index.dist target) (baseLayer index target))
    {left right : HeapTuple β} (hleft : Stored index target heap left)
    (hright : Stored index target heap right) (heq : key left = key right) : left = right := by
  obtain ⟨id, hid, hrow⟩ := hleft
  obtain ⟨id', hid', hrow'⟩ := hright
  rw [hstores.key_eq hid hrow, hstores.key_eq hid' hrow'] at heq
  obtain rfl := hdistinct hid hid' heq
  exact Option.some.inj (hrow.symm.trans hrow')

/-- The rows of the bounded Sort over the hnsw scan. -/
theorem sort_orderByScan_rows (hstores : Stores index target heap key) {width k : Nat}
    (hk : 1 ≤ k) (hle : k ≤ width) {lists : VisitedListPool} {order : List Nat}
    (horder : ∀ id ∈ order, id ∈ baseLayer index target)
    {items : List ((UInt64 × D) × OpenIterator Q D × VisitedListPool)}
    (hitems : (hnswLibrary index).source.Yields ((hnswLibrary index).create target lists) items)
    (hmap : items.map Prod.fst = order.map (index.report target)) {plan : SortPlan key}
    (hmemory : ∀ read, (plan.memory read).fits = true)
    (memory : ScanMemory Q D (OpenIterator Q D)) (estate : EState) :
    ∃ count rows, (plan.node (orderByScan (hnswLibrary index) width memory lists target key
        (heapFetch heap))).collect k (SortState.init true k IndexScanState.init, estate) =
          Except.ok rows ∧
      (∀ row ∈ rows, Stored index target heap row) ∧
      rows.map key =
        (((order.map (index.dist target)).take count).insertionSort (· ≤ ·)).take k ∧
      (count = order.length ∨
        raised width ((order.map (index.dist target)).take count) = true) ∧
      ∀ read < count, raised width ((order.map (index.dist target)).take read) = true →
        read < k := by
  have hkey : SortsByDistance key (heapFetch heap) (items.map Prod.fst) := by
    intro result hresult
    rw [hmap] at hresult
    obtain ⟨id, hid, rfl⟩ := List.mem_map.mp hresult
    exact hstores id (horder id hid)
  obtain ⟨trace, count, rows, htuples, hkeys, hcollect, hmem, hrows, hcount, hstop⟩ :=
    sort_orderByScan memory (Nat.lt_of_lt_of_le hk hle) hitems hkey plan hk estate
  have hdists : trace.map key = order.map (index.dist target) := by
    have hsnd := congrArg (List.map Prod.snd) hmap
    simp only [List.map_map] at hsnd
    exact hkeys.trans hsnd
  have hlength : trace.length = order.length := by
    simpa using congrArg List.length hdists
  rw [hdists] at hrows hcount hstop
  refine ⟨count, rows, hcollect, ?_, hrows, hlength ▸ hcount, ?_⟩
  · intro row hrow
    obtain ⟨item, hitem, heq⟩ := mem_of_fetched htuples (hmem row hrow)
    have hreport : item.1 ∈ order.map (index.report target) := hmap ▸ List.mem_map_of_mem hitem
    obtain ⟨id, hid, hid'⟩ := List.mem_map.mp hreport
    rw [← hid'] at heq
    exact ⟨id, horder id hid, heq⟩
  · -- in memory the Sort holds `k` rows once it has read them, and then heeds the flag
    intro read hread hraised
    by_contra hmore
    refine hstop read hread hraised (SortPlan.le_held_of_fits hmemory ?_)
    refine le_trans ?_ (not_lt.mp hmore)
    unfold SortPlan.effectiveBound
    split <;> simp

/-- The rows of the pase_hnsw scan. -/
theorem nearestScan_rows (hstores : Stores index target heap key) {width k : Nat}
    {lists : VisitedListPool}
    (hnearest : ∀ item ∈ nearest Q index width lists target, ∃ id ∈ baseLayer index target,
      item = nearestFirst (index.dist target id, index.getExternalLabel id))
    (uninit : IndexScanDesc D) (junk : ScanKey D × ScanKey D) (estate : EState) :
    ∃ rows, (nearestScan index width uninit junk lists target key (heapFetch heap) :
        PlanNode (IndexScanState Q D (PaseScan Q D) (HeapTuple β)) _).collect k
          (IndexScanState.init, estate) = Except.ok rows ∧
      (∀ row ∈ rows, Stored index target heap row) ∧
      rows.map key = ((nearest Q index width lists target).map resultDist).take k := by
  have hvisible : ∀ item ∈ nearest Q index width lists target, ∃ row,
      heapFetch heap (ItemPointer.ofLabel item.2) = some row := by
    intro item hitem
    obtain ⟨id, hid, rfl⟩ := hnearest item hitem
    exact (hstores id hid).imp fun _ hrow => hrow.1
  obtain ⟨items, hitems, hmap⟩ := nearestScan_yields uninit junk key hvisible estate
  have htuples : (items.map Prod.fst).map some = (nearest Q index width lists target).map
      fun item => heapFetch heap (ItemPointer.ofLabel item.2) := by
    rw [List.map_map]
    exact hmap
  refine ⟨_, hitems.collect k, ?_, ?_⟩
  · intro row hrow
    rw [List.map_take] at hrow
    obtain ⟨item, hitem, heq⟩ := mem_of_fetched htuples (List.mem_of_mem_take hrow)
    obtain ⟨id, hid, rfl⟩ := hnearest item hitem
    exact ⟨id, hid, heq⟩
  · rw [List.map_take, List.map_take]
    congr 1
    refine map_of_fetched htuples ?_
    intro item hitem row hrow
    obtain ⟨id, hid, rfl⟩ := hnearest item hitem
    exact hstores.key_eq hid hrow

/-- Reading the hnsw scan into a bounded Sort that stops early returns the same tuples in the
same order as the pase_hnsw scan with the same window. -/
theorem vbase_scan_eq_pase_scan (index : HierarchicalNSW D)
    (hundeleted : ∀ id < index.curElementCount, index.isMarkedDeleted id = false)
    (target : List D) (hdistinct : Set.InjOn (index.dist target) (baseLayer index target))
    {width k : Nat} (hwidth : ef ≤ width) (hk : 1 ≤ k) (hle : k ≤ width)
    (heap : ItemPointer → Option β) (key : HeapTuple β → D)
    (hstores : Stores index target heap key) (plan : SortPlan key)
    (hmemory : ∀ read, (plan.memory read).fits = true)
    (memory : ScanMemory Q D (OpenIterator Q D)) (uninit : IndexScanDesc D)
    (junk : ScanKey D × ScanKey D) {lists lists' : VisitedListPool} {held held' : Set Nat}
    (hsound : lists.Sound held) (hsound' : lists'.Sound held') (estate estate' : EState) :
    ∃ rows, (plan.node (orderByScan (hnswLibrary index) width memory lists target key
          (heapFetch heap))).collect k (SortState.init true k IndexScanState.init, estate) =
        Except.ok rows ∧
      (nearestScan index width uninit junk lists' target key (heapFetch heap) :
          PlanNode (IndexScanState Q D (PaseScan Q D) (HeapTuple β)) _).collect k
        (IndexScanState.init, estate') = Except.ok rows := by
  rcases Nat.eq_zero_or_pos index.curElementCount with hzero | hcount
  · -- over an empty index neither scan returns anything
    have hnone : ∀ id ∈ ([] : List Nat), id ∈ baseLayer index target := by simp
    obtain ⟨count, rows, hcollect, -, hsorted, -⟩ := sort_orderByScan_rows hstores hk hle hnone
      (create_yields_of_empty (Q := Q) hzero target lists) rfl hmemory memory estate
    have hnearest := nearest_of_empty (Q := Q) hzero width lists' target
    obtain ⟨rows', hcollect', -, hsorted'⟩ := nearestScan_rows (k := k) hstores
      (show ∀ item ∈ nearest Q index width lists' target, _ by simp [hnearest]) uninit junk estate'
    have hrows : rows = [] := by simpa using hsorted
    have hrows' : rows' = [] := by simpa [hnearest] using hsorted'
    rw [hrows] at hcollect
    rw [hrows'] at hcollect'
    exact ⟨[], hcollect, hcollect'⟩
  · obtain ⟨order, items, horder, hdone, hitems, hmap⟩ :=
      create_yields (Q := Q) hcount hundeleted target hsound
    have hinj : Distinct index.getLinklist0 (index.dist target) (index.baseLayerEntry target) :=
      fun _ hleft _ hright => hdistinct (mem_baseLayer hcount hleft) (mem_baseLayer hcount hright)
    have hreports : ∀ id, index.Reachable (index.baseLayerEntry target) id →
        index.reports id = true :=
      fun id hreach => reports_of_undeleted hundeleted (mem_baseLayer hcount hreach)
    have hlayer : ∀ popped, index.BaseOrder target (index.baseLayerEntry target) popped →
        ∀ id ∈ popped, id ∈ baseLayer index target := fun popped hpopped id hid =>
      mem_baseLayer hcount (hpopped.reachable (hpopped.subset_seen (List.mem_toFinset.mpr hid)))
    obtain ⟨popped, hwindow, hkeys, hnearest⟩ :=
      nearest_spec (Q := Q) hcount hinj hreports width hsound'
    rw [Nat.max_eq_right hwidth] at hwindow
    obtain ⟨count, rows, hcollect, hrows, hsorted, hread, hstop⟩ := sort_orderByScan_rows hstores
      hk hle (hlayer order horder) hitems hmap hmemory memory estate
    obtain ⟨rows', hcollect', hrows', hsorted'⟩ := nearestScan_rows (k := k) hstores
      (fun item hitem => (hnearest item hitem).imp fun id hid =>
        ⟨hlayer popped hwindow.order id hid.1, hid.2⟩) uninit junk estate'
    have heq := hwindow.eq_take horder hdone hinj
    -- the Sort read on until the window was passed, and `searchKnn` stopped there
    have hsame : rows.map key = rows'.map key := by
      rw [hsorted, hsorted', hkeys, List.take_take, Nat.min_eq_left hle]
      exact take_read_eq hwindow (Nat.lt_of_lt_of_le hk hle) horder heq hle hread hstop
    -- distances are distinct, so rows with the same keys are the same rows
    refine ⟨rows, hcollect, ?_⟩
    rw [eq_of_map_eq (fun left hleft right hright =>
      hstores.eq_of_key_eq hdistinct (hrows left hleft) (hrows' right hright)) hsame]
    exact hcollect'

end Scans

/-- Twenty elements on a directed ring, each with its id as its only component. -/
def ringIndex : HierarchicalNSW Int where
  maxElements := 20
  curElementCount := 20
  numDeleted := 0
  maxlevel := 0
  enterpointNode := 0
  getLinklist0 := fun id => [(id + 1) % 20]
  getLinklist := fun _ _ => []
  isMarkedDeleted := fun _ => false
  getExternalLabel := UInt64.ofNat
  getDataByInternalId := fun id => [(id : Int)]
  fstdistfunc := fun query data => (query.headD 0 - data.headD 0) ^ 2
  maxElements_lt := by decide
  count_le := le_rfl
  enterpoint_lt := by decide
  linklist0_lt := by
    intro id link hlink
    rw [List.mem_singleton.mp hlink]
    exact Nat.mod_lt _ (by decide)
  linklist_lt := by simp

/-- The three nearest of twenty elements, by either scan. The Sort stops after eleven of them and
leaves nine to the iterator, and `searchKnn` finds no more than the ten of its window. -/
theorem vbase_scan_eq_pase_scan_ring :
    let heap : ItemPointer → Option Int := fun tid => some tid.offset.toNat
    let key : HeapTuple Int → Int := fun row => (0 - row.data) ^ 2
    let uninit : IndexScanDesc Int := ⟨⟨0, 0, none, none⟩, ⟨0, 0⟩, false, true, none, false⟩
    let junk : ScanKey Int × ScanKey Int := (⟨false, []⟩, ⟨false, []⟩)
    let memory : ScanMemory @SortedQueue Int (OpenIterator @SortedQueue Int) :=
      ⟨uninit, junk, ⟨false, false, false, Range.width 0, none⟩⟩
    let lists := VisitedListPool.new fun _ _ => 0
    let sort := (SortPlan.inMemory key ⟨⟨0, 0⟩, 0⟩).node (orderByScan (hnswLibrary ringIndex) 10
      memory lists [0] key (heapFetch heap))
    let start := (SortState.init true 3 IndexScanState.init, (⟨true⟩ : EState))
    ((sort.pull start).toOption.bind fun pulled => pulled.2.1.outer.scanDesc.bind fun s =>
        pulled.2.1.outer.iterator.map fun iter =>
          ((hnswLibrary ringIndex).results 20 iter s.world).reduceOption.length) = some 9 ∧
      (nearest @SortedQueue ringIndex 10 lists [0]).length = 10 ∧
      ∃ rows, sort.collect 3 start = Except.ok rows ∧
        (nearestScan ringIndex 10 uninit junk lists [0] key (heapFetch heap) :
            PlanNode (IndexScanState @SortedQueue Int (PaseScan @SortedQueue Int) _) _).collect 3
          (IndexScanState.init, ⟨true⟩) = Except.ok rows := by
  intro heap key uninit junk memory lists sort start
  have hinjective : ∀ left < 20, ∀ right < 20,
      ringIndex.dist [0] left = ringIndex.dist [0] right → left = right := by decide
  have hoffsets : ∀ id < 20, (ItemPointer.ofLabel (UInt64.ofNat id)).offset.toNat = id := by decide
  refine ⟨by decide +kernel, by decide +kernel, ?_⟩
  refine vbase_scan_eq_pase_scan ringIndex (fun _ _ => rfl) [0] ?_ (by decide) (by decide)
    (by decide) heap key ?_ _ (fun _ => rfl) memory uninit junk
    (VisitedListPool.new_sound _) (VisitedListPool.new_sound _) _ _
  · intro left hleft right hright heq
    exact hinjective left hleft.1 right hright.1 heq
  · intro id hid
    refine ⟨_, rfl, ?_⟩
    change (0 - ((ItemPointer.ofLabel (UInt64.ofNat id)).offset.toNat : Int)) ^ 2 = _
    rw [hoffsets id hid.1]
    rfl

end VBase.Executor
