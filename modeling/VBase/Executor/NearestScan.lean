import VBase.AccessMethod.PaseScan
import VBase.Executor.IndexScan

/-! # Index scans over pase_hnsw

The pase_hnsw access method as the IndexScan node drives it. The node returns the
rows of what `searchKnn` found, nearest first.
-/

namespace VBase.Executor

open AccessMethod Hnsw PriorityQueue

variable {Q : {T K : Type} → [LinearOrder K] → (T → K) → Type} [PriorityQueue Q]
variable {D α : Type} [LinearOrder D]

section Scan

variable (index : HierarchicalNSW D) (k : Nat) (uninit : IndexScanDesc D)
  (junk : ScanKey D × ScanKey D) (world : VisitedListPool) (target : List D)

/-- The pase_hnsw access method, for a scan with the ORDER BY key `target`. -/
def paseAm : IndexAm D (PaseScan Q D) where
  beginscan := Except.ok
    (paseRescan (paseBeginScan uninit junk 0 1 world) none (some ⟨false, target⟩))
  gettuple := paseGettuple index k
  desc := PaseScan.scan
  remaining := paseRemaining index k
  gettuple_remaining := fun _ _ hget => paseGettuple_remaining index k hget

/-- The index scan of an ORDER BY query without a filter. -/
def nearestScan (key : α → D) (fetchTuple : ItemPointer → Option α) :
    PlanNode (IndexScanState Q D (PaseScan Q D) α) α :=
  IndexScan.node Q
    ⟨paseAm index k uninit junk world target, fetchTuple, fun _ => true,
      fun row => some (key row)⟩ 1

variable (Q) in
/-- The results of `searchKnn`, nearest first. -/
def nearest : List (Dᵒᵈ × UInt64) :=
  drain (pushAll PriorityQueue.empty ((drain
    (index.searchKnn target k world : Q (resultRank : D × UInt64 → D ×ₗ Nat) × _).1).map
      nearestFirst) : Q (resultRank : Dᵒᵈ × UInt64 → Dᵒᵈ ×ₗ Nat))

end Scan

section Trace

variable {index : HierarchicalNSW D} {k : Nat} {uninit : IndexScanDesc D}
  {junk : ScanKey D × ScanKey D} {world : VisitedListPool} {target : List D}

theorem paseTid_later {s s' : PaseScan Q D} (hlater : s.scanState.first = false) {found : Bool}
    (hfetch : paseFetch s = Except.ok (found, s')) :
    (paseAm index k uninit junk world target).getnextTid.pull s =
      Except.ok (if found then some s'.scan else none, s') := by
  simp only [IndexAm.getnextTid, paseAm, paseGettuple, hlater, Bool.false_eq_true, if_false, hfetch]

/-- The first call is like a later call on the scan it fills. -/
theorem paseTid_first {s s' : PaseScan Q D} (hfirst : s.scanState.first = true)
    (hfilled : paseFirst index k s = Except.ok (true, s')) :
    (paseAm index k uninit junk world target).getnextTid.pull s =
      (paseAm index k uninit junk world target).getnextTid.pull s' := by
  have hlater := paseFirst_later index k hfilled
  simp only [IndexAm.getnextTid, paseAm, paseGettuple, hfirst, if_true, hfilled, hlater,
    Bool.false_eq_true, if_false]

variable (index k uninit junk world target) in
/-- The calls after the first report what is left in the queue. -/
theorem paseFetch_yields {s : PaseScan Q D} (hlater : s.scanState.first = false)
    {workSpace : PaseWorkSpace Q D} (hworkSpace : s.scanState.workSpace = some workSpace) :
    ∃ descs, (paseAm index k uninit junk world target).getnextTid.Yields s descs ∧
      descs.map (fun desc => desc.1.xsHeaptid) =
        (drain workSpace.result).map (fun item => ItemPointer.ofLabel item.2) ∧
      ∀ desc ∈ descs, desc.1.xsRecheckorderby = false := by
  induction hsize : size workSpace.result generalizing s workSpace with
  | zero =>
      have htop : top workSpace.result = none :=
        top_eq_none_iff.mpr (Multiset.card_eq_zero.mp hsize)
      have hfetch : paseFetch s = Except.ok (false, s) := by
        simp only [paseFetch, hworkSpace, htop]
      exact ⟨[], Source.Yields.done (paseTid_later hlater hfetch),
        by rw [drain_of_none htop]; rfl, by simp⟩
  | succ count ih =>
      cases htop : top workSpace.result with
      | none => simp [size, elems_of_top_none _ htop] at hsize
      | some item =>
          obtain ⟨s', hfetch, hlater', hworkSpace', htid, hexact⟩ :=
            paseFetch_some hlater hworkSpace htop
          have hpop := size_pop htop
          obtain ⟨descs, hdescs, hmap, hrecheck⟩ := ih hlater' hworkSpace' (by simp only; omega)
          refine ⟨_, Source.Yields.item (paseTid_later hlater hfetch) hdescs, ?_, ?_⟩
          · rw [List.map_cons, hmap, drain_of_top htop, List.map_cons, htid]
          · intro desc hdesc
            rcases List.mem_cons.mp hdesc with rfl | hmem
            · exact hexact
            · exact hrecheck desc hmem

variable (index k uninit junk world target) in
/-- The first call fills the queue with what `searchKnn` finds. -/
theorem paseAm_beginscan :
    ∃ s s' : PaseScan Q D, (paseAm index k uninit junk world target).beginscan = Except.ok s ∧
      s.scanState.first = true ∧ paseFirst index k s = Except.ok (true, s') ∧
      ∃ workSpace, s'.scanState.workSpace = some workSpace ∧
        drain workSpace.result = nearest Q index k world target :=
  ⟨_, _, rfl, rfl, rfl, _, rfl, rfl⟩

variable (uninit junk) in
/-- An index scan over pase_hnsw returns the rows of what `searchKnn` finds, nearest first. -/
theorem nearestScan_yields (key : α → D) {fetchTuple : ItemPointer → Option α}
    (hvisible : ∀ item ∈ nearest Q index k world target, ∃ row,
      fetchTuple (ItemPointer.ofLabel item.2) = some row) (estate : EState) :
    ∃ rows, (nearestScan index k uninit junk world target key fetchTuple :
        PlanNode (IndexScanState Q D (PaseScan Q D) α) α).Yields
          (IndexScanState.init, estate) rows ∧
      rows.map (fun row => some row.1) =
        (nearest Q index k world target).map fun item =>
          fetchTuple (ItemPointer.ofLabel item.2) := by
  obtain ⟨s, s', hbegin, hfirst, hfilled, workSpace, hworkSpace, hdrain⟩ :=
    paseAm_beginscan (Q := Q) index k uninit junk world target
  obtain ⟨descs, hdescs, hmap, hrecheck⟩ := paseFetch_yields index k uninit junk world target
    (paseFirst_later index k hfilled) hworkSpace
  rw [hdrain] at hmap
  let plan : IndexScan D (PaseScan Q D) α := ⟨paseAm index k uninit junk world target, fetchTuple,
    fun _ => true, fun row => some (key row)⟩
  have hexact : ∀ desc ∈ descs, plan.Exact desc.1 := by
    intro desc hdesc
    refine ⟨?_, hrecheck desc hdesc⟩
    have htid : desc.1.xsHeaptid ∈ descs.map (fun desc => desc.1.xsHeaptid) :=
      List.mem_map_of_mem hdesc
    rw [hmap] at htid
    obtain ⟨item, hitem, heq⟩ := List.mem_map.mp htid
    obtain ⟨row, hrow⟩ := hvisible item hitem
    exact ⟨row, heq ▸ hrow, fun _ => rfl⟩
  have hopened : plan.am.beginscan = Except.ok s := hbegin
  obtain ⟨rows, hrows, hrowmap⟩ := IndexScan.init_yields Q hopened
    (hdescs.congr (paseTid_first hfirst hfilled).symm) hexact Nat.one_pos estate
  refine ⟨rows, hrows, ?_⟩
  have hfst := congrArg (List.map Prod.fst) hrowmap
  simp only [List.map_map, Function.comp_def] at hfst
  have htids := congrArg (List.map fetchTuple) hmap
  simp only [List.map_map, Function.comp_def] at htids
  exact hfst.trans htids

end Trace

/-! ## What the scan finds -/

/-- The distance of a queued result. -/
def resultDist (item : Dᵒᵈ × UInt64) : D := OrderDual.ofDual item.1

theorem nearest_pairwise (index : HierarchicalNSW D) (k : Nat) (world : VisitedListPool)
    (target : List D) : (nearest Q index k world target).Pairwise (AscendingBy resultDist) := by
  refine (drain_pairwise _).imp ?_
  intro first second hle
  have hfst := Prod.Lex.monotone_fst (resultRank second) (resultRank first) hle
  exact hfst

theorem nearest_of_empty {index : HierarchicalNSW D} (hzero : index.curElementCount = 0) (k : Nat)
    (world : VisitedListPool) (target : List D) : nearest Q index k world target = [] := by
  rw [← Multiset.coe_eq_zero, nearest, coe_drain, elems_pushAll, elems_empty, zero_add,
    ← Multiset.map_coe, coe_drain, HierarchicalNSW.searchKnn, if_pos hzero, elems_empty,
    Multiset.map_zero]

/-- The scan reports the closest of the elements that a search with a window pops. -/
theorem nearest_spec {index : HierarchicalNSW D} (hcount : 0 < index.curElementCount)
    {target : List D}
    (hdistinct : BestFirst.Distinct index.getLinklist0 (index.dist target)
      (index.baseLayerEntry target))
    (hreports : ∀ id, index.Reachable (index.baseLayerEntry target) id → index.reports id = true)
    (k : Nat) {world : VisitedListPool} {held : Set Nat} (hsound : world.Sound held) :
    ∃ popped, BestFirst.Windowed index.getLinklist0 (index.dist target)
        (index.baseLayerEntry target) (max ef k) popped ∧
      (nearest Q index k world target).map resultDist =
        ((popped.map (index.dist target)).insertionSort (· ≤ ·)).take k ∧
      ∀ item ∈ nearest Q index k world target, ∃ id ∈ popped,
        item = nearestFirst (index.dist target id, index.getExternalLabel id) := by
  obtain ⟨popped, chosen, hwindow, hchosen, helems⟩ :=
    HierarchicalNSW.searchKnn_spec (Q := Q) hcount hdistinct hreports k hsound
  have hnearest : (↑(nearest Q index k world target) : Multiset _) = chosen.map fun id =>
      nearestFirst (index.dist target id, index.getExternalLabel id) := by
    rw [nearest, coe_drain, elems_pushAll, elems_empty, zero_add, ← Multiset.map_coe, coe_drain,
      helems, Multiset.map_map]
    rfl
  refine ⟨popped, hwindow, ?_, ?_⟩
  · have hsmall := hchosen.map (f := fun id =>
      nearestFirst (index.dist target id, index.getExternalLabel id))
      (fun id _ => (rfl : resultDist (nearestFirst (index.dist target id, _)) = _))
    rw [← hnearest, Multiset.map_coe] at hsmall
    rw [hsmall.map_eq_take (nearest_pairwise index k world target), List.map_map]
    rfl
  · intro item hitem
    have hmem : item ∈ (↑(nearest Q index k world target) : Multiset _) := hitem
    rw [hnearest] at hmem
    obtain ⟨id, hid, rfl⟩ := Multiset.mem_map.mp hmem
    exact ⟨id, Multiset.mem_coe.mp (hchosen.mem_of_mem hid), rfl⟩

end VBase.Executor
