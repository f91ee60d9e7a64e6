import VBase.Executor.BoundedSort
import VBase.Executor.OrderByScan

/-! # The early stop

A bounded Sort over an ORDER BY scan of hnsw reads until the flag is raised, which
is when a distance exceeds a whole window of earlier ones. If distances that come
later do not fall below that window again, nothing that is left unread could be
among the smallest.
-/

namespace VBase.Executor

open AccessMethod

variable {Q : {T K : Type} → [LinearOrder K] → (T → K) → Type} [PriorityQueue Q]
variable {α D I W : Type} [LinearOrder D]

/-- Every result is the identifier of a visible tuple, and the sort key of the tuple is the
distance of the result. -/
def SortsByDistance (key : α → D) (fetchTuple : ItemPointer → Option α)
    (results : List (UInt64 × D)) : Prop :=
  ∀ result ∈ results, ∃ row, fetchTuple (ItemPointer.ofLabel result.1) = some row ∧
    key row = result.2

/-- The index scan of an ORDER BY query without a filter. -/
def orderByScan (lib : IteratorLibrary D I W) (width : Nat) (memory : ScanMemory Q D I) (world : W)
    (target : List D) (key : α → D) (fetchTuple : ItemPointer → Option α) :
    PlanNode (IndexScanState Q D (HNSWScan Q D I W) α) α :=
  IndexScan.node Q
    ⟨hnswAm lib width memory world target, fetchTuple, fun _ => true, fun row => some (key row)⟩ 1

section Trace

variable {lib : IteratorLibrary D I W} {width : Nat} (memory : ScanMemory Q D I) {world : W}
  {target : List D} {key : α → D} {fetchTuple : ItemPointer → Option α}

/-- The scan returns the tuples of the results in their order, with the flag that their
distances determine. -/
theorem orderByScan_trace (hwidth : 0 < width) {items : List ((UInt64 × D) × I × W)}
    (hitems : lib.source.Yields (lib.create target world) items)
    (hkey : SortsByDistance key fetchTuple (items.map Prod.fst)) (estate : EState) :
    ∃ rows, (orderByScan lib width memory world target key fetchTuple).Yields
        (IndexScanState.init, estate) rows ∧
      rows.map (fun row => some row.1) =
        items.map (fun item => fetchTuple (ItemPointer.ofLabel item.1.1)) ∧
      rows.map (fun row => key row.1) = items.map (fun item => item.1.2) ∧
      ∀ index row, rows[index]? = some row → inorderAfter row =
        raised width ((items.map fun item => item.1.2).take (index + 1)) := by
  obtain ⟨rows, hrows, hmap⟩ := orderByScan_yields memory hwidth hitems
    (fun item hitem => (hkey item.1 (List.mem_map_of_mem hitem)).imp fun _ hrow => ⟨hrow.1, rfl⟩)
    (fun row => some (key row)) estate
  have htuples : rows.map (fun row => some row.1) =
      items.map (fun item => fetchTuple (ItemPointer.ofLabel item.1.1)) := by
    have hfst := congrArg (List.map Prod.fst) hmap
    simp only [List.map_map, Function.comp_def] at hfst
    have hentries := congrArg (List.map fetchTuple) (entries_map_fst width [] (items.map Prod.fst))
    simp only [List.map_map, Function.comp_def] at hentries
    exact hfst.trans hentries
  refine ⟨rows, hrows, htuples, ?_, ?_⟩
  · have hrows' : (rows.map Prod.fst).map some =
        items.map (fun item => fetchTuple (ItemPointer.ofLabel item.1.1)) := by
      rw [List.map_map]
      exact htuples
    have hvalues : (rows.map Prod.fst).map key = items.map (fun item => item.1.2) := by
      refine map_of_fetched hrows' ?_
      intro item hitem row hrow
      obtain ⟨row', hrow', heq⟩ := hkey item.1 (List.mem_map_of_mem hitem)
      obtain rfl := Option.some.inj (hrow.symm.trans hrow')
      exact heq
    rwa [List.map_map] at hvalues
  · intro index row hrow
    have hsnd := congrArg (fun list => (list[index]?).map Prod.snd) hmap
    simp only [List.getElem?_map, hrow, Option.map_some, Option.map_map, Function.comp_def] at hsnd
    have hflag := entries_getElem? width [] (items.map Prod.fst) index
    have hlength := congrArg List.length htuples
    simp only [List.length_map] at hlength
    have hindex := (List.getElem?_eq_some_iff.mp hrow).1
    rw [← hsnd] at hflag
    rw [List.getElem?_eq_getElem (by simpa [← hlength] using hindex), Option.map_some,
      Option.some.injEq, List.nil_append, List.map_map] at hflag
    exact hflag

/-- A Sort over the scan returns the smallest of the first tuples. It reads all of them, or up
to a raised flag, and does not pass a raised flag while it holds enough of them. -/
theorem sort_orderByScan (hwidth : 0 < width) {items : List ((UInt64 × D) × I × W)}
    (hitems : lib.source.Yields (lib.create target world) items)
    (hkey : SortsByDistance key fetchTuple (items.map Prod.fst)) (plan : SortPlan key)
    {bound : Nat} (hbound : 1 ≤ bound) (estate : EState) :
    ∃ (trace : List α) (count : Nat) (rows : List α),
      trace.map (fun row => some row) =
        items.map (fun item => fetchTuple (ItemPointer.ofLabel item.1.1)) ∧
      trace.map key = items.map (fun item => item.1.2) ∧
      (plan.node (orderByScan lib width memory world target key fetchTuple)).collect bound
        (SortState.init true bound IndexScanState.init, estate) = Except.ok rows ∧
      (∀ row ∈ rows, row ∈ trace) ∧
      rows.map key = (((trace.map key).take count).insertionSort (· ≤ ·)).take bound ∧
      (count = trace.length ∨ raised width ((trace.map key).take count) = true) ∧
      ∀ read < count, raised width ((trace.map key).take read) = true →
        ¬ (SortPlan.effectiveBound true bound).getD 0 ≤
          plan.held (SortPlan.effectiveBound true bound) read := by
  obtain ⟨items', hyields, htuples, hkeys, hflags⟩ :=
    orderByScan_trace memory hwidth hitems hkey estate
  have hlimit : ∀ limit ∈ SortPlan.effectiveBound true bound, 0 < limit ∧ bound ≤ limit :=
    fun limit hmem => SortPlan.mem_effectiveBound hmem ▸ ⟨hbound, le_rfl⟩
  obtain ⟨count, rows, hcount, hcollect, hsorted, hsmallest⟩ :=
    SortPlan.collect_init plan hyields true bound hlimit
  have hraised : ∀ index item, items'[index]? = some item →
      inorderAfter item = raised width (((items'.map Prod.fst).map key).take (index + 1)) := by
    intro index item hitem
    rw [hflags index item hitem, ← hkeys, List.map_map]
    rfl
  refine ⟨items'.map Prod.fst, count, rows, ?_, ?_, hcollect, ?_, ?_, ?_, ?_⟩
  · rw [List.map_map]
    exact htuples
  · rw [List.map_map]
    exact hkeys
  · intro row hrow
    have hmem := hsmallest.mem_of_mem (Multiset.mem_coe.mpr hrow)
    rw [List.map_take] at hmem
    exact List.mem_of_mem_take (Multiset.mem_coe.mp hmem)
  · rw [hsmallest.map_eq_take hsorted, List.map_take, List.map_take]
  · rw [List.length_map]
    refine hcount.2.imp_right ?_
    rintro ⟨index, rfl, item, hitem, hflag, _⟩
    rw [← hflag, hraised index item hitem]
  · intro read hread hflag hheld
    cases read with
    | zero => simp [raised] at hflag
    | succ index =>
        have hindex : index < items'.length :=
          Nat.lt_of_succ_lt (hread.trans_le hcount.le_length)
        refine hcount.1 index hread ⟨items'[index], List.getElem?_eq_getElem hindex, ?_, hheld⟩
        rw [hraised index _ (List.getElem?_eq_getElem hindex), hflag]

end Trace

/-- Relaxed monotonicity at a window of `width`: once a distance exceeds the window, no later
distance falls below it. -/
def RelaxedMonotone (width : Nat) (dists : List D) : Prop :=
  ∀ index dist bound, dists[index]? = some dist →
    nthSmallest width (dists.take index) = some bound → bound < dist →
      ∀ later ∈ dists.drop (index + 1), bound ≤ later

/-- What has been read when the flag is up includes enough distances below all the rest. -/
theorem RelaxedMonotone.le_countP {width : Nat} (hwidth : 0 < width) {dists : List D}
    (hmono : RelaxedMonotone width dists) {count : Nat}
    (hraised : raised width (dists.take count) = true) {later : D}
    (hlater : later ∈ dists.drop count) :
    width ≤ (dists.take count).countP (fun dist => dist ≤ later) := by
  obtain ⟨index, dist, bound, hdist, hbound, hlt⟩ := raised_iff.mp hraised
  have hindex : index < count := by
    have := (List.getElem?_eq_some_iff.mp hdist).1
    rw [List.length_take] at this
    omega
  rw [List.getElem?_take_of_lt hindex] at hdist
  rw [List.take_take, Nat.min_eq_left hindex.le] at hbound
  have hle : bound ≤ later := by
    refine hmono index dist bound hdist hbound hlt later ?_
    rw [← List.take_append_drop (count - (index + 1)) (dists.drop (index + 1)),
      List.drop_drop, show index + 1 + (count - (index + 1)) = count by omega]
    exact List.mem_append_right _ hlater
  calc width ≤ (dists.take index).countP (fun dist => dist ≤ later) :=
        (nthSmallest_iff_countP hwidth fun _ _ => le_trans).mp ⟨bound, hbound, hle⟩
    _ ≤ (dists.take count).countP (fun dist => dist ≤ later) :=
        (List.take_sublist_take_left hindex.le).countP_le

/-- Under relaxed monotonicity the early stop is exact. -/
theorem early_stop_exact (lib : IteratorLibrary D I W) (memory : ScanMemory Q D I) (world : W)
    (target : List D) {items : List ((UInt64 × D) × I × W)}
    (hitems : lib.source.Yields (lib.create target world) items)
    (hmono : RelaxedMonotone distanceQueueWidth (items.map fun item => item.1.2))
    {key : α → D} {fetchTuple : ItemPointer → Option α}
    (hkey : SortsByDistance key fetchTuple (items.map Prod.fst))
    (plan : SortPlan key) {k : Nat} (hk : 1 ≤ k) (hwindow : k ≤ distanceQueueWidth)
    (estate : EState) :
    ∃ rows, (plan.node (orderByScan lib distanceQueueWidth memory world target key
          fetchTuple)).collect k (SortState.init true k IndexScanState.init, estate) =
        Except.ok rows ∧
      rows.map key = ((items.map fun item => item.1.2).insertionSort (· ≤ ·)).take k := by
  obtain ⟨trace, count, rows, -, hkeys, hcollect, -, hrows, hcount, -⟩ :=
    sort_orderByScan memory (show 0 < distanceQueueWidth by decide) hitems hkey plan hk estate
  refine ⟨rows, hcollect, ?_⟩
  rw [hrows, ← hkeys, ← take_insertionSort_append, List.take_append_drop]
  intro later hlater
  rcases hcount with rfl | hraised
  · rw [List.drop_of_length_le (List.length_map key).le] at hlater
    simp at hlater
  · rw [← hkeys] at hmono
    exact hwindow.trans (hmono.le_countP (by decide) hraised hlater)

/-- Distances that never fall are relaxed monotone. -/
theorem RelaxedMonotone.of_pairwise {width : Nat} {dists : List D}
    (hsorted : dists.Pairwise (· ≤ ·)) : RelaxedMonotone width dists := by
  intro index dist bound hdist _ hlt later hlater
  obtain ⟨hindex, rfl⟩ := List.getElem?_eq_some_iff.mp hdist
  obtain ⟨offset, hoffset, rfl⟩ := List.getElem_of_mem hlater
  rw [List.getElem_drop]
  rw [List.length_drop] at hoffset
  exact hlt.le.trans
    (List.pairwise_iff_getElem.mp hsorted index (index + 1 + offset) hindex (by omega) (by omega))

/-- The iterator that an index scan has reached. -/
def IndexScanState.iterator (state : IndexScanState Q D (HNSWScan Q D I W) α) : Option I :=
  state.scanDesc.bind fun s => s.scanState.workSpace.bind HNSWWorkSpace.resultIterator

/-- Of a hundred results in the order of their distances the Sort reads one more than the window,
which raises the flag, and leaves the others to the iterator. -/
theorem early_stop_hundred_results :
    let results : List (UInt64 × Nat) :=
      (List.range 100).map fun dist => (UInt64.ofNat dist, dist)
    let lib := resultList fun _ : List Nat => results
    let memory : ScanMemory @SortedQueue Nat (List (UInt64 × Nat)) :=
      ⟨⟨⟨0, 0, none, none⟩, ⟨0, 0⟩, false, true, none, false⟩, (⟨false, []⟩, ⟨false, []⟩),
        ⟨false, false, false, Range.width 0, none⟩⟩
    let sort := (SortPlan.inMemory id 0).node (orderByScan lib distanceQueueWidth memory () [0] id
      fun tid => some tid.offset.toNat)
    let start := (SortState.init true 5 IndexScanState.init, (⟨true⟩ : EState))
    RelaxedMonotone distanceQueueWidth (results.map Prod.snd) ∧
      raised distanceQueueWidth ((results.map Prod.snd).take 87) = true ∧
      (sort.pull start).toOption.bind (fun pulled => pulled.2.1.outer.iterator) =
        some (results.drop 87) ∧
      ∃ rows, sort.collect 5 start = Except.ok rows ∧ rows.map id = [0, 1, 2, 3, 4] := by
  intro results lib memory sort start
  have hdists : results.map Prod.snd = List.range 100 := by decide
  have hmono : RelaxedMonotone distanceQueueWidth (results.map Prod.snd) := by
    rw [hdists]
    exact RelaxedMonotone.of_pairwise List.pairwise_le_range
  have htrail := resultTrail_map_fst results
  have hkeys : (resultTrail results).map (fun item => item.1.2) = results.map Prod.snd := by
    rw [← htrail, List.map_map, htrail]
    rfl
  have hoffsets : ∀ dist ∈ List.range 100,
      (ItemPointer.ofLabel (UInt64.ofNat dist)).offset.toNat = dist := by decide
  have hrows : SortsByDistance id (fun tid => some tid.offset.toNat)
      ((resultTrail results).map Prod.fst) := by
    rw [htrail]
    intro result hresult
    obtain ⟨dist, hdist, rfl⟩ := List.mem_map.mp hresult
    exact ⟨_, rfl, hoffsets dist hdist⟩
  refine ⟨hmono, by decide +kernel, by decide +kernel, ?_⟩
  obtain ⟨rows, hcollect, hsmallest⟩ := early_stop_exact lib memory () [0]
    (resultList_yields (fun _ : List Nat => results) results) (hkeys.symm ▸ hmono) hrows
    (SortPlan.inMemory id 0) (show 1 ≤ 5 by decide) (by decide) ⟨true⟩
  refine ⟨rows, hcollect, hsmallest.trans ?_⟩
  rw [hkeys]
  decide +kernel

end VBase.Executor
