import VBase.AccessMethod.HnswLibrary
import VBase.AccessMethod.OrderScan
import VBase.Foundation.Pass
import Mathlib.Data.List.ReduceOption

/-! # Building an index and scanning it

`HNSWIndexBuilder` reads the table twice. The first pass takes the dimension from
the first vector and counts the vectors, the second adds each of them to the index
under a label that packs the identifier of its row. A scan unpacks the label again,
so it returns rows of the table that have a vector, each at most once and with the
distance of its own vector.
-/

namespace VBase.AccessMethod

open VBase.Hnsw PriorityQueue

/-- A row as `table_index_build_scan` hands it to a callback; `value` is `none` for NULL. -/
structure HeapRow (D : Type) where
  tid : ItemPointer
  value : Option (List D)

/-- The element that a row adds to an index: the label of the row and its vector. -/
def HeapRow.element {D : Type} (row : HeapRow D) : Option (UInt64 × List D) :=
  row.value.map fun array => (row.tid.toLabel, array)

/-- A signed 32-bit number as `size_t`. -/
def sizeT (number : Int32) : Nat := number.toInt64.toUInt64.toNat

/-! ## The index under construction -/

/-- What `addPoint` records of its elements, by internal id: their labels and data. The links
that it draws between them are left open. -/
structure VectorIndex (D : Type) where
  dataSize : Nat
  maxElements : Nat
  elements : List (UInt64 × List D)
  labelLookup : UInt64 → Option Nat
  lookup_iff : ∀ label id,
    labelLookup label = some id ↔ elements[id]?.map Prod.fst = some label

namespace VectorIndex

variable {D : Type}

/-- The constructor of `HierarchicalNSW`, with the number of components of its space. -/
def new (dimension maxElements : Nat) : VectorIndex D :=
  ⟨dimension, maxElements, [], fun _ => none, by simp⟩

/-- Element `id` has the label that is looked up, so new data leaves the labels alone. -/
theorem lookup_iff_set (index : VectorIndex D) {label : UInt64} {id : Nat}
    (hfound : index.labelLookup label = some id) (data : List D) (other : UInt64) (slot : Nat) :
    index.labelLookup other = some slot ↔
      (index.elements.set id (label, data))[slot]?.map Prod.fst = some other := by
  rw [index.lookup_iff]
  have hlabel := (index.lookup_iff label id).mp hfound
  by_cases hslot : id = slot
  · subst hslot
    have hlt : id < index.elements.length := by
      by_contra hge
      simp [List.getElem?_eq_none (not_lt.mp hge)] at hlabel
    rw [hlabel, List.getElem?_set_self hlt, Option.map_some]
  · rw [List.getElem?_set_ne hslot]

/-- A new label is looked up at the end. -/
theorem lookup_iff_concat (index : VectorIndex D) {label : UInt64}
    (hnew : index.labelLookup label = none) (data : List D) (other : UInt64) (slot : Nat) :
    Function.update index.labelLookup label (some index.elements.length) other = some slot ↔
      (index.elements ++ [(label, data)])[slot]?.map Prod.fst = some other := by
  have hother := index.lookup_iff other slot
  by_cases hlabel : other = label
  · subst hlabel
    rw [Function.update_self, Option.some.injEq]
    rw [hnew] at hother
    rcases Nat.lt_trichotomy slot index.elements.length with hlt | rfl | hgt
    · rw [List.getElem?_append_left hlt, ← hother]
      simp [hlt.ne']
    · simp
    · simp [hgt.ne, List.getElem?_eq_none (l := index.elements ++ [(other, data)]) (by simpa)]
  · rw [Function.update_of_ne hlabel, hother]
    rcases Nat.lt_trichotomy slot index.elements.length with hlt | rfl | hgt
    · rw [List.getElem?_append_left hlt]
    · simp [Ne.symm hlabel]
    · simp [hgt.le, List.getElem?_eq_none (l := index.elements ++ [(label, data)]) (by simpa)]

/-- `addPoint`. A label that is there already has its data replaced (`updatePoint`); otherwise
the element is added under the next internal id. -/
def addPoint (index : VectorIndex D) (dataPoint : List D) (label : UInt64) :
    Except String (VectorIndex D) :=
  match hfound : index.labelLookup label with
  | some id => Except.ok { index with
      elements := index.elements.set id (label, dataPoint.take index.dataSize)
      lookup_iff := index.lookup_iff_set hfound _ }
  | none =>
      if index.maxElements ≤ index.elements.length then
        Except.error "The number of elements exceeds the specified limit"
      else
        Except.ok { index with
          elements := index.elements ++ [(label, dataPoint.take index.dataSize)]
          labelLookup := Function.update index.labelLookup label (some index.elements.length)
          lookup_iff := index.lookup_iff_concat hfound _ }

/-- A label that is not there yet is added at the end. -/
theorem addPoint_new {index after : VectorIndex D} {dataPoint : List D} {label : UInt64}
    (hnew : ∀ element ∈ index.elements, element.1 ≠ label)
    (hadd : index.addPoint dataPoint label = Except.ok after) :
    after.dataSize = index.dataSize ∧
      after.elements = index.elements ++ [(label, dataPoint.take index.dataSize)] := by
  unfold addPoint at hadd
  split at hadd
  next id hfound =>
    obtain ⟨element, helement, hlabel⟩ :=
      Option.map_eq_some_iff.mp ((index.lookup_iff label id).mp hfound)
    exact absurd hlabel (hnew element (List.mem_of_getElem? helement))
  next hfound =>
    split at hadd
    · cases hadd
    · obtain rfl := Except.ok.inj hadd
      exact ⟨rfl, rfl⟩

end VectorIndex

/-! ## The two passes over the table -/

/-- The members of `HNSWIndexBuilder` that the callbacks use. `indtuples` is a `double`, whose
arithmetic is left open. -/
structure HNSWIndexBuilder (N : Type) where
  numDimension : Int32
  indtuples : N

namespace HNSWIndexBuilder

variable {D N : Type}

/-- The check that both callbacks make of a vector. -/
def checkLength (self : HNSWIndexBuilder N) (array : List D) : Except Failure Unit :=
  let expected := self.numDimension
  let found := array.length
  if sizeT self.numDimension ≠ array.length then
    Except.error (Failure.elog s!"inconsistent array length, expected {expected}, found {found}")
  else Except.ok ()

/-- `HNSWComputeElementsCallback`. -/
def computeElementsCallback [Add N] [One N] (self : HNSWIndexBuilder N) (row : HeapRow D) :
    Except Failure (HNSWIndexBuilder N) :=
  match row.value with
  | none => Except.ok self
  | some array => do
      let self := if self.numDimension = 0 then
          { self with numDimension := Int32.ofNat array.length }
        else self
      self.checkLength array
      return { self with indtuples := self.indtuples + 1 }

/-- `HNSWLoadTupleCallback`. An exception of `addPoint` ends in a report by `hnsw_build`. -/
def loadTupleCallback (self : HNSWIndexBuilder N) (vectorIndex : VectorIndex D)
    (row : HeapRow D) : Except Failure (VectorIndex D) :=
  match row.value with
  | none => Except.ok vectorIndex
  | some array => do
      self.checkLength array
      match vectorIndex.addPoint array row.tid.toLabel with
      | Except.error what => Except.error (Failure.elog s!"C++ exception: {what}")
      | Except.ok vectorIndex => return vectorIndex

/-- `ConstructInternalBuilder` and `LoadTuples`. The constructor of the builder leaves
`m_indtuples` as it finds it, so the capacity of the index is an arbitrary number. -/
def build [Add N] [One N] (toSize : N → Nat) (uninit : N) (heap : List (HeapRow D)) :
    Except Failure (VectorIndex D) := do
  let self ← heap.foldlM computeElementsCallback ⟨0, uninit⟩
  heap.foldlM self.loadTupleCallback
    (VectorIndex.new (sizeT self.numDimension) (toSize self.indtuples))

theorem checkLength_ok {self : HNSWIndexBuilder N} {array : List D}
    (hcheck : self.checkLength array = Except.ok ()) :
    sizeT self.numDimension = array.length := by
  unfold checkLength at hcheck
  split at hcheck
  · cases hcheck
  next hlength => exact not_not.mp hlength

/-- A row without a vector is skipped, any other is added. -/
theorem loadTupleCallback_cases {self : HNSWIndexBuilder N} {vectorIndex after : VectorIndex D}
    {row : HeapRow D} (hload : self.loadTupleCallback vectorIndex row = Except.ok after) :
    (row.value = none ∧ after = vectorIndex) ∨
      ∃ array, row.value = some array ∧ self.checkLength array = Except.ok () ∧
        vectorIndex.addPoint array row.tid.toLabel = Except.ok after := by
  unfold loadTupleCallback at hload
  cases hvalue : row.value with
  | none =>
      rw [hvalue] at hload
      exact Or.inl ⟨rfl, (Except.ok.inj hload).symm⟩
  | some array =>
      rw [hvalue] at hload
      obtain ⟨_, hcheck, hadd⟩ := Pass.bind_ok.mp hload
      refine Or.inr ⟨array, rfl, hcheck, ?_⟩
      split at hadd
      · cases hadd
      next added hadded =>
        obtain rfl := Except.ok.inj hadd
        exact hadded

/-- A row with a vector is added with its label and the whole vector; other rows are skipped. -/
theorem loadTupleCallback_ok {self : HNSWIndexBuilder N} {vectorIndex after : VectorIndex D}
    {row : HeapRow D} (hsize : vectorIndex.dataSize = sizeT self.numDimension)
    (hnew : ∀ element ∈ vectorIndex.elements, element.1 ≠ row.tid.toLabel)
    (hload : self.loadTupleCallback vectorIndex row = Except.ok after) :
    after.dataSize = sizeT self.numDimension ∧
      after.elements = vectorIndex.elements ++ row.element.toList := by
  rcases loadTupleCallback_cases hload with ⟨hvalue, rfl⟩ | ⟨array, hvalue, hcheck, hadd⟩
  · exact ⟨hsize, by simp [HeapRow.element, hvalue]⟩
  · obtain ⟨hsame, helements⟩ := VectorIndex.addPoint_new hnew hadd
    refine ⟨hsame.trans hsize, ?_⟩
    rw [helements, hsize, checkLength_ok hcheck, List.take_length]
    simp [HeapRow.element, hvalue]

/-- The second pass adds the rows with a vector in the order of the table. -/
theorem loadTuples_ok {self : HNSWIndexBuilder N} (heap : List (HeapRow D))
    (htids : (heap.map HeapRow.tid).Nodup) {vectorIndex built : VectorIndex D}
    (hsize : vectorIndex.dataSize = sizeT self.numDimension)
    (hnew : ∀ row ∈ heap, ∀ element ∈ vectorIndex.elements, element.1 ≠ row.tid.toLabel)
    (hbuilt : heap.foldlM self.loadTupleCallback vectorIndex = Except.ok built) :
    built.elements = vectorIndex.elements ++ heap.filterMap HeapRow.element := by
  induction heap generalizing vectorIndex with
  | nil =>
      obtain rfl := Except.ok.inj hbuilt
      simp
  | cons row rest ih =>
      obtain ⟨after, hload, hafter⟩ := Pass.foldlM_cons_ok.mp hbuilt
      obtain ⟨hsize', helements⟩ := loadTupleCallback_ok hsize (hnew row List.mem_cons_self) hload
      rw [List.map_cons, List.nodup_cons] at htids
      have hrest := ih htids.2 hsize' ?_ hafter
      · rw [hrest, helements, List.append_assoc]
        cases helement : row.element <;> simp [helement]
      · -- the label that was added is that of another row
        intro other hother element hmem
        rw [helements, List.mem_append] at hmem
        rcases hmem with hold | hadded
        · exact hnew other (List.mem_cons_of_mem _ hother) element hold
        · obtain ⟨value, -, rfl⟩ := Option.map_eq_some_iff.mp (Option.mem_toList.mp hadded)
          intro hlabel
          have htid := ItemPointer.toLabel_injective hlabel
          exact htids.1 (htid ▸ List.mem_map_of_mem hother)

/-- The index holds the rows that have a vector. -/
theorem build_elements [Add N] [One N] {toSize : N → Nat} {uninit : N} {heap : List (HeapRow D)}
    (htids : (heap.map HeapRow.tid).Nodup) {built : VectorIndex D}
    (hbuilt : build toSize uninit heap = Except.ok built) :
    built.elements = heap.filterMap HeapRow.element := by
  unfold build at hbuilt
  obtain ⟨self, -, hload⟩ := Pass.bind_ok.mp hbuilt
  have helements := loadTuples_ok heap htids rfl (by simp [VectorIndex.new]) hload
  simpa [VectorIndex.new] using helements

end HNSWIndexBuilder

/-! ## Scanning what was built -/

section Scan

variable {Q : {T K : Type} → [LinearOrder K] → (T → K) → Type} [PriorityQueue Q]
variable {D N : Type} [LinearOrder D]

/-- What `loadIndex` reads back from the file that `saveIndex` wrote. Links, levels and marks are
arbitrary, and so is the distance function that the scan chooses. -/
structure VectorIndex.LoadedAs (built : VectorIndex D) (index : HierarchicalNSW D) : Prop where
  count_eq : index.curElementCount = built.elements.length
  element_eq : ∀ id element, built.elements[id]? = some element →
    index.getExternalLabel id = element.1 ∧ index.getDataByInternalId id = element.2

variable {index : HierarchicalNSW D}

/-- The items that are there among the first `count`. -/
theorem reduceOption_range (items : List α) (count : Nat) :
    ((List.range count).map fun call => items[call]?).reduceOption = items.take count := by
  induction count with
  | zero => simp
  | succ count ih =>
      rw [List.range_succ, List.map_append, List.reduceOption_append, ih, List.take_add_one]
      cases hitem : items[count]? <;> simp [hitem]

variable (Q index) in
/-- A search reports distinct elements, and at least one if there are any and none is deleted. -/
theorem results_elements (target : List D) {lists : VisitedListPool} {held : Set Nat}
    (hsound : lists.Sound held) (count : Nat) :
    ∃ ids : List Nat, ids.Nodup ∧ (∀ id ∈ ids, id < index.curElementCount) ∧
      (0 < index.curElementCount → index.numDeleted = 0 → 0 < count → ids ≠ []) ∧
      ((hnswLibrary (Q := Q) index).results count ((hnswLibrary index).create target lists).1
          ((hnswLibrary (Q := Q) index).create target lists).2).reduceOption =
        ids.map (index.report target) := by
  rcases Nat.eq_zero_or_pos index.curElementCount with hzero | hcount
  · obtain ⟨iter, lists', hresults⟩ := ResultIterator.results_of_empty hzero count
      (ResultIterator.new target lists : ResultIterator Q D × _).1
      (ResultIterator.new target lists : ResultIterator Q D × _).2
    refine ⟨[], List.nodup_nil, by simp, by omega, ?_⟩
    rw [hnswLibrary_results index count hresults, List.reduceOption_replicate_none]
    rfl
  · obtain ⟨order, horder, hdone, hdelivers⟩ :=
      ResultIterator.new_delivers (Q := Q) index hcount target hsound
    obtain ⟨iter, lists', hresults, -⟩ := hdelivers.results count
    have hentry := index.baseLayerEntry_lt target hcount
    refine ⟨(order.filter index.reports).take count, ?_, ?_, ?_, ?_⟩
    · exact (horder.nodup.filter _).sublist (List.take_sublist _ _)
    · intro id hid
      have hmem := List.mem_toFinset.mpr (List.mem_of_mem_filter (List.mem_of_mem_take hid))
      exact index.reachable_lt hentry (horder.reachable (horder.subset_seen hmem))
    · intro _ hdeleted hcalls hnil
      have hmem : index.baseLayerEntry target ∈ order.filter index.reports := by
        refine List.mem_filter.mpr ⟨?_, by simp [HierarchicalNSW.reports, hdeleted]⟩
        exact (horder.mem_iff_reachable hdone _).mpr Relation.ReflTransGen.refl
      rcases List.take_eq_nil_iff.mp hnil with hnone | hempty
      · omega
      · rw [hempty] at hmem
        cases hmem
    · rw [hnswLibrary_results index count hresults, ← reduceOption_range, ← List.reduceOption_map,
        List.map_map]
      rfl

variable (index) in
/-- What a call returns for an element. -/
def elementTuple (target : List D) (id : Nat) : ItemPointer × Option D :=
  (ItemPointer.ofLabel (index.getExternalLabel id), some (index.dist target id))

variable (index) in
/-- The calls of an ORDER BY scan return distinct elements. -/
theorem returned_elements {lists : VisitedListPool} {held : Set Nat} (hsound : lists.Sound held)
    (uninit : IndexScanDesc D) (junk : ScanKey D × ScanKey D)
    (state : HNSWScanOpaque Q D (OpenIterator Q D)) (nkeys norderbys : Nat)
    (keys : Option (ScanKey D)) (target : List D) :
    ∃ start, hnswRescan (hnswLibrary index)
        (hnswBeginScan uninit junk state nkeys (norderbys + 1) lists) keys
        (some ⟨false, target⟩) = Except.ok start ∧
      ∀ count, ∃ list last,
        returned (hnswGettuple (hnswLibrary index) distanceQueueWidth) HNSWScan.tuple count start =
          Except.ok (list, last) ∧
        ∃ ids : List Nat, ids.Nodup ∧ (∀ id ∈ ids, id < index.curElementCount) ∧
          (0 < index.curElementCount → index.numDeleted = 0 → 0 < count → ids ≠ []) ∧
          list.reduceOption = ids.map (elementTuple index target) := by
  obtain ⟨start, hstart, hfirst, hask, rfl⟩ := rescan_order (hnswLibrary index) uninit junk state
    nkeys norderbys lists keys target
  refine ⟨start, hstart, fun count => ?_⟩
  obtain ⟨ids, hnodup, hids, hsome, hresults⟩ := results_elements Q index target hsound count
  obtain ⟨last, hreturned⟩ := returned_order (hnswLibrary index)
    (by decide : 0 < distanceQueueWidth) count hfirst hask
  refine ⟨_, last, hreturned, ids, hnodup, hids, hsome, ?_⟩
  rw [List.reduceOption_map, hresults, List.map_map]
  rfl

namespace VectorIndex.LoadedAs

variable {built : VectorIndex D}

omit [LinearOrder D] in
/-- Every element of the index that was built is a row of the table. -/
theorem element_row {heap : List (HeapRow D)}
    (helements : built.elements = heap.filterMap HeapRow.element) (hloaded : built.LoadedAs index)
    {id : Nat} (hid : id < index.curElementCount) :
    ∃ row ∈ heap, ∃ vector, row.value = some vector ∧
      index.getExternalLabel id = row.tid.toLabel ∧ index.getDataByInternalId id = vector := by
  rw [hloaded.count_eq] at hid
  have helement := List.getElem?_eq_getElem hid
  obtain ⟨hlabel, hdata⟩ := hloaded.element_eq id _ helement
  have hmem : built.elements[id] ∈ heap.filterMap HeapRow.element :=
    helements ▸ List.getElem_mem hid
  obtain ⟨row, hrow, hentry⟩ := List.mem_filterMap.mp hmem
  obtain ⟨vector, hvalue, heq⟩ := Option.map_eq_some_iff.mp hentry
  rw [← heq] at hlabel hdata
  exact ⟨row, hrow, vector, hvalue, hlabel, hdata⟩

omit [LinearOrder D] in
/-- Different elements have different labels. -/
theorem label_injective (hloaded : built.LoadedAs index)
    {id other : Nat} (hid : id < index.curElementCount) (hother : other < index.curElementCount)
    (hlabel : index.getExternalLabel id = index.getExternalLabel other) : id = other := by
  rw [hloaded.count_eq] at hid hother
  have hfound : ∀ slot, slot < built.elements.length →
      built.labelLookup (index.getExternalLabel slot) = some slot := by
    intro slot hslot
    have helement := List.getElem?_eq_getElem hslot
    rw [built.lookup_iff, (hloaded.element_eq slot _ helement).1, helement, Option.map_some]
  exact Option.some.inj ((hfound id hid).symm.trans (hlabel ▸ hfound other hother))

end VectorIndex.LoadedAs

/-- Build and scan: the calls of an ORDER BY scan return rows of the table that have a vector,
no row twice, each with the distance between the query and its vector. -/
theorem scan_of_build [Add N] [One N] (toSize : N → Nat) (indtuples : N)
    {heap : List (HeapRow D)} (htids : (heap.map HeapRow.tid).Nodup) {built : VectorIndex D}
    (hbuilt : HNSWIndexBuilder.build toSize indtuples heap = Except.ok built)
    (hloaded : built.LoadedAs index) {lists : VisitedListPool} {held : Set Nat}
    (hsound : lists.Sound held) (uninit : IndexScanDesc D) (junk : ScanKey D × ScanKey D)
    (state : HNSWScanOpaque Q D (OpenIterator Q D)) (nkeys norderbys : Nat)
    (keys : Option (ScanKey D)) (target : List D) :
    ∃ start, hnswRescan (hnswLibrary index)
        (hnswBeginScan uninit junk state nkeys (norderbys + 1) lists) keys
        (some ⟨false, target⟩) = Except.ok start ∧
      ∀ count, ∃ list last,
        returned (hnswGettuple (hnswLibrary index) distanceQueueWidth) HNSWScan.tuple count start =
          Except.ok (list, last) ∧
        (list.reduceOption.map Prod.fst).Nodup ∧
        ∀ tid dist, (tid, dist) ∈ list.reduceOption → ∃ row ∈ heap, row.tid = tid ∧
          ∃ vector, row.value = some vector ∧ dist = some (index.fstdistfunc target vector) := by
  have helements := HNSWIndexBuilder.build_elements htids hbuilt
  obtain ⟨start, hstart, hcalls⟩ := returned_elements index hsound uninit junk state nkeys
    norderbys keys target
  refine ⟨start, hstart, fun count => ?_⟩
  obtain ⟨list, last, hreturned, ids, hnodup, hids, -, hlist⟩ := hcalls count
  refine ⟨list, last, hreturned, ?_, ?_⟩
  · rw [hlist, List.map_map]
    refine hnodup.map_on ?_
    intro id hid other hother htid
    obtain ⟨row, -, -, -, hlabel, -⟩ := hloaded.element_row helements (hids id hid)
    obtain ⟨row', -, -, -, hlabel', -⟩ := hloaded.element_row helements (hids other hother)
    refine hloaded.label_injective (hids id hid) (hids other hother) ?_
    -- unpacking a label that was packed gives back the row
    simp only [Function.comp_apply, elementTuple, hlabel, hlabel',
      ItemPointer.ofLabel_toLabel] at htid
    rw [hlabel, hlabel', htid]
  · intro tid dist hmem
    rw [hlist] at hmem
    obtain ⟨id, hid, heq⟩ := List.mem_map.mp hmem
    obtain ⟨row, hrow, vector, hvalue, hlabel, hdata⟩ :=
      hloaded.element_row helements (hids id hid)
    simp only [elementTuple, HierarchicalNSW.dist, hlabel, hdata,
      ItemPointer.ofLabel_toLabel, Prod.mk.injEq] at heq
    exact ⟨row, hrow, heq.1, vector, hvalue, heq.2.symm⟩

end Scan

/-- Three rows with vectors and one without, in the block whose number is not positive as a signed
integer. -/
def farRows : List (HeapRow Int) :=
  [⟨⟨2147483648, 0⟩, some [0]⟩, ⟨⟨2147483648, 1⟩, some [1]⟩, ⟨⟨2147483648, 7⟩, none⟩,
    ⟨⟨2147483648, 2⟩, some [2]⟩]

theorem scan_of_build_farRows :
    let index := { cycleIndex with
      getExternalLabel := fun id => (⟨2147483648, UInt16.ofNat id⟩ : ItemPointer).toLabel }
    let lists := VisitedListPool.new fun _ _ => 0
    let uninit : IndexScanDesc Int := ⟨⟨0, 0, none, none⟩, ⟨0, 0⟩, false, true, none, false⟩
    let junk : ScanKey Int × ScanKey Int := (⟨false, []⟩, ⟨false, []⟩)
    let state : HNSWScanOpaque @SortedQueue Int (OpenIterator @SortedQueue Int) :=
      ⟨false, true, true, Range.radius 4, none⟩
    ∃ built, HNSWIndexBuilder.build id 0 farRows = Except.ok built ∧ built.LoadedAs index ∧
      ∃ start, hnswRescan (hnswLibrary index) (hnswBeginScan uninit junk state 0 1 lists) none
          (some ⟨false, [5]⟩) = Except.ok start ∧
        ∀ count, ∃ list last,
          returned (hnswGettuple (hnswLibrary index) distanceQueueWidth) HNSWScan.tuple count
            start = Except.ok (list, last) ∧
          (list.reduceOption.map Prod.fst).Nodup := by
  intro index lists uninit junk state
  have htids : (farRows.map HeapRow.tid).Nodup := by decide
  obtain ⟨built, hbuilt⟩ : ∃ built, HNSWIndexBuilder.build id 0 farRows = Except.ok built :=
    ⟨_, rfl⟩
  have helements := HNSWIndexBuilder.build_elements htids hbuilt
  have hloaded : built.LoadedAs index := by
    refine ⟨by rw [helements]; rfl, ?_⟩
    intro id element helement
    rw [helements] at helement
    match id, helement with
    | 0, helement | 1, helement | 2, helement =>
        obtain rfl := Option.some.inj helement
        exact ⟨rfl, rfl⟩
  obtain ⟨start, hstart, hcalls⟩ := scan_of_build id 0 htids hbuilt hloaded
    (VisitedListPool.new_sound fun _ _ => 0) uninit junk state 0 0 none [5]
  refine ⟨built, hbuilt, hloaded, start, hstart, fun count => ?_⟩
  obtain ⟨list, last, hreturned, hnodup, -⟩ := hcalls count
  exact ⟨list, last, hreturned, hnodup⟩

end VBase.AccessMethod
