import VBase.AccessMethod.HnswBuilder
import VBase.Hnsw.IndexRoundTrip

/-! # From the table to the scan

The second pass of `HNSWIndexBuilder` with the graph that `addPoint` really builds. It
fails where the list of labels and vectors does, with the same report, and otherwise
holds that list. The graph is saved, a scan loads it from the file, and what it returns
are rows of the table. How many of them can be reached is left open.
-/

namespace VBase.AccessMethod

open VBase.Hnsw PriorityQueue Command

variable {Q : {T K : Type} → [LinearOrder K] → (T → K) → Type} [PriorityQueue Q]
variable {D N : Type}

/-! ## The elements of a graph -/

/-- The graph has the elements of the list, in its order. -/
structure VectorIndex.HeldBy (index : VectorIndex D) (graph : Graph D) : Prop where
  dataSize : graph.dataSize = index.dataSize
  maxElements : graph.maxElements = index.maxElements
  count : graph.curElementCount = index.elements.length
  lookup : graph.labelLookup = index.labelLookup
  element : ∀ id element, index.elements[id]? = some element →
    graph.getExternalLabel id = element.1 ∧ graph.getDataByInternalId id = element.2

namespace VectorIndex.HeldBy

variable {index : VectorIndex D} {graph after : Graph D} {label : UInt64} {id : Nat}

/-- Nothing but the elements is asked of the graph. -/
theorem sameElements (hheld : index.HeldBy graph) (hsame : Graph.SameElements graph after) :
    index.HeldBy after where
  dataSize := hsame.dataSize.trans hheld.dataSize
  maxElements := hsame.maxElements.trans hheld.maxElements
  count := hsame.count.trans hheld.count
  lookup := hsame.lookup.trans hheld.lookup
  element := by
    intro id element helement
    rw [hsame.labels, hsame.data]
    exact hheld.element id element helement

/-- New data under a label that is there. -/
theorem addPoint_existing (hheld : index.HeldBy graph) (hlookup : graph.labelLookup label = some id)
    (dataPoint : List D) :
    ∃ next, index.addPoint dataPoint label = Except.ok next ∧
      next.HeldBy (graph.setData id dataPoint) := by
  rw [hheld.lookup] at hlookup
  unfold VectorIndex.addPoint
  split
  next slot hslot =>
    obtain rfl : slot = id := Option.some.inj (hslot.symm.trans hlookup)
    refine ⟨_, rfl, ⟨hheld.dataSize, hheld.maxElements, ?_, hheld.lookup, ?_⟩⟩
    · rw [List.length_set]
      exact hheld.count
    · intro other element helement
      have hlabel := (index.lookup_iff label slot).mp hslot
      change graph.getExternalLabel other = _ ∧ Function.update _ _ _ other = _
      by_cases hother : slot = other
      · subst hother
        obtain ⟨old, hold, hname⟩ := Option.map_eq_some_iff.mp hlabel
        have hlt := (List.getElem?_eq_some_iff.mp hold).1
        rw [List.getElem?_set_self hlt] at helement
        obtain rfl := Option.some.inj helement
        rw [Function.update_self, hheld.dataSize, (hheld.element slot old hold).1]
        exact ⟨hname, rfl⟩
      · rw [List.getElem?_set_ne hother] at helement
        rw [Function.update_of_ne (Ne.symm hother)]
        exact hheld.element other element helement
  next hnone =>
    rw [hlookup] at hnone
    cases hnone

/-- A new label at the end. -/
theorem addPoint_place (hheld : index.HeldBy graph) (hnew : graph.labelLookup label = none)
    (hroom : graph.curElementCount < graph.maxElements) (dataPoint : List D) (curlevel : Nat) :
    ∃ next, index.addPoint dataPoint label = Except.ok next ∧
      next.HeldBy (graph.place label dataPoint curlevel) := by
  rw [hheld.lookup] at hnew
  rw [hheld.count, hheld.maxElements] at hroom
  unfold VectorIndex.addPoint
  split
  next slot hslot =>
    rw [hnew] at hslot
    cases hslot
  next hnone =>
    rw [if_neg (Nat.not_le.mpr hroom)]
    refine ⟨_, rfl, ⟨hheld.dataSize, hheld.maxElements, ?_, ?_, ?_⟩⟩
    · rw [List.length_append, List.length_singleton, ← hheld.count]
      rfl
    · change Function.update graph.labelLookup label (some graph.curElementCount) = _
      rw [hheld.lookup, hheld.count]
    · intro other element helement
      change Function.update graph.getExternalLabel graph.curElementCount label other = _ ∧
        Function.update graph.getDataByInternalId graph.curElementCount _ other = _
      rw [hheld.count]
      rcases Nat.lt_trichotomy other index.elements.length with hlt | rfl | hgt
      · rw [List.getElem?_append_left hlt] at helement
        rw [Function.update_of_ne hlt.ne, Function.update_of_ne hlt.ne]
        exact hheld.element other element helement
      · rw [List.getElem?_concat_length] at helement
        obtain rfl := Option.some.inj helement
        rw [Function.update_self, Function.update_self, hheld.dataSize]
        exact ⟨rfl, rfl⟩
      · rw [List.getElem?_eq_none (by rw [List.length_append, List.length_singleton]; omega)]
          at helement
        cases helement

theorem addPoint_full (hheld : index.HeldBy graph) (hnew : graph.labelLookup label = none)
    (hfull : graph.maxElements ≤ graph.curElementCount) (dataPoint : List D) :
    index.addPoint dataPoint label =
      Except.error "The number of elements exceeds the specified limit" := by
  rw [hheld.lookup] at hnew
  rw [hheld.count, hheld.maxElements] at hfull
  unfold VectorIndex.addPoint
  split
  next slot hslot =>
    rw [hnew] at hslot
    cases hslot
  next => rw [if_pos hfull]

variable [LinearOrder D]

/-- One call of `addPoint` on an index without deleted elements does to the graph what it does to
the list. -/
theorem addPoint_yields (hheld : index.HeldBy graph) (hintegrity : graph.Integrity)
    (hundeleted : graph.deleted = ∅) (draws : Draws) (dataPoint : List D) (label : UInt64)
    (level : Int) :
    Yields (Graph.addPoint Q draws dataPoint label level) graph
      (fun _ after => after.Integrity ∧ after.deleted = ∅ ∧
        ∃ next, index.addPoint dataPoint label = Except.ok next ∧ next.HeldBy after)
      (fun failure _ => ∃ what, failure = .runtimeError what ∧
        index.addPoint dataPoint label = Except.error what) := by
  cases hlookup : graph.labelLookup label with
  | some id =>
      refine (Graph.addPoint_existing hintegrity hlookup draws dataPoint level).imp ?_
        fun _ _ hfalse => hfalse.elim
      rintro _ after ⟨hafter, hdeleted, hsame⟩
      obtain ⟨next, hnext, hset⟩ := hheld.addPoint_existing hlookup dataPoint
      refine ⟨hafter, ?_, next, hnext, hset.sameElements hsame⟩
      rw [hdeleted, hundeleted, Finset.erase_empty]
  | none =>
      simp only [Graph.addPoint, yields_bind, yields_get, hlookup]
      rcases Nat.lt_or_ge graph.curElementCount graph.maxElements with hroom | hfull
      · refine (Graph.insertPoint_yields hintegrity hlookup hroom draws dataPoint level).imp ?_ ?_
        · rintro _ after ⟨hafter, hdeleted, hsame⟩
          obtain ⟨next, hnext, hplaced⟩ := hheld.addPoint_place hlookup hroom dataPoint _
          exact ⟨hafter, hdeleted.trans hundeleted, next, hnext, hplaced.sameElements hsame⟩
        · rintro failure _ ⟨-, hsome⟩
          rw [Graph.hasDeleted_iff, hundeleted] at hsome
          exact absurd hsome Finset.not_nonempty_empty
      · simp only [Graph.insertPoint, yields_bind, yields_get, if_pos hfull, yields_throw]
        exact ⟨_, rfl, hheld.addPoint_full hlookup hfull dataPoint⟩

end VectorIndex.HeldBy

/-! ## The index that a scan searches -/

/-- What a search relies on. The number of marks is not among it. -/
structure Searchable (graph : Graph D) : Prop where
  linked : graph.Linked
  count_le : graph.curElementCount ≤ graph.maxElements
  entered : graph.Entered

/-- The links of an element on a level that it has. A search does not look at others. -/
def linksAt (graph : Graph D) (level id : Nat) : List Nat :=
  if id < graph.curElementCount ∧ level ≤ graph.elementLevels id then graph.links id level else []

theorem linksAt_lt {graph : Graph D} (hlinked : graph.Linked) {level id link : Nat}
    (hlink : link ∈ linksAt graph level id) : link < graph.curElementCount := by
  unfold linksAt at hlink
  split at hlink
  next hat => exact ((hlinked.lists level id hat).at_level link hlink).1
  next => cases hlink

/-- A loaded graph, as the searches see it. -/
def Searchable.index {graph : Graph D} (hsearchable : Searchable graph) : HierarchicalNSW D where
  maxElements := graph.maxElements
  curElementCount := graph.curElementCount
  numDeleted := graph.numDeleted.toNat
  maxlevel := graph.maxlevel.toNat
  enterpointNode := graph.enterpointNode.getD 0
  getLinklist0 := linksAt graph 0
  getLinklist := fun id level => linksAt graph level id
  isMarkedDeleted := graph.isMarkedDeleted
  getExternalLabel := graph.getExternalLabel
  getDataByInternalId := graph.getDataByInternalId
  fstdistfunc := graph.fstdistfunc
  maxElements_lt := graph.maxElements_lt
  count_le := hsearchable.count_le
  enterpoint_lt := by
    intro hcount
    cases hentry : graph.enterpointNode with
    | none => exact absurd (hsearchable.entered.of_none hentry).1 hcount.ne'
    | some entry =>
        obtain ⟨_, _, hat, _⟩ := hsearchable.entered.of_some entry hentry
        exact hat.1
  linklist0_lt := fun _ _ hlink => linksAt_lt hsearchable.linked hlink
  linklist_lt := fun _ _ _ hlink => linksAt_lt hsearchable.linked hlink

/-- A scan loads the file of a graph that is in order: what it searches has the elements of the
graph and the distance function of the scan. -/
theorem exists_searchable {graph : Graph D} (hintegrity : graph.Integrity)
    (hstorable : graph.Storable) (format : ComponentFormat D) (mult : UInt64)
    (fstdistfunc : List D → List D → D) (uninit : Uninitialised D) :
    ∃ loaded, loadIndex format graph.dataSize fstdistfunc 0 uninit
        (some (graph.saveIndex format mult)) = Except.ok loaded ∧
      Searchable loaded ∧ loaded.fstdistfunc = fstdistfunc ∧
      loaded.numDeleted = uninit.numDeleted + graph.numDeleted ∧
      ∀ index : VectorIndex D, index.HeldBy graph →
        loaded.curElementCount = index.elements.length ∧
        ∀ id element, index.elements[id]? = some element →
          loaded.getExternalLabel id = element.1 ∧ loaded.getDataByInternalId id = element.2 := by
  have hstorable' : { graph with fstdistfunc := fstdistfunc }.Storable :=
    ⟨hstorable.count_lt, hstorable.size_lt, hstorable.level0_lt,
      hstorable.efConstruction_lt, hstorable.maxlevel_lt, hstorable.lists_lt,
      hstorable.components⟩
  have hintegrity' := hintegrity.withDistance fstdistfunc
  obtain ⟨loaded, hload, hrestores, hpool, hmax, hdeleted⟩ :=
    Graph.loadIndex_ok hintegrity' hstorable' format mult ⟨0, by decide⟩ uninit
  refine ⟨loaded, hload, ⟨hrestores.linked hintegrity'.linked hpool, ?_,
    hrestores.entered hintegrity'.entered⟩, hrestores.fstdistfunc, hdeleted, ?_⟩
  · rw [hrestores.count, hmax]
    exact hintegrity'.count_le_reloaded 0
  · intro index hheld
    refine ⟨hrestores.count.trans hheld.count, fun id element helement => ?_⟩
    have hid : id < graph.curElementCount := by
      rw [hheld.count]
      exact (List.getElem?_eq_some_iff.mp helement).1
    obtain ⟨hlabel, hdata⟩ := hheld.element id element helement
    exact ⟨(hrestores.labels id hid).trans hlabel, (hrestores.data id hid).trans hdata⟩

/-! ## The second pass -/

/-- How the build of a graph ends that does not succeed. -/
inductive GraphFailure
  | report (failure : Failure)
  | undefined
  deriving DecidableEq

/-- A row with what the environment decides when it is added. -/
abbrev DrawnRow (D : Type) := HeapRow D × Draws

variable [LinearOrder D]

namespace HNSWIndexBuilder

variable (Q) in
/-- `HNSWLoadTupleCallback` on the graph. -/
def loadTupleIntoGraph (self : HNSWIndexBuilder N) (graph : Graph D) (row : DrawnRow D) :
    Except GraphFailure (Graph D) :=
  match row.1.value with
  | none => Except.ok graph
  | some array =>
      match self.checkLength array with
      | Except.error failure => Except.error (.report failure)
      | Except.ok () =>
          match Graph.addPoint Q row.2 array row.1.tid.toLabel (-1) graph with
          | .ok _ after => Except.ok after
          | .error (.runtimeError what) _ =>
              Except.error (.report (Failure.elog s!"C++ exception: {what}"))
          | .error .undefined _ => Except.error .undefined

variable (Q) in
/-- `ConstructInternalBuilder` and `LoadTuples`, with the defaults of the constructor. -/
def buildGraph [Add N] [One N] (toSize : N → Capacity) (uninit : N)
    (fstdistfunc : List D → List D → D) (memory : Memory D) (rows : List (DrawnRow D)) :
    Except GraphFailure (Graph D) :=
  match (rows.map Prod.fst).foldlM computeElementsCallback (⟨0, uninit⟩ : HNSWIndexBuilder N) with
  | Except.error failure => Except.error (.report failure)
  | Except.ok self => rows.foldlM (loadTupleIntoGraph Q self)
      (Graph.new (sizeT self.numDimension) fstdistfunc (toSize self.indtuples) 16 200 memory)

/-- The graph goes along with the list: both are built, or both end with one report. -/
inductive Agree : Except GraphFailure (Graph D) → Except Failure (VectorIndex D) → Prop
  | built {graph : Graph D} {index : VectorIndex D} (integrity : graph.Integrity)
      (undeleted : graph.deleted = ∅) (held : index.HeldBy graph) :
      Agree (Except.ok graph) (Except.ok index)
  | reported (failure : Failure) :
      Agree (Except.error (.report failure)) (Except.error failure)

/-- One row. -/
theorem loadTuple_agree (self : HNSWIndexBuilder N) {graph : Graph D} {index : VectorIndex D}
    (hintegrity : graph.Integrity) (hundeleted : graph.deleted = ∅) (hheld : index.HeldBy graph)
    (row : DrawnRow D) :
    Agree (loadTupleIntoGraph Q self graph row) (self.loadTupleCallback index row.1) := by
  unfold loadTupleIntoGraph loadTupleCallback
  cases row.1.value with
  | none => exact .built hintegrity hundeleted hheld
  | some array =>
      cases hcheck : self.checkLength array with
      | error failure =>
          simp only [hcheck]
          exact .reported failure
      | ok checked =>
          have hadd := hheld.addPoint_yields (Q := Q) hintegrity hundeleted row.2 array
            row.1.tid.toLabel (-1)
          cases hrun : Graph.addPoint Q row.2 array row.1.tid.toLabel (-1) graph with
          | ok id after =>
              obtain ⟨hafter, hdeleted, next, hnext, hholds⟩ := hadd.of_ok hrun
              simp only [hcheck, hrun, hnext]
              exact .built hafter hdeleted hholds
          | error failure after =>
              obtain ⟨what, rfl, hwhat⟩ := hadd.of_error hrun
              simp only [hcheck, hrun, hwhat]
              exact .reported _

/-- All rows. -/
theorem loadTuples_agree (self : HNSWIndexBuilder N) (rows : List (DrawnRow D)) {graph : Graph D}
    {index : VectorIndex D} (hintegrity : graph.Integrity) (hundeleted : graph.deleted = ∅)
    (hheld : index.HeldBy graph) :
    Agree (rows.foldlM (loadTupleIntoGraph Q self) graph)
      ((rows.map Prod.fst).foldlM self.loadTupleCallback index) := by
  induction rows generalizing graph index with
  | nil => exact .built hintegrity hundeleted hheld
  | cons row rest ih =>
      have hrow := loadTuple_agree (Q := Q) self hintegrity hundeleted hheld row
      rw [List.map_cons, List.foldlM_cons, List.foldlM_cons]
      generalize loadTupleIntoGraph Q self graph row = after at hrow ⊢
      generalize self.loadTupleCallback index row.1 = next at hrow ⊢
      -- A report of this row is that of the pass; otherwise the rest goes on from related states.
      cases hrow with
      | built hafter hdeleted hholds => exact ih hafter hdeleted hholds
      | reported failure => exact .reported failure

/-- Building the graph succeeds exactly if building the list does, holds the same elements then,
and otherwise ends with the same report. In particular it never runs into undefined behaviour. -/
theorem buildGraph_agrees [Add N] [One N] (toSize : N → Capacity) (uninit : N)
    (fstdistfunc : List D → List D → D) (memory : Memory D) (rows : List (DrawnRow D)) :
    Agree (buildGraph Q toSize uninit fstdistfunc memory rows)
      (build (Capacity.count ∘ toSize) uninit (rows.map Prod.fst)) := by
  unfold buildGraph build
  cases (rows.map Prod.fst).foldlM computeElementsCallback (⟨0, uninit⟩ : HNSWIndexBuilder N) with
  | error failure => exact .reported failure
  | ok self =>
      refine loadTuples_agree self rows ?_ ?_ ?_
      · exact Graph.new_integrity _ _ _ (by decide) (by decide) 200 memory
      · rfl
      · exact ⟨rfl, rfl, rfl, rfl, fun _ _ helement => by simp [VectorIndex.new] at helement⟩

end HNSWIndexBuilder

/-- The graph that is built goes along with the list of labels and vectors: both are there, the
graph is in order and has the elements of the list, or both end with one report. -/
theorem buildGraph_refines_build [Add N] [One N] (toSize : N → Capacity) (indtuples : N)
    (fstdistfunc : List D → List D → D) (memory : Memory D) (rows : List (DrawnRow D)) :
    (∃ failure,
      HNSWIndexBuilder.buildGraph Q toSize indtuples fstdistfunc memory rows =
        Except.error (.report failure) ∧
      HNSWIndexBuilder.build (Capacity.count ∘ toSize) indtuples (rows.map Prod.fst) =
        Except.error failure) ∨
    ∃ graph built,
      HNSWIndexBuilder.buildGraph Q toSize indtuples fstdistfunc memory rows = Except.ok graph ∧
      HNSWIndexBuilder.build (Capacity.count ∘ toSize) indtuples (rows.map Prod.fst) =
        Except.ok built ∧
      graph.Integrity ∧ graph.deleted = ∅ ∧ built.HeldBy graph := by
  have hagree := HNSWIndexBuilder.buildGraph_agrees (Q := Q) toSize indtuples fstdistfunc memory
    rows
  generalize HNSWIndexBuilder.buildGraph Q toSize indtuples fstdistfunc memory rows = graph
    at hagree ⊢
  generalize HNSWIndexBuilder.build (Capacity.count ∘ toSize) indtuples (rows.map Prod.fst) =
    built at hagree ⊢
  cases hagree with
  | built hintegrity hundeleted hheld =>
      exact Or.inr ⟨_, _, rfl, rfl, hintegrity, hundeleted, hheld⟩
  | reported failure => exact Or.inl ⟨failure, rfl, rfl⟩

/-! ## Build, save, load and scan -/

/-- The calls of an ORDER BY scan on an index that was built from a table, saved, and loaded by
the scan return rows of the table that have a vector, no row twice, each with the distance that
the scan computes between the query and its vector. The first call returns a row if there is one
with a vector and `num_deleted_` was clear. -/
theorem scan_of_saved_build [Add N] [One N] (toSize : N → Capacity) (indtuples : N)
    {rows : List (DrawnRow D)} (htids : ((rows.map Prod.fst).map HeapRow.tid).Nodup)
    {buildDistance : List D → List D → D} {memory : Memory D} {graph : Graph D}
    (hbuilt : HNSWIndexBuilder.buildGraph Q toSize indtuples buildDistance memory rows =
      Except.ok graph)
    (hstorable : graph.Storable) (format : ComponentFormat D) (mult : UInt64)
    (scanDistance : List D → List D → D) (uninitLoad : Uninitialised D)
    {lists : VisitedListPool} {held : Set Nat} (hsound : lists.Sound held)
    (uninit : IndexScanDesc D) (junk : ScanKey D × ScanKey D)
    (state : HNSWScanOpaque Q D (OpenIterator Q D)) (nkeys norderbys : Nat)
    (keys : Option (ScanKey D)) (target : List D) :
    ∃ loaded, ∃ hsearchable : Searchable loaded,
      loadIndex format graph.dataSize scanDistance 0 uninitLoad
        (some (graph.saveIndex format mult)) = Except.ok loaded ∧
      ∃ start, hnswRescan (hnswLibrary hsearchable.index)
          (hnswBeginScan uninit junk state nkeys (norderbys + 1) lists) keys
          (some ⟨false, target⟩) = Except.ok start ∧
        ∀ count, ∃ list last,
          returned (hnswGettuple (hnswLibrary hsearchable.index) distanceQueueWidth)
            HNSWScan.tuple count start = Except.ok (list, last) ∧
          (list.reduceOption.map Prod.fst).Nodup ∧
          (∀ tid dist, (tid, dist) ∈ list.reduceOption → ∃ row ∈ rows.map Prod.fst,
            row.tid = tid ∧ ∃ vector, row.value = some vector ∧
              dist = some (scanDistance target vector)) ∧
          (uninitLoad.numDeleted = 0 → 0 < count →
            (∃ row ∈ rows.map Prod.fst, row.value ≠ none) → list.reduceOption ≠ []) := by
  have hagree := HNSWIndexBuilder.buildGraph_agrees (Q := Q) toSize indtuples buildDistance
    memory rows
  rw [hbuilt] at hagree
  generalize hlist : HNSWIndexBuilder.build (Capacity.count ∘ toSize) indtuples
    (rows.map Prod.fst) = result at hagree
  obtain ⟨hintegrity, hundeleted, hheld⟩ := hagree
  have helements := HNSWIndexBuilder.build_elements htids hlist
  obtain ⟨loaded, hload, hsearchable, hdistance, hdeleted, helement⟩ :=
    exists_searchable hintegrity hstorable format mult scanDistance uninitLoad
  have hloaded : VectorIndex.LoadedAs _ hsearchable.index :=
    ⟨(helement _ hheld).1, (helement _ hheld).2⟩
  obtain ⟨start, hstart, hcalls⟩ := returned_elements hsearchable.index hsound uninit junk state
    nkeys norderbys keys target
  refine ⟨loaded, hsearchable, hload, start, hstart, fun count => ?_⟩
  obtain ⟨list, last, hreturned, ids, hnodup, hids, hsome, hreduced⟩ := hcalls count
  refine ⟨list, last, hreturned, ?_, ?_, ?_⟩
  · rw [hreduced, List.map_map]
    refine hnodup.map_on ?_
    intro id hid other hother htid
    obtain ⟨row, -, -, -, hlabel, -⟩ := hloaded.element_row helements (hids id hid)
    obtain ⟨row', -, -, -, hlabel', -⟩ := hloaded.element_row helements (hids other hother)
    apply hloaded.label_injective (hids id hid) (hids other hother)
    simp only [Function.comp_apply, elementTuple, hlabel, hlabel',
      ItemPointer.ofLabel_toLabel] at htid
    rw [hlabel, hlabel', htid]
  · intro tid dist hmem
    rw [hreduced] at hmem
    obtain ⟨id, hid, heq⟩ := List.mem_map.mp hmem
    obtain ⟨row, hrow, vector, hvalue, hlabel, hdata⟩ :=
      hloaded.element_row helements (hids id hid)
    have hfunction : hsearchable.index.fstdistfunc = scanDistance := hdistance
    simp only [elementTuple, HierarchicalNSW.dist, hlabel, hdata, hfunction,
      ItemPointer.ofLabel_toLabel, Prod.mk.injEq] at heq
    exact ⟨row, hrow, heq.1, vector, hvalue, heq.2.symm⟩
  · rintro huninit hcount ⟨row, hrow, hvalue⟩ hnil
    have hnone : hsearchable.index.numDeleted = 0 := by
      change loaded.numDeleted.toNat = 0
      rw [hdeleted, huninit, hintegrity.counted, hundeleted]
      rfl
    obtain ⟨vector, hvector⟩ := Option.ne_none_iff_exists'.mp hvalue
    have hmem : (row.tid.toLabel, vector) ∈ (rows.map Prod.fst).filterMap HeapRow.element := by
      refine List.mem_filterMap.mpr ⟨row, hrow, ?_⟩
      rw [HeapRow.element, hvector]
      rfl
    have hpositive : 0 < hsearchable.index.curElementCount := by
      rw [hloaded.count_eq, helements]
      exact List.length_pos_of_mem hmem
    rw [hreduced, List.map_eq_nil_iff] at hnil
    exact hsome hpositive hnone hcount hnil

/-- Two rows with vectors and one without. -/
def byteRows : List (DrawnRow (Fin 256)) :=
  [(⟨⟨1, 1⟩, some [byteOf 3]⟩, drawLevel 0), (⟨⟨1, 2⟩, none⟩, drawLevel 0),
    (⟨⟨1, 3⟩, some [byteOf 8]⟩, drawLevel 1)]

/-- Room for as many rows as were counted, up to a hundred. -/
def byteSize (indtuples : Nat) : Capacity := ⟨min indtuples 100, by omega⟩

theorem byteRows_storable :
    ∃ graph, HNSWIndexBuilder.buildGraph @SortedQueue byteSize 0 byteDistance byteMemory byteRows =
      Except.ok graph ∧ graph.Storable := by
  have hbuild : (HNSWIndexBuilder.buildGraph @SortedQueue byteSize 0 byteDistance byteMemory
      byteRows).toOption.any (fun graph => decide graph.Storable) = true := by decide +kernel
  cases hgraph : HNSWIndexBuilder.buildGraph @SortedQueue byteSize 0 byteDistance byteMemory
      byteRows with
  | error failure =>
      rw [hgraph] at hbuild
      exact absurd hbuild Bool.false_ne_true
  | ok graph =>
      rw [hgraph] at hbuild
      exact ⟨graph, rfl, of_decide_eq_true hbuild⟩

theorem scan_of_saved_build_bytes :
    let lists := VisitedListPool.new fun _ _ => 0
    let uninit : IndexScanDesc (Fin 256) := ⟨⟨0, 0, none, none⟩, ⟨0, 0⟩, false, true, none, false⟩
    let junk : ScanKey (Fin 256) × ScanKey (Fin 256) := (⟨false, []⟩, ⟨false, []⟩)
    let state : HNSWScanOpaque @SortedQueue (Fin 256) (OpenIterator @SortedQueue (Fin 256)) :=
      ⟨false, true, true, Range.radius (byteOf 4), none⟩
    ∃ graph loaded, ∃ hsearchable : Searchable loaded,
      HNSWIndexBuilder.buildGraph @SortedQueue byteSize 0 byteDistance byteMemory byteRows =
        Except.ok graph ∧
      loadIndex byteFormat graph.dataSize byteDistance 0 byteUninit
        (some (graph.saveIndex byteFormat 1)) = Except.ok loaded ∧
      ∃ start, hnswRescan (hnswLibrary hsearchable.index)
          (hnswBeginScan uninit junk state 0 1 lists) none (some ⟨false, [byteOf 5]⟩) =
            Except.ok start ∧
        ∀ count, 0 < count → ∃ list last,
          returned (hnswGettuple (hnswLibrary hsearchable.index) distanceQueueWidth)
            HNSWScan.tuple count start = Except.ok (list, last) ∧ list.reduceOption ≠ [] := by
  intro lists uninit junk state
  obtain ⟨graph, hbuilt, hstorable⟩ := byteRows_storable
  have htids : ((byteRows.map Prod.fst).map HeapRow.tid).Nodup := by decide
  obtain ⟨loaded, hsearchable, hload, start, hstart, hcalls⟩ := scan_of_saved_build byteSize 0
    htids hbuilt hstorable byteFormat 1 byteDistance byteUninit
    (VisitedListPool.new_sound fun _ _ => 0) uninit junk state 0 0 none [byteOf 5]
  refine ⟨graph, loaded, hsearchable, hbuilt, hload, start, hstart, fun count hcount => ?_⟩
  obtain ⟨list, last, hreturned, -, -, hsome⟩ := hcalls count
  refine ⟨list, last, hreturned, hsome rfl hcount ?_⟩
  exact ⟨_, List.mem_cons_self, by decide⟩

end VBase.AccessMethod
