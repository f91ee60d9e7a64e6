import VBase.AccessMethod.HnswBuilder
import VBase.Foundation.Double
import VBase.Foundation.Pass

/-! # The two passes of an HNSW build

The first pass over the table counts the vectors, the second adds them to an index
that has room for as many as were counted. The count is a double that no constructor
sets, so both the room and the statistics of the index depend on what was in memory.
-/

namespace VBase.AccessMethod

variable {D : Type}

structure IndexBuildResult where
  heapTuples : Float
  indexTuples : Float

/-- The number of rows that have a vector, which is how often `addPoint` is called. -/
def vectorRows (heap : List (HeapRow D)) : Nat := (heap.filterMap HeapRow.value).length

theorem vectorRows_append (heap others : List (HeapRow D)) :
    vectorRows (heap ++ others) = vectorRows heap + vectorRows others := by
  rw [vectorRows, List.filterMap_append, List.length_append, vectorRows, vectorRows]

theorem vectorRows_eq_elements (heap : List (HeapRow D)) :
    vectorRows heap = (heap.filterMap HeapRow.element).length := by
  have hvectors : (heap.filterMap HeapRow.element).map Prod.snd =
      heap.filterMap HeapRow.value := by
    rw [List.map_filterMap]
    congr 1
    funext row
    cases hvalue : row.value <;> simp [HeapRow.element, hvalue]
  rw [vectorRows, ← hvectors, List.length_map]

/-- There are fewer row identifiers than numbers that a double counts exactly. -/
theorem length_lt_of_nodup_tids {heap : List (HeapRow D)}
    (htids : (heap.map HeapRow.tid).Nodup) : heap.length < 2 ^ 53 := by
  let number (tid : ItemPointer) : Nat := tid.blkno.toNat * 2 ^ 16 + tid.offset.toNat
  have hinjective : Function.Injective number := by
    rintro ⟨blkno, offset⟩ ⟨blkno', offset'⟩ hnumber
    have hoffset := offset.toNat_lt
    have hoffset' := offset'.toNat_lt
    simp only [number] at hnumber
    rw [ItemPointer.mk.injEq, ← UInt32.toNat_inj, ← UInt16.toNat_inj]
    omega
  have hnodup : ((heap.map HeapRow.tid).map number).Nodup := htids.map hinjective
  have hsubset : ((heap.map HeapRow.tid).map number).toFinset ⊆ Finset.range (2 ^ 48) := by
    intro code hcode
    obtain ⟨tid, -, rfl⟩ := List.mem_map.mp (List.mem_toFinset.mp hcode)
    have hblkno := tid.blkno.toNat_lt
    have hoffset := tid.offset.toNat_lt
    rw [Finset.mem_range]
    simp only [number]
    omega
  have hcard := Finset.card_le_card hsubset
  rw [List.toFinset_card_of_nodup hnodup, Finset.card_range, List.length_map,
    List.length_map] at hcard
  omega

theorem vectorRows_le_length (heap : List (HeapRow D)) : vectorRows heap ≤ heap.length :=
  List.length_filterMap_le _ _

/-! ## Room for another element -/

namespace VectorIndex

/-- The room stays, and a call adds at most one element. -/
theorem addPoint_grows {index after : VectorIndex D} {dataPoint : List D} {label : UInt64}
    (hadd : index.addPoint dataPoint label = Except.ok after) :
    after.maxElements = index.maxElements ∧
      after.elements.length ≤ index.elements.length + 1 := by
  unfold addPoint at hadd
  split at hadd
  · obtain rfl := Except.ok.inj hadd
    simp
  · split at hadd
    · cases hadd
    · obtain rfl := Except.ok.inj hadd
      simp

theorem addPoint_of_room {index : VectorIndex D} (hroom : index.elements.length < index.maxElements)
    (dataPoint : List D) (label : UInt64) :
    ∃ after, index.addPoint dataPoint label = Except.ok after := by
  unfold addPoint
  split
  · exact ⟨_, rfl⟩
  · rw [if_neg (not_le.mpr hroom)]
    exact ⟨_, rfl⟩

end VectorIndex

namespace HNSWIndexBuilder

/-- The index that `ConstructInternalBuilder` allocates after the first pass. -/
def vectorIndex (undefined : Float → Nat) (self : HNSWIndexBuilder Float) : VectorIndex D :=
  VectorIndex.new (sizeT self.numDimension) (Double.toSize undefined self.indtuples)

/-- `hnsw_build`. The number of rows in the table is that of `table_index_build_scan`. -/
def hnswBuild (undefined : Float → Nat) (uninit reltuples : Float) (heap : List (HeapRow D)) :
    Except Failure (VectorIndex D × IndexBuildResult) := do
  let self ← heap.foldlM computeElementsCallback ⟨0, uninit⟩
  let built ← heap.foldlM self.loadTupleCallback (self.vectorIndex undefined)
  return (built, ⟨reltuples, self.indtuples⟩)

/-- A build that ends went through both passes. -/
theorem hnswBuild_ok {undefined : Float → Nat} {uninit reltuples : Float}
    {heap : List (HeapRow D)} {built : VectorIndex D} {result : IndexBuildResult}
    (hbuild : hnswBuild undefined uninit reltuples heap = Except.ok (built, result)) :
    ∃ self, heap.foldlM computeElementsCallback ⟨0, uninit⟩ = Except.ok self ∧
      heap.foldlM self.loadTupleCallback (self.vectorIndex undefined) = Except.ok built ∧
      result = ⟨reltuples, self.indtuples⟩ := by
  unfold hnswBuild at hbuild
  obtain ⟨self, hcompute, hpass⟩ := Pass.bind_ok.mp hbuild
  obtain ⟨loaded, hload, hreturn⟩ := Pass.bind_ok.mp hpass
  obtain ⟨rfl, rfl⟩ := Prod.mk.inj (Except.ok.inj hreturn)
  exact ⟨self, hcompute, hload, rfl⟩

/-! ## What the passes count -/

theorem computeElementsCallback_ok {self after : HNSWIndexBuilder Float} {row : HeapRow D}
    (hcall : self.computeElementsCallback row = Except.ok after) :
    after.indtuples = (fun counted => counted + 1)^[vectorRows [row]] self.indtuples := by
  unfold computeElementsCallback at hcall
  cases hvalue : row.value with
  | none =>
      rw [hvalue] at hcall
      obtain rfl := Except.ok.inj hcall
      simp [vectorRows, hvalue]
  | some array =>
      rw [hvalue] at hcall
      dsimp only at hcall
      generalize hself : (if self.numDimension = 0 then
        { self with numDimension := Int32.ofNat array.length } else self) = learned at hcall
      have hcount : learned.indtuples = self.indtuples := by
        rw [← hself]
        split <;> rfl
      obtain ⟨_, -, hreturn⟩ := Pass.bind_ok.mp hcall
      obtain rfl := Except.ok.inj hreturn
      simp [vectorRows, hvalue, hcount]

/-- The first pass increments once for every row that has a vector. -/
theorem computeElements_ok {uninit : Float} {heap : List (HeapRow D)}
    {self : HNSWIndexBuilder Float}
    (hcompute : heap.foldlM computeElementsCallback ⟨0, uninit⟩ = Except.ok self) :
    self.indtuples = (fun counted => counted + 1)^[vectorRows heap] uninit := by
  refine Pass.invariant (motive := fun seen (self : HNSWIndexBuilder Float) =>
    self.indtuples = (fun counted => counted + 1)^[vectorRows seen] uninit) ?_ rfl hcompute
  intro seen state row next hseen hcall
  rw [computeElementsCallback_ok hcall, hseen, vectorRows_append, Nat.add_comm,
    Function.iterate_add_apply]

theorem loadTupleCallback_grows {self : HNSWIndexBuilder Float} {index after : VectorIndex D}
    {row : HeapRow D} (hcall : self.loadTupleCallback index row = Except.ok after) :
    after.maxElements = index.maxElements ∧
      after.elements.length ≤ index.elements.length + vectorRows [row] := by
  rcases loadTupleCallback_cases hcall with ⟨-, rfl⟩ | ⟨array, hvalue, -, hadd⟩
  · exact ⟨rfl, Nat.le_add_right _ _⟩
  · simpa [vectorRows, hvalue] using VectorIndex.addPoint_grows hadd

/-- The second pass keeps the room, and adds at most one element for each row with a vector. -/
theorem loadTuples_grows {undefined : Float → Nat} {self : HNSWIndexBuilder Float}
    {heap : List (HeapRow D)} {index : VectorIndex D}
    (hload : heap.foldlM self.loadTupleCallback (self.vectorIndex undefined) = Except.ok index) :
    index.maxElements = Double.toSize undefined self.indtuples ∧
      index.elements.length ≤ vectorRows heap := by
  refine Pass.invariant (motive := fun seen (index : VectorIndex D) =>
    index.maxElements = Double.toSize undefined self.indtuples ∧
      index.elements.length ≤ vectorRows seen) ?_ ⟨rfl, Nat.zero_le _⟩ hload
  intro seen state row next hseen hcall
  obtain ⟨hroom, hlength⟩ := loadTupleCallback_grows hcall
  rw [vectorRows_append]
  exact ⟨hroom.trans hseen.1, by omega⟩

/-! ## Agreement -/

/-- Once the first pass is through, no `addPoint` fails, and if the second pass is through as
well then the room is the number of calls and the statistics are the number of elements. -/
def PassesAgree (undefined : Float → Nat) (uninit : Float) (heap : List (HeapRow D)) : Prop :=
  (∀ self before row after array index, heap = before ++ row :: after →
    heap.foldlM computeElementsCallback ⟨0, uninit⟩ = Except.ok self →
    before.foldlM self.loadTupleCallback (self.vectorIndex undefined) = Except.ok index →
    row.value = some array → ∃ added, index.addPoint array row.tid.toLabel = Except.ok added) ∧
  ∀ reltuples built result,
    hnswBuild undefined uninit reltuples heap = Except.ok (built, result) →
    built.maxElements = vectorRows heap ∧
      (result.indexTuples == Double.ofCount built.elements.length) = true

/-- The passes agree on every table exactly when the count starts at zero. -/
theorem passesAgree_iff (undefined : Float → Nat) (uninit : Float) :
    (∀ heap : List (HeapRow D), (heap.map HeapRow.tid).Nodup →
      PassesAgree undefined uninit heap) ↔ (uninit == 0) = true := by
  constructor
  · intro hagree
    -- the statistics of an empty table are what was in memory
    have hempty := (hagree [] List.nodup_nil).2 0 _ _ rfl
    rw [← Double.ofCount_zero]
    exact hempty.2
  · intro hzero heap htids
    have hlt : vectorRows heap < 2 ^ 53 :=
      (vectorRows_le_length heap).trans_lt (length_lt_of_nodup_tids htids)
    obtain ⟨hcount, hsize⟩ := Double.iterate_add_one hzero hlt undefined
    constructor
    · intro self before row after array index hheap hcompute hload hvalue
      obtain ⟨hroom, hlength⟩ := loadTuples_grows hload
      apply VectorIndex.addPoint_of_room
      rw [hroom, computeElements_ok hcompute, hsize, hheap, vectorRows_append]
      simp only [vectorRows, List.filterMap_cons_some hvalue, List.length_cons] at hlength ⊢
      omega
    · intro reltuples built result hbuild
      obtain ⟨self, hcompute, hload, rfl⟩ := hnswBuild_ok hbuild
      have hbuilt : build (Double.toSize undefined) uninit heap = Except.ok built := by
        rw [build, hcompute]
        exact hload
      rw [(loadTuples_grows hload).1, computeElements_ok hcompute, build_elements htids hbuilt,
        ← vectorRows_eq_elements]
      exact ⟨hsize, hcount⟩

/-- A table of one row. A count that starts at five makes room for six elements and reports six,
and a count that starts at minus one leaves no room. -/
theorem passes_disagree :
    let heap : List (HeapRow Int) := [⟨⟨0, 1⟩, some [7]⟩]
    (heap.map HeapRow.tid).Nodup ∧ ¬ PassesAgree (fun _ => 0) 5 heap ∧
      ¬ PassesAgree (fun _ => 0) (-1) heap := by
  intro heap
  refine ⟨by decide, ?_, ?_⟩
  · intro hagree
    have hsix : (hnswBuild (fun _ => 0) 5 1 heap).toOption.map
        (fun outcome => outcome.1.maxElements) = some 6 := by rfl
    cases hbuild : hnswBuild (fun _ => 0) 5 1 heap with
    | error failure => simp [hbuild, Except.toOption] at hsix
    | ok outcome =>
        have hone := (hagree.2 1 outcome.1 outcome.2 hbuild).1
        simp only [hbuild, Except.toOption, Option.map_some, Option.some.injEq, hone] at hsix
        exact absurd hsix (by decide)
  · intro hagree
    have hfull : (VectorIndex.addPoint
        (vectorIndex (fun _ => 0) ⟨Int32.ofNat 1, -1 + 1⟩ : VectorIndex Int) [7]
        (⟨0, 1⟩ : ItemPointer).toLabel).toOption.isSome = false := by rfl
    obtain ⟨added, hadded⟩ := hagree.1 ⟨Int32.ofNat 1, -1 + 1⟩ [] ⟨⟨0, 1⟩, some [7]⟩ [] [7] _ rfl
      rfl rfl rfl
    rw [hadded] at hfull
    cases hfull

end HNSWIndexBuilder

end VBase.AccessMethod
