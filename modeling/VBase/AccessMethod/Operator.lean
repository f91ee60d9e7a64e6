import VBase.AccessMethod.HnswBuilder
import VBase.AccessMethod.IndexCache
import VBase.Hnsw.Space
import Mathlib.Algebra.Field.Rat
import Mathlib.Algebra.Order.Ring.Rat

/-! # Distance operators and index scans

The operators check that both arrays have one length, and compute the distance by a
function that was picked for dimension 0, which reads whole blocks of 16 components.
A scan checks nothing, and computes the distance over as many components as the
`dimension` option says. The two agree when the query has the length of the vectors
and the option is that length rounded down to a multiple of 16.
-/

namespace VBase.AccessMethod

open VBase.Hnsw PriorityQueue

/-! ## The operators -/

section Operators

variable {D : Type} [CommRing D]

/-- The numbers at an address: an array, and after it whatever the memory holds. -/
def pointer (array : List D) (after : Nat → D) (i : Nat) : D := array.getD i (after i)

/-- The body that `l2_distance` and `inner_product_distance` share. -/
def distanceOperator (space : SpaceInterface D) (lhs rhs : List D) (afterLhs afterRhs : Nat → D) :
    Except Failure D :=
  let expected := lhs.length
  let found := rhs.length
  if lhs.length ≠ rhs.length then
    Except.error (Failure.elog s!"inconsistent array length, expected {expected}, found {found}")
  else
    let dim := lhs.length
    Except.ok (space.getDistFunc (pointer lhs afterLhs) (pointer rhs afterRhs) dim)

/-- `l2_distance`, with the static `L2Distance(0)`. -/
def l2Distance (avx : Bool) : List D → List D → (Nat → D) → (Nat → D) → Except Failure D :=
  distanceOperator (l2Space avx 0)

/-- `inner_product_distance`, with the static `IPDistance(0)`. -/
def innerProductDistance (avx : Bool) :
    List D → List D → (Nat → D) → (Nat → D) → Except Failure D :=
  distanceOperator (innerProductSpace avx 0)

/-- The operator of a distance method. -/
def operator (avx : Bool) : DistanceMethod → List D → List D → (Nat → D) → (Nat → D) →
    Except Failure D
  | DistanceMethod.innerProduct => innerProductDistance avx
  | DistanceMethod.l2 => l2Distance avx

/-- The space that `LoadIndex` makes for a distance method. -/
def space (avx : Bool) : DistanceMethod → Nat → SpaceInterface D
  | DistanceMethod.innerProduct => innerProductSpace avx
  | DistanceMethod.l2 => l2Space avx

/-- The distance over the first `count` components. -/
def exactDistance : DistanceMethod → Nat → (Nat → D) → (Nat → D) → D
  | DistanceMethod.innerProduct, count, left, right =>
      1 - ∑ i ∈ Finset.range count, left i * right i
  | DistanceMethod.l2, count, left, right => ∑ i ∈ Finset.range count, (left i - right i) ^ 2

theorem space_getDistFunc (avx : Bool) (method : DistanceMethod) (dim : Nat)
    (left right : Nat → D) (qty : Nat) :
    (space avx method dim).getDistFunc left right qty =
      exactDistance method (covered dim qty) left right := by
  cases method with
  | innerProduct => exact innerProductSpace_getDistFunc avx dim left right qty
  | l2 =>
      rw [space, l2Space_getDistFunc, exactDistance]
      simp only [squaredDiff, sq]

theorem exactDistance_comm (method : DistanceMethod) (count : Nat) (left right : Nat → D) :
    exactDistance method count left right = exactDistance method count right left := by
  cases method with
  | innerProduct => simp only [exactDistance, mul_comm]
  | l2 => simp only [exactDistance, sub_sq_comm]

/-- Only the first components count. -/
theorem exactDistance_congr (method : DistanceMethod) {count : Nat}
    {left left' right right' : Nat → D} (hleft : ∀ i < count, left i = left' i)
    (hright : ∀ i < count, right i = right' i) :
    exactDistance method count left right = exactDistance method count left' right' := by
  have hterm (term : D → D → D) : ∑ i ∈ Finset.range count, term (left i) (right i) =
      ∑ i ∈ Finset.range count, term (left' i) (right' i) := by
    refine Finset.sum_congr rfl fun i hi => ?_
    rw [hleft i (Finset.mem_range.mp hi), hright i (Finset.mem_range.mp hi)]
  cases method with
  | innerProduct => exact congrArg (1 - ·) (hterm (· * ·))
  | l2 => exact hterm fun x y => (x - y) ^ 2

omit [CommRing D] in
theorem pointer_of_lt {array : List D} {i : Nat} (hi : i < array.length) (after after' : Nat → D) :
    pointer array after i = pointer array after' i := by
  simp [pointer, hi]

omit [CommRing D] in
/-- What is read at an array of known components. -/
theorem pointer_range (term : Nat → D) (length : Nat) (after : Nat → D) (i : Nat) :
    pointer ((List.range length).map term) after i = if i < length then term i else after i := by
  by_cases hi : i < length <;> simp [pointer, hi]

/-- The blocks that the operators read lie within both arrays. -/
theorem exactDistance_blocks (method : DistanceMethod) {lhs rhs : List D}
    (hlength : lhs.length = rhs.length) (afterLhs afterLhs' afterRhs afterRhs' : Nat → D) :
    exactDistance method (lhs.length / 16 * 16) (pointer lhs afterLhs) (pointer rhs afterRhs) =
      exactDistance method (lhs.length / 16 * 16) (pointer lhs afterLhs')
        (pointer rhs afterRhs') := by
  have hblocks := Nat.div_mul_le_self lhs.length 16
  refine exactDistance_congr method ?_ ?_
  · exact fun i hi => pointer_of_lt (by omega) _ _
  · exact fun i hi => pointer_of_lt (by omega) _ _

theorem operator_eq (avx : Bool) (method : DistanceMethod) :
    operator avx method = distanceOperator (space (D := D) avx method 0) := by
  cases method <;> rfl

theorem operator_ok (avx : Bool) (method : DistanceMethod) {lhs rhs : List D}
    (hlength : lhs.length = rhs.length) (afterLhs afterRhs : Nat → D) :
    operator avx method lhs rhs afterLhs afterRhs =
      Except.ok (exactDistance method (lhs.length / 16 * 16) (pointer lhs afterLhs)
        (pointer rhs afterRhs)) := by
  rw [operator_eq, distanceOperator, if_neg (not_not.mpr hlength)]
  exact congrArg Except.ok (space_getDistFunc avx method 0 _ _ lhs.length)

theorem operator_elog (avx : Bool) (method : DistanceMethod) {lhs rhs : List D}
    (hlength : lhs.length ≠ rhs.length) (afterLhs afterRhs : Nat → D) :
    ∃ message, operator avx method lhs rhs afterLhs afterRhs =
      Except.error (Failure.elog message) := by
  rw [operator_eq, distanceOperator, if_pos hlength]
  exact ⟨_, rfl⟩

theorem operator_error (avx : Bool) (method : DistanceMethod) (lhs rhs : List D)
    (hlength : lhs.length ≠ rhs.length) (afterLhs afterRhs : Nat → D) (value : D) :
    operator avx method lhs rhs afterLhs afterRhs ≠ Except.ok value := by
  obtain ⟨message, herror⟩ := operator_elog avx method hlength afterLhs afterRhs
  rw [herror]
  nofun

end Operators

/-! ## The scan -/

section Scan

variable {Q : {T K : Type} → [LinearOrder K] → (T → K) → Type} [PriorityQueue Q]
variable {D : Type} [Field D] [LinearOrder D]

/-- An index over the rows of a table, loaded with a distance method and a dimension. A distance
is computed from what is found at the address of the query and at that of an element. -/
structure LoadedWith (avx : Bool) (method : DistanceMethod) (dim : Nat) (heap : List (HeapRow D))
    (afterQuery : Nat → D) (afterElement : Nat → Nat → D) (index : HierarchicalNSW D) : Prop where
  count_eq : index.curElementCount = (heap.filterMap HeapRow.element).length
  label_eq : ∀ id element, (heap.filterMap HeapRow.element)[id]? = some element →
    index.getExternalLabel id = element.1
  data_eq : ∀ id element, (heap.filterMap HeapRow.element)[id]? = some element →
    index.getDataByInternalId id = (List.range dim).map (pointer element.2 (afterElement id))
  dist_eq : ∀ query data, index.fstdistfunc query data =
    (space avx method dim).getDistFunc (pointer query afterQuery) (pointer data 0) dim

omit [LinearOrder D] in
/-- The distance of an element, over as many components as the option says. -/
theorem LoadedWith.element_row {avx : Bool} {method : DistanceMethod} {dim : Nat}
    {heap : List (HeapRow D)} {afterQuery : Nat → D} {afterElement : Nat → Nat → D}
    {index : HierarchicalNSW D}
    (hloaded : LoadedWith avx method dim heap afterQuery afterElement index) (query : List D)
    {id : Nat} (hid : id < index.curElementCount) :
    ∃ row ∈ heap, ∃ vector, row.value = some vector ∧
      elementTuple index query id = (row.tid, some (exactDistance method dim
        (pointer vector (afterElement id)) (pointer query afterQuery))) := by
  rw [hloaded.count_eq] at hid
  have helement := List.getElem?_eq_getElem hid
  have hlabel := hloaded.label_eq id _ helement
  have hdata := hloaded.data_eq id _ helement
  obtain ⟨row, hrow, hentry⟩ := List.mem_filterMap.mp (List.getElem_mem hid)
  obtain ⟨vector, hvalue, heq⟩ := Option.map_eq_some_iff.mp hentry
  rw [← heq] at hlabel hdata
  refine ⟨row, hrow, vector, hvalue, ?_⟩
  rw [elementTuple, hlabel, ItemPointer.ofLabel_toLabel, HierarchicalNSW.dist, hloaded.dist_eq,
    hdata, space_getDistFunc, covered_self, exactDistance_comm]
  refine congrArg (fun dist => (row.tid, some dist)) (exactDistance_congr method ?_ fun _ _ => rfl)
  intro i hi
  rw [pointer_range, if_pos hi]

variable (Q D) in
/-- Whatever the method, the table of vectors of length `d`, the index over it, the query of
length `l` and the memory: for every row that the scan returns, the operator gives its distance. -/
def ScanAgrees (d m l : Nat) : Prop :=
  ∀ (avx : Bool) (method : DistanceMethod) (heap : List (HeapRow D)),
    (heap.map HeapRow.tid).Nodup →
    (∀ row ∈ heap, ∀ vector ∈ row.value, vector.length = d) →
  ∀ (afterQuery : Nat → D) (afterElement : Nat → Nat → D) (index : HierarchicalNSW D),
    LoadedWith avx method m heap afterQuery afterElement index →
  ∀ (lists : VisitedListPool) (held : Set Nat), lists.Sound held →
  ∀ (uninit : IndexScanDesc D) (junk : ScanKey D × ScanKey D)
    (state : HNSWScanOpaque Q D (OpenIterator Q D)) (nkeys norderbys : Nat)
    (keys : Option (ScanKey D)) (query : List D), query.length = l →
  ∀ start, hnswRescan (hnswLibrary index)
      (hnswBeginScan uninit junk state nkeys (norderbys + 1) lists) keys
      (some ⟨false, query⟩) = Except.ok start →
  ∀ count list last,
    returned (hnswGettuple (hnswLibrary index) distanceQueueWidth) HNSWScan.tuple count start =
      Except.ok (list, last) →
  ∀ tid dist, (tid, dist) ∈ list.reduceOption →
  ∀ row ∈ heap, row.tid = tid → ∀ vector, row.value = some vector →
  ∀ afterLhs afterRhs : Nat → D,
    ∃ value, operator avx method vector query afterLhs afterRhs = Except.ok value ∧
      dist = some value

/-! ### One row -/

/-- An index over one row. Nothing but zeros follows its element in memory. -/
def oneVector (avx : Bool) (method : DistanceMethod) (dim : Nat) (vector : List D)
    (afterQuery : Nat → D) : HierarchicalNSW D where
  maxElements := 1
  curElementCount := 1
  numDeleted := 0
  maxlevel := 0
  enterpointNode := 0
  getLinklist0 := fun _ => []
  getLinklist := fun _ _ => []
  isMarkedDeleted := fun _ => false
  getExternalLabel := fun _ => (⟨0, 1⟩ : ItemPointer).toLabel
  getDataByInternalId := fun _ => (List.range dim).map (pointer vector 0)
  fstdistfunc := fun query data =>
    (space avx method dim).getDistFunc (pointer query afterQuery) (pointer data 0) dim
  maxElements_lt := by decide
  count_le := le_rfl
  enterpoint_lt := fun hcount => hcount
  linklist0_lt := by simp
  linklist_lt := by simp

omit [LinearOrder D] in
theorem oneVector_loaded (avx : Bool) (method : DistanceMethod) (dim : Nat) (vector : List D)
    (afterQuery : Nat → D) :
    LoadedWith avx method dim [⟨⟨0, 1⟩, some vector⟩] afterQuery (fun _ => 0)
      (oneVector avx method dim vector afterQuery) where
  count_eq := rfl
  label_eq := by
    intro id element helement
    rw [List.mem_singleton.mp (List.mem_of_getElem? helement)]
    rfl
  data_eq := by
    intro id element helement
    rw [List.mem_singleton.mp (List.mem_of_getElem? helement)]
    rfl
  dist_eq := fun _ _ => rfl

/-- The scan of the one row returns it. -/
theorem oneVector_returned (avx : Bool) (method : DistanceMethod) (dim : Nat) (vector : List D)
    (afterQuery : Nat → D) (uninit : IndexScanDesc D) (junk : ScanKey D × ScanKey D)
    (state : HNSWScanOpaque Q D (OpenIterator Q D)) (query : List D) :
    let index := oneVector avx method dim vector afterQuery
    ∃ start, hnswRescan (hnswLibrary index)
        (hnswBeginScan uninit junk state 0 1 (VisitedListPool.new fun _ _ => 0)) none
        (some ⟨false, query⟩) = Except.ok start ∧
      ∃ list last,
        returned (hnswGettuple (hnswLibrary index) distanceQueueWidth) HNSWScan.tuple 1 start =
          Except.ok (list, last) ∧
        (⟨0, 1⟩, some (exactDistance method dim (pointer vector 0) (pointer query afterQuery))) ∈
          list.reduceOption := by
  intro index
  have hsound := VisitedListPool.new_sound (fun _ _ => 0)
  obtain ⟨start, hstart, hcalls⟩ := returned_elements index hsound uninit junk state 0 0 none query
  obtain ⟨list, last, hreturned, ids, -, hids, hsome, hlist⟩ := hcalls 1
  refine ⟨start, hstart, list, last, hreturned, ?_⟩
  obtain ⟨id, hid⟩ := List.exists_mem_of_ne_nil ids (hsome Nat.one_pos rfl Nat.one_pos)
  obtain ⟨row, hrow, vector', hvalue, htuple⟩ :=
    (oneVector_loaded avx method dim vector afterQuery).element_row query (hids id hid)
  obtain rfl := List.mem_singleton.mp hrow
  obtain rfl := Option.some.inj hvalue
  rw [hlist]
  exact List.mem_map.mpr ⟨id, hid, htuple⟩

/-- What agreement means for one row. -/
theorem ScanAgrees.oneVector {d m l : Nat} (hagrees : ScanAgrees Q D d m l)
    (method : DistanceMethod) (vector query : List D) (hvector : vector.length = d)
    (hquery : query.length = l) (afterQuery : Nat → D) :
    operator true method vector query 0 0 = Except.ok
      (exactDistance method m (pointer vector 0) (pointer query afterQuery)) := by
  let uninit : IndexScanDesc D := ⟨⟨0, 0, none, none⟩, ⟨0, 0⟩, false, false, none, false⟩
  let junk : ScanKey D × ScanKey D := (⟨true, []⟩, ⟨true, []⟩)
  let state : HNSWScanOpaque Q D (OpenIterator Q D) := ⟨true, false, false, Range.width 0, none⟩
  obtain ⟨start, hstart, list, last, hreturned, hmem⟩ :=
    oneVector_returned true method m vector afterQuery uninit junk state query
  obtain ⟨value, hvalue, hdist⟩ := hagrees true method _ (by simp) (by simpa using hvector)
    afterQuery _ _ (oneVector_loaded true method m vector afterQuery) _ _
    (VisitedListPool.new_sound _) uninit junk state 0 0 none query hquery start hstart 1 list last
    hreturned _ _ hmem _ List.mem_cons_self rfl vector rfl 0 0
  rw [hvalue, Option.some.inj hdist]

/-- A vector with a single one, at component `k`. -/
def unitVector (k i : Nat) : D := if i = k then 1 else 0

omit [LinearOrder D] in
/-- The squared distance of the zero vector from a vector with a single one tells whether that
component is read. -/
theorem exactDistance_unitVector (d k count : Nat) {after : Nat → D}
    (hafter : ∀ i < count, i < d ∨ after i = unitVector k i) :
    exactDistance DistanceMethod.l2 count (pointer ((List.range d).map fun _ => 0) 0)
        (pointer ((List.range d).map (unitVector k)) after) =
      if k < count then 1 else 0 := by
  have hexact : exactDistance DistanceMethod.l2 count (fun _ => (0 : D)) (unitVector k) =
      if k < count then 1 else 0 := by
    simp [exactDistance, unitVector]
  rw [← hexact]
  refine exactDistance_congr _ ?_ ?_
  · intro i _
    rw [pointer_range]
    split <;> rfl
  · intro i hi
    rw [pointer_range]
    split
    next => rfl
    next hout => exact (hafter i hi).resolve_left hout

/-- So agreement fixes the option: it is the number of components that the operator reads. -/
theorem ScanAgrees.dimension_eq {d m : Nat} (hagrees : ScanAgrees Q D d m d) :
    m = d / 16 * 16 := by
  by_contra hne
  have hblocks := Nat.div_mul_le_self d 16
  generalize hread : d / 16 * 16 = blocks at hne hblocks
  have hscan := hagrees.oneVector DistanceMethod.l2 ((List.range d).map fun _ => 0)
    ((List.range d).map (unitVector (min m blocks))) (by simp) (by simp)
    (unitVector (min m blocks))
  rw [operator_ok true DistanceMethod.l2 (by simp), Except.ok.injEq, List.length_map,
    List.length_range, hread, exactDistance_unitVector d _ _ (fun i hi => Or.inl (by omega)),
    exactDistance_unitVector d _ _ (fun _ _ => Or.inr rfl)] at hscan
  rcases Nat.lt_or_gt_of_ne hne with hlt | hgt
  · rw [min_eq_left hlt.le, if_pos hlt, if_neg (lt_irrefl m)] at hscan
    exact one_ne_zero hscan
  · rw [min_eq_right hgt.le, if_pos hgt, if_neg (lt_irrefl blocks)] at hscan
    exact zero_ne_one hscan

/-- The scan and the operator agree for a query of the length of the vectors, with that length
rounded down to a multiple of 16 as the option, and in no other case. -/
theorem scanAgrees_iff (d m l : Nat) : ScanAgrees Q D d m l ↔ l = d ∧ m = d / 16 * 16 := by
  constructor
  · intro hagrees
    have hlength : l = d := by
      by_contra hne
      exact operator_error true DistanceMethod.l2 (List.replicate d 0) (List.replicate l 0)
        (by simpa using Ne.symm hne) 0 0 _
        (hagrees.oneVector DistanceMethod.l2 _ _ (by simp) (by simp) 0)
    subst hlength
    exact ⟨rfl, hagrees.dimension_eq⟩
  · rintro ⟨rfl, rfl⟩ avx method heap htids hlengths afterQuery afterElement index hloaded lists
      held hsound uninit junk state nkeys norderbys keys query hquery start hstart count list last
      hreturned tid dist hmem row hrow rfl vector hvalue afterLhs afterRhs
    have hlength := hlengths row hrow vector hvalue
    refine ⟨_, operator_ok avx method (hlength.trans hquery.symm) afterLhs afterRhs, ?_⟩
    obtain ⟨start', hstart', hcalls⟩ := returned_elements index hsound uninit junk state nkeys
      norderbys keys query
    obtain rfl := Except.ok.inj (hstart.symm.trans hstart')
    obtain ⟨list', last', hreturned', ids, -, hids, -, hlist⟩ := hcalls count
    obtain ⟨rfl, rfl⟩ := Prod.mk.inj (Except.ok.inj (hreturned.symm.trans hreturned'))
    rw [hlist] at hmem
    obtain ⟨id, hid, htuple⟩ := List.mem_map.mp hmem
    obtain ⟨row', hrow', vector', hvalue', heq⟩ := hloaded.element_row query (hids id hid)
    obtain ⟨htid, rfl⟩ := Prod.mk.inj (htuple.symm.trans heq)
    obtain rfl : row = row' := List.inj_on_of_nodup_map htids hrow hrow' htid
    obtain rfl := Option.some.inj (hvalue.symm.trans hvalue')
    rw [← hlength]
    exact congrArg some (exactDistance_blocks method (hlength.trans hquery.symm) _ _ _ _)

end Scan

/-- Three components everywhere: the scan reports the distance 1, the operator says 0. -/
theorem scan_disagrees_three_components :
    let index := oneVector (D := ℚ) true DistanceMethod.l2 3 [0, 0, 0] 0
    let uninit : IndexScanDesc ℚ := ⟨⟨0, 0, none, none⟩, ⟨0, 0⟩, false, false, none, false⟩
    let junk : ScanKey ℚ × ScanKey ℚ := (⟨true, []⟩, ⟨true, []⟩)
    let state : HNSWScanOpaque @SortedQueue ℚ (OpenIterator @SortedQueue ℚ) :=
      ⟨true, false, false, Range.width 0, none⟩
    ∃ start, hnswRescan (hnswLibrary index)
        (hnswBeginScan uninit junk state 0 1 (VisitedListPool.new fun _ _ => 0)) none
        (some ⟨false, [1, 0, 0]⟩) = Except.ok start ∧
      ∃ list last,
        returned (hnswGettuple (hnswLibrary index) distanceQueueWidth) HNSWScan.tuple 1 start =
          Except.ok (list, last) ∧
        (⟨0, 1⟩, some 1) ∈ list.reduceOption ∧
        l2Distance true [0, 0, 0] [1, 0, 0] 0 0 = Except.ok (0 : ℚ) := by
  intro index uninit junk state
  obtain ⟨start, hstart, list, last, hreturned, hmem⟩ := oneVector_returned true
    DistanceMethod.l2 3 [0, 0, 0] 0 uninit junk state [1, 0, 0]
  have hdist : exactDistance DistanceMethod.l2 3 (pointer [0, 0, 0] 0) (pointer [1, 0, 0] 0) =
      (1 : ℚ) := by
    simp [exactDistance, Finset.sum_range_succ, pointer]
  have hlength : [(0 : ℚ), 0, 0].length = [(1 : ℚ), 0, 0].length := rfl
  have hoperator := operator_ok true DistanceMethod.l2 hlength 0 0
  rw [hdist] at hmem
  exact ⟨start, hstart, list, last, hreturned, hmem, hoperator⟩

end VBase.AccessMethod
