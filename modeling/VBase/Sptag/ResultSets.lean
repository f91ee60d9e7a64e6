import VBase.Foundation.SwapHeap
import Mathlib.Data.Prod.Lex

/-! # What a search keeps

`DistPriorityQueue` keeps the least distances of a search, greatest first, to say how far
a node may be that is still of interest. `QueryResultSet` keeps the best results and sorts
them in the end. Both are heaps in an array whose root is replaced when they are full.
-/

namespace VBase.Sptag

open ArrayHeap

variable {D : Type} [LinearOrder D]

/-! ## DistPriorityQueue -/

/-- `DistPriorityQueue`. Cell `i` of `data` is `m_data[i + 1]`; the cell before it is not used. -/
structure DistPriorityQueue (D : Type) where
  data : Nat → D
  length : Nat
  count : Nat

namespace DistPriorityQueue

/-- `clear`. `maxDist` is `MaxDist`; the other cells keep what they had. -/
def clear (maxDist : D) (self : DistPriorityQueue D) (count : Nat) : DistPriorityQueue D where
  data := Function.update self.data 0 maxDist
  length := 1
  count := count

def worst (self : DistPriorityQueue D) : D := self.data 0

def insert (self : DistPriorityQueue D) (dist : D) : Bool × DistPriorityQueue D :=
  if self.data 0 < dist then (false, self)
  else if self.length = self.count then
    (true, { self with
      data := sink (OrderDual.toDual ∘ id) self.length (Function.update self.data 0 dist) })
  else
    (true, { self with
      length := self.length + 1
      data := ArrayHeap.insert (OrderDual.toDual ∘ id) self.length self.data dist })

/-- The queue after a number of insertions. -/
def insertAll (self : DistPriorityQueue D) (dists : List D) : DistPriorityQueue D :=
  dists.foldl (fun queue dist => (queue.insert dist).2) self

/-- The queue holds the least of the distances and `MaxDist`. -/
structure Keeps (maxDist : D) (queue : DistPriorityQueue D) (dists : List D) : Prop where
  length_pos : 0 < queue.length
  length_le : queue.length ≤ queue.count
  heap : ArrayHeap.Heap (OrderDual.toDual ∘ id) queue.length queue.data
  smallest : SmallestBy id queue.count (maxDist ::ₘ ↑dists) (contents queue.length queue.data)

variable {maxDist : D} {self : DistPriorityQueue D} {dists : List D} {dist : D}

theorem keeps_clear (self : DistPriorityQueue D) {count : Nat} (hcount : 0 < count) :
    Keeps maxDist (self.clear maxDist count) [] := by
  refine ⟨Nat.one_pos, hcount, ?_, ?_⟩
  · intro index hpos hlt
    have hsmall : index < 1 := hlt
    omega
  · have hcontents : contents 1 (Function.update self.data 0 maxDist) = {maxDist} := by
      rw [contents_succ, Function.update_self]
      rfl
    change SmallestBy id count {maxDist} (contents 1 (Function.update self.data 0 maxDist))
    rw [hcontents]
    exact SmallestBy.self hcount

/-- Until `count` distances were inserted, the queue holds `MaxDist` and everything else. -/
theorem Keeps.worst_of_few (hkeeps : Keeps maxDist self dists) (hfew : dists.length < self.count)
    (hdists : ∀ dist ∈ dists, dist ≤ maxDist) : self.worst = maxDist := by
  have hall : contents self.length self.data = maxDist ::ₘ ↑dists :=
    hkeeps.smallest.eq_of_card_le (by rwa [Multiset.card_cons, Multiset.coe_card])
  apply le_antisymm
  · have hroot : self.data 0 ∈ contents self.length self.data :=
      mem_contents.mpr ⟨0, hkeeps.length_pos, rfl⟩
    rw [hall] at hroot
    rcases Multiset.mem_cons.mp hroot with heq | hmem
    · exact heq.le
    · exact hdists _ hmem
  · apply hkeeps.heap.le_root
    rw [hall]
    exact Multiset.mem_cons_self maxDist _

/-- An insertion, whether or not the distance is taken. -/
theorem Keeps.insert (hkeeps : Keeps maxDist self dists) (hdist : dist ≤ maxDist)
    (hdists : ∀ dist ∈ dists, dist ≤ maxDist) :
    Keeps maxDist (self.insert dist).2 (dists ++ [dist]) := by
  have hall : maxDist ::ₘ ↑(dists ++ [dist]) = dist ::ₘ maxDist ::ₘ (↑dists : Multiset D) := by
    rw [Multiset.cons_swap, ← Multiset.coe_add, add_comm]
    rfl
  unfold DistPriorityQueue.insert
  split
  next hfar =>
    have hfull : self.length = self.count := by
      by_contra hne
      have hle := hkeeps.length_le
      have hcard := hkeeps.smallest.card_eq
      rw [card_contents, Multiset.card_cons, Multiset.coe_card] at hcard
      have hworst := hkeeps.worst_of_few (by omega) hdists
      exact absurd hfar (not_lt.mpr (hdist.trans hworst.ge))
    refine ⟨hkeeps.length_pos, hkeeps.length_le, hkeeps.heap, ?_⟩
    rw [hall]
    apply hkeeps.smallest.cons_of_le (by rw [card_contents, hfull])
    intro low hlow
    exact (hkeeps.heap.le_root hlow).trans hfar.le
  next hnear =>
    split
    next hfull =>
      have hsmallest : KeepsSmallest id self.length (maxDist ::ₘ ↑dists) self.data :=
        ⟨hkeeps.heap, hfull ▸ hkeeps.smallest⟩
      obtain ⟨hheap, hsmall⟩ := hsmallest.replace hkeeps.length_pos (not_lt.mp hnear)
      refine ⟨hkeeps.length_pos, hkeeps.length_le, hheap, ?_⟩
      rw [hall, ← hfull]
      exact hsmall
    next hroom =>
      have hle := hkeeps.length_le
      obtain ⟨hheap, hcontents, -⟩ := insert_spec hkeeps.heap dist
      refine ⟨Nat.succ_pos _, by change self.length + 1 ≤ self.count; omega, hheap, ?_⟩
      rw [hall, hcontents]
      apply hkeeps.smallest.cons_of_room
      rw [card_contents]
      omega

theorem Keeps.insertAll {more : List D} (hkeeps : Keeps maxDist self dists)
    (hdists : ∀ dist ∈ dists ++ more, dist ≤ maxDist) :
    Keeps maxDist (self.insertAll more) (dists ++ more) := by
  induction more generalizing self dists with
  | nil =>
      rw [List.append_nil]
      exact hkeeps
  | cons dist rest ih =>
      rw [List.append_cons] at hdists ⊢
      apply ih (hkeeps.insert _ _) hdists
      · exact hdists dist (List.mem_append_left rest (by simp))
      · intro other hother
        exact hdists other (List.mem_append_left rest (List.mem_append_left [dist] hother))

theorem insertAll_count (self : DistPriorityQueue D) (dists : List D) :
    (self.insertAll dists).count = self.count := by
  induction dists generalizing self with
  | nil => rfl
  | cons dist rest ih =>
      have hstep : (self.insert dist).2.count = self.count := by
        unfold DistPriorityQueue.insert
        split
        · rfl
        · split <;> rfl
      exact (ih _).trans hstep

/-- `worst` is the `count`-th least distance, or `MaxDist` as long as there are fewer. -/
theorem Keeps.worst_eq (hkeeps : Keeps maxDist self dists)
    (hdists : ∀ dist ∈ dists, dist ≤ maxDist) :
    self.worst = (nthSmallest self.count dists).getD maxDist := by
  have hcard := hkeeps.smallest.card_eq
  rw [card_contents, Multiset.card_cons, Multiset.coe_card] at hcard
  rcases Nat.lt_or_ge dists.length self.count with hfew | hmany
  · rw [nthSmallest_eq_none hfew, Option.getD_none]
    exact hkeeps.worst_of_few hfew hdists
  · have hfull : (contents self.length self.data).card = self.count := by
      rw [card_contents]
      omega
    have hsmall : SmallestBy id self.count (↑(dists ++ [maxDist]) : Multiset D)
        (contents self.length self.data) := by
      rw [← Multiset.coe_add, add_comm]
      exact hkeeps.smallest
    have hroot := hsmall.nthSmallest_eq hfull (mem_contents.mpr ⟨0, hkeeps.length_pos, rfl⟩)
      fun low hlow => hkeeps.heap.le_root hlow
    have hsame : (((dists ++ [maxDist]).insertionSort (· ≤ ·)).take self.count) =
        (dists.insertionSort (· ≤ ·)).take self.count := by
      apply take_insertionSort_append
      intro high hhigh
      rw [List.mem_singleton.mp hhigh, List.countP_eq_length.mpr]
      · exact hmany
      · intro item hitem
        exact decide_eq_true (hdists item hitem)
    have hpos : self.count - 1 < self.count := by
      have hlength := hkeeps.length_pos
      have hle := hkeeps.length_le
      omega
    rw [nthSmallest, ← List.getElem?_take_of_lt hpos, hsame, List.getElem?_take_of_lt hpos,
      ← nthSmallest] at hroot
    rw [hroot]
    rfl

/-- After `clear`, `worst` is the `count`-th least distance of all that were inserted, or `MaxDist`
while there are fewer, and an insertion is accepted exactly up to that distance. -/
theorem worst_after_clear (maxDist : D) (self : DistPriorityQueue D) (count : Nat)
    (hcount : 0 < count) (dists : List D) (hdists : ∀ dist ∈ dists, dist ≤ maxDist) :
    ((self.clear maxDist count).insertAll dists).worst =
        (nthSmallest count dists).getD maxDist ∧
      ∀ dist, (((self.clear maxDist count).insertAll dists).insert dist).1 =
        decide (dist ≤ (nthSmallest count dists).getD maxDist) := by
  have hkeeps := (keeps_clear self hcount).insertAll hdists
  have hworst := hkeeps.worst_eq hdists
  rw [insertAll_count] at hworst
  refine ⟨hworst, ?_⟩
  intro dist
  have hworst' : ((self.clear maxDist count).insertAll dists).data 0 =
      (nthSmallest count dists).getD maxDist := hworst
  rw [DistPriorityQueue.insert, hworst']
  split
  next hfar => exact (decide_eq_false (not_le.mpr hfar)).symm
  next hnear =>
    have hle := decide_eq_true (not_lt.mp hnear)
    split
    · exact hle.symm
    · exact hle.symm

theorem worst_after_clear_two :
    (∀ dist ∈ [5, 3, 9], dist ≤ 100) ∧
      (((⟨fun _ => 0, 0, 0⟩ : DistPriorityQueue Nat).clear 100 2).insertAll [5, 3, 9]).worst =
        5 := by
  have hdists : ∀ dist ∈ [5, 3, 9], dist ≤ 100 := by decide
  refine ⟨hdists, ?_⟩
  rw [(worst_after_clear 100 _ 2 (by decide) [5, 3, 9] hdists).1]
  decide

end DistPriorityQueue

/-! ## QueryResultSet -/

/-- `BasicResult` without its metadata. -/
structure BasicResult (D : Type) where
  vid : Int
  dist : D
  deriving DecidableEq

/-- The result of the default constructor, which `Reset` writes as well. -/
def BasicResult.blank (maxDist : D) : BasicResult D := ⟨-1, maxDist⟩

/-- What `operator <` compares. -/
def BasicResult.rank (result : BasicResult D) : D ×ₗ Int := toLex (result.dist, result.vid)

structure QueryResultSet (D : Type) where
  resultNum : Nat
  results : Nat → BasicResult D

namespace QueryResultSet

/-- `QueryResult::Reset`. -/
def reset (maxDist : D) (self : QueryResultSet D) : QueryResultSet D :=
  { self with
    results := fun index =>
      if index < self.resultNum then BasicResult.blank maxDist else self.results index }

def worstDist (self : QueryResultSet D) : D := (self.results 0).dist

def addPoint (self : QueryResultSet D) (index : Int) (dist : D) : Bool × QueryResultSet D :=
  if dist < (self.results 0).dist ∨ (dist = (self.results 0).dist ∧ index < (self.results 0).vid)
  then
    (true, { self with
      results := sink (OrderDual.toDual ∘ BasicResult.rank) self.resultNum
        (Function.update self.results 0 ⟨index, dist⟩) })
  else (false, self)

/-- `SortResult`: the greatest result goes to the end of what is left of the heap. -/
def sortResult (self : QueryResultSet D) : QueryResultSet D :=
  { self with results := unheap (OrderDual.toDual ∘ BasicResult.rank) self.resultNum self.results }

def addAll (self : QueryResultSet D) (points : List (BasicResult D)) : QueryResultSet D :=
  points.foldl (fun set point => (set.addPoint point.vid point.dist).2) self

/-- The results in their order. -/
def listed (self : QueryResultSet D) : List (BasicResult D) :=
  (List.range self.resultNum).map self.results

variable {self : QueryResultSet D} {all : Multiset (BasicResult D)}

omit [LinearOrder D] in
theorem coe_listed (self : QueryResultSet D) :
    (↑self.listed : Multiset (BasicResult D)) = contents self.resultNum self.results := by
  rw [listed, ← Multiset.map_coe]
  rfl

/-- The test of `AddPoint` is `operator <`. -/
theorem rank_lt_iff (point result : BasicResult D) :
    point.rank < result.rank ↔
      point.dist < result.dist ∨ (point.dist = result.dist ∧ point.vid < result.vid) := by
  rw [BasicResult.rank, BasicResult.rank, Prod.Lex.toLex_lt_toLex]

theorem keepsSmallest_reset (maxDist : D) (self : QueryResultSet D) :
    KeepsSmallest BasicResult.rank self.resultNum
      (↑(List.replicate self.resultNum (BasicResult.blank maxDist)))
      (self.reset maxDist).results := by
  have hcells : ∀ index < self.resultNum,
      (self.reset maxDist).results index = BasicResult.blank maxDist :=
    fun index hindex => if_pos hindex
  constructor
  · intro index hpos hlt
    have hparent := parent_lt hpos
    rw [hcells index hlt, hcells (parent index) (by omega)]
  · have hcontents : contents self.resultNum (self.reset maxDist).results =
        ↑(List.replicate self.resultNum (BasicResult.blank maxDist)) := by
      rw [contents_congr hcells, contents, Multiset.map_const', Multiset.card_range,
        ← Multiset.coe_replicate]
    rw [hcontents]
    apply SmallestBy.self
    rw [Multiset.coe_card, List.length_replicate]

/-- A point is among the best or it is not, and the set is right either way. -/
theorem keepsSmallest_addPoint (hpos : 0 < self.resultNum)
    (hkeeps : KeepsSmallest BasicResult.rank self.resultNum all self.results)
    (point : BasicResult D) :
    KeepsSmallest BasicResult.rank self.resultNum (point ::ₘ all)
      (self.addPoint point.vid point.dist).2.results := by
  unfold addPoint
  split
  next hbetter =>
    apply hkeeps.replace hpos
    exact ((rank_lt_iff point (self.results 0)).mpr hbetter).le
  next hworse =>
    apply hkeeps.refuse
    exact not_lt.mp fun hless => hworse ((rank_lt_iff point (self.results 0)).mp hless)

theorem addPoint_resultNum (self : QueryResultSet D) (index : Int) (dist : D) :
    (self.addPoint index dist).2.resultNum = self.resultNum := by
  unfold addPoint
  split <;> rfl

theorem addAll_resultNum (self : QueryResultSet D) (points : List (BasicResult D)) :
    (self.addAll points).resultNum = self.resultNum := by
  induction points generalizing self with
  | nil => rfl
  | cons point rest ih => exact (ih _).trans (addPoint_resultNum self point.vid point.dist)

theorem keepsSmallest_addAll (hpos : 0 < self.resultNum)
    (hkeeps : KeepsSmallest BasicResult.rank self.resultNum all self.results)
    (points : List (BasicResult D)) :
    KeepsSmallest BasicResult.rank self.resultNum ((↑points : Multiset (BasicResult D)) + all)
      (self.addAll points).results := by
  induction points generalizing self all with
  | nil =>
      rw [Multiset.coe_nil, zero_add]
      exact hkeeps
  | cons point rest ih =>
      have hnum := addPoint_resultNum self point.vid point.dist
      have hstep := keepsSmallest_addPoint hpos hkeeps point
      rw [← hnum] at hstep
      have hrest := ih (by rwa [hnum]) hstep
      rw [hnum, Multiset.add_cons] at hrest
      rw [← Multiset.cons_coe, Multiset.cons_add]
      exact hrest

/-- `SortResult` leaves the results in ascending order. -/
theorem sortResult_listed
    (hkeeps : KeepsSmallest BasicResult.rank self.resultNum all self.results) :
    self.sortResult.listed.Pairwise (AscendingBy BasicResult.rank) ∧
      (↑self.sortResult.listed : Multiset (BasicResult D)) =
        contents self.resultNum self.results := by
  have hdone := (Unheaping.start hkeeps.heap).unheap
  constructor
  · rw [listed, List.pairwise_map]
    apply List.Pairwise.imp_of_mem _ List.pairwise_lt_range
    intro first second _ hsecond hlt
    exact hdone.behind first second hlt.le (Nat.zero_le _) (List.mem_range.mp hsecond)
  · rw [coe_listed]
    exact hdone.contents_eq

/-- After `Reset`, any points and `SortResult`, the set holds the best of them by distance and then
id, in order, and blank results if there were too few. -/
theorem sortResult_best (maxDist : D) (self : QueryResultSet D) (hpos : 0 < self.resultNum)
    (points : List (BasicResult D)) :
    ((self.reset maxDist).addAll points).sortResult.listed.map BasicResult.rank =
      (((points ++ List.replicate self.resultNum (BasicResult.blank maxDist)).map
        BasicResult.rank).insertionSort (· ≤ ·)).take self.resultNum := by
  have hblank : 0 < (self.reset maxDist).resultNum := hpos
  have hkeeps := keepsSmallest_addAll hblank (keepsSmallest_reset maxDist self) points
  rw [← addAll_resultNum (self.reset maxDist) points] at hkeeps
  obtain ⟨hsorted, hcontents⟩ := sortResult_listed hkeeps
  have hsmall := hkeeps.smallest
  rw [← hcontents, Multiset.coe_add, addAll_resultNum] at hsmall
  exact hsmall.map_eq_take hsorted

theorem sortResult_best_two :
    0 < 2 ∧
      (((⟨2, fun _ => ⟨0, 0⟩⟩ : QueryResultSet Nat).reset 100).addAll
        [⟨9, 3⟩, ⟨7, 5⟩, ⟨4, 3⟩]).sortResult.listed.map BasicResult.rank =
          ([toLex (3, 9), toLex (5, 7), toLex (3, 4), toLex (100, -1),
            toLex (100, -1)].insertionSort (· ≤ ·)).take 2 :=
  ⟨by decide, sortResult_best 100 ⟨2, fun _ => ⟨0, 0⟩⟩ (by decide) [⟨9, 3⟩, ⟨7, 5⟩, ⟨4, 3⟩]⟩

end QueryResultSet

end VBase.Sptag
