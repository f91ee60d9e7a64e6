import VBase.AccessMethod.OrderScan

/-! # The in-order flag

What `xs_inorder` says after any number of calls of an ORDER BY scan, and what the distance
queue holds then. The queue is frozen once the flag is raised, so its bound is kept apart
from its contents.
-/

namespace VBase.AccessMethod

open PriorityQueue

variable {Q : {T K : Type} → [LinearOrder K] → (T → K) → Type} [PriorityQueue Q]
variable {D I W : Type} [LinearOrder D]

theorem size_replaceTop {width : Nat} (hwidth : 0 < width) {queue : Q (id : D → D)}
    (hsize : size queue ≤ width) (dist : D) :
    size (replaceTop queue (size queue == width) dist) ≤ width := by
  rw [replaceTop, size_push]
  by_cases hfull : size queue = width
  · obtain ⟨greatest, htop⟩ := exists_top_of_pos (hwidth.trans_eq hfull.symm)
    have hpop := size_pop htop
    rw [if_pos (by simpa using hfull)]
    omega
  · rw [if_neg (by simpa using hfull)]
    omega

theorem size_orderTurn {width : Nat} (hwidth : 0 < width) {filter : HNSWFilter Q D}
    (hsize : size filter.distanceQueue ≤ width) (dist : D) :
    size (orderTurn (Range.width width) dist filter).2.distanceQueue ≤ width := by
  unfold orderTurn
  dsimp only
  split
  · exact hsize
  split
  · exact hsize
  · exact size_replaceTop hwidth hsize dist

/-- Only a distance after the first `width` can raise the flag. -/
theorem raised_iff_after_width {width : Nat} {dists : List D} :
    raised width dists = true ↔ ∃ index dist bound, dists[index]? = some dist ∧ width ≤ index ∧
      nthSmallest width (dists.take index) = some bound ∧ bound < dist := by
  rw [raised_iff]
  refine exists₃_congr fun index dist bound => and_congr_right fun _ => ?_
  refine (and_iff_right_of_imp fun hbound => ?_).symm
  -- fewer distances have no smallest of that number
  by_contra hshort
  have hnone : nthSmallest width (dists.take index) = none :=
    nthSmallest_eq_none (by rw [List.length_take]; omega)
  rw [hnone] at hbound
  cases hbound.1

/-- An ORDER BY scan whose queue holds at most `width` distances. -/
structure QueueBounded (width : Nat) (s : HNSWScan Q D I W) : Prop where
  later : s.scanState.first = false
  no_filter : s.scanState.hasRangeFilter = false
  range_eq : s.scanState.range = Range.width width
  size_le : ∃ workSpace iter, s.scanState.workSpace = some workSpace ∧
    workSpace.resultIterator = some iter ∧ size workSpace.distanceQueue ≤ width

/-- Every call keeps the bound, whether the flag is raised or not. -/
theorem QueueBounded.call {lib : IteratorLibrary D I W} {width : Nat} (hwidth : 0 < width)
    (s : HNSWScan Q D I W) (found : Bool) (after : HNSWScan Q D I W)
    (hbounded : QueueBounded width s)
    (hget : hnswGettuple lib width s = Except.ok (found, after)) : QueueBounded width after := by
  obtain ⟨hlater, hnofilter, hrange, workSpace, iter, hworkSpace, hiter, hsize⟩ := hbounded
  have hturn : hnswTurn s.scanState.hasRangeFilter s.scanState.range =
      (orderTurn (Range.width width) : D → HNSWFilter Q D → _) := by
    rw [hnofilter, hrange]
    rfl
  rw [hnswGettuple_later lib hlater] at hget
  simp only [hnswFetch, hworkSpace, hiter, hturn] at hget
  rw [Fetching.run_emit iter s.world fun dist => orderTurn_emit _ dist _] at hget
  obtain ⟨-, rfl⟩ := Prod.mk.inj (Except.ok.inj hget)
  refine ⟨hlater, hnofilter, hrange, _, _, rfl, rfl, ?_⟩
  rcases lib.next iter s.world with ⟨_ | result, iter', world⟩
  · exact hsize
  · exact size_orderTurn hwidth hsize result.2

/-- After every number of calls of an ORDER BY scan: the calls returned the results of the
iterator in order. The flag is raised exactly when some distance exceeded the 86th smallest of
those before it. The queue holds at most 86 distances, and until the flag is raised the smallest
of those seen. -/
theorem xsInorder_iff (lib : IteratorLibrary D I W) {s : HNSWScan Q D I W}
    (hfirst : s.scanState.first = true) {target : List D}
    (hask : s.scan.toScanKeys.ask = some (Except.ok (Query.order target))) (count : Nat) :
    let results := lib.results (count + 1) (lib.create target s.world).1
      (lib.create target s.world).2
    let dists := results.reduceOption.map Prod.snd
    ∃ last workSpace, returned (hnswGettuple lib distanceQueueWidth) HNSWScan.tuple (count + 1) s =
        Except.ok (results.map
          (Option.map fun result => (ItemPointer.ofLabel result.1, some result.2)), last) ∧
      (last.scan.xsInorder = true ↔ ∃ index dist bound, dists[index]? = some dist ∧
        distanceQueueWidth ≤ index ∧
        nthSmallest distanceQueueWidth (dists.take index) = some bound ∧ bound < dist) ∧
      last.scanState.workSpace = some workSpace ∧
      size workSpace.distanceQueue ≤ distanceQueueWidth ∧
      (last.scan.xsInorder = false →
        elems workSpace.distanceQueue =
          ↑((dists.insertionSort (· ≤ ·)).take distanceQueueWidth)) := by
  intro results dists
  have hwidth : 0 < distanceQueueWidth := by decide
  obtain ⟨hscan, hworld⟩ := started_orderScan lib distanceQueueWidth s target
  have hbounded : QueueBounded distanceQueueWidth
      (s.started lib distanceQueueWidth (Query.order target)) :=
    ⟨rfl, rfl, rfl, _, _, rfl, rfl, size_empty.trans_le (Nat.zero_le _)⟩
  obtain ⟨last, after, hreturned, hlast⟩ := hscan.returned_scan lib hwidth (count + 1)
  have hsize := (returned_invariant (QueueBounded.call hwidth) (count + 1) hbounded
    hreturned).size_le
  rw [hworld] at hreturned hlast
  obtain ⟨array, queue, hworkSpace, hqueue⟩ := hlast.workSpace_eq
  obtain ⟨_, _, hworkSpace', -, hsize⟩ := hsize
  obtain rfl := Option.some.inj (hworkSpace.symm.trans hworkSpace')
  refine ⟨last, _, ?_, ?_, hworkSpace, hsize, ?_⟩
  · rw [returned_congr (hnswGettuple_started lib distanceQueueWidth hfirst hask)]
    exact hreturned
  · rw [hlast.flag_eq, List.nil_append]
    exact raised_iff_after_width
  · intro hflag
    rw [hlast.flag_eq] at hflag
    exact (hqueue hflag).eq_take

/-- The results 0, 1, 2, … fill the queue without raising the flag, and the one after the window
raises it. -/
theorem xsInorder_window :
    let stream : List (UInt64 × Int) := (List.range 90).map fun dist => (UInt64.ofNat dist, dist)
    let lib := resultList fun _ : List Int => stream
    let s : HNSWScan @SortedQueue Int _ _ :=
      ⟨⟨⟨0, 1, none, some ⟨false, [0]⟩⟩, ⟨0, 0⟩, false, false, none, false⟩,
        ⟨true, false, false, Range.width 0, none⟩, ()⟩
    s.scanState.first = true ∧ s.scan.toScanKeys.ask = some (Except.ok (Query.order [0])) ∧
      (∃ last workSpace, returned (hnswGettuple lib distanceQueueWidth) HNSWScan.tuple 86 s =
          Except.ok ((stream.take 86).map
            (fun result => some (ItemPointer.ofLabel result.1, some result.2)), last) ∧
        last.scan.xsInorder = false ∧ last.scanState.workSpace = some workSpace ∧
        elems workSpace.distanceQueue = ↑((stream.take 86).map Prod.snd)) ∧
      ∃ last, returned (hnswGettuple lib distanceQueueWidth) HNSWScan.tuple 87 s =
          Except.ok ((stream.take 87).map
            (fun result => some (ItemPointer.ofLabel result.1, some result.2)), last) ∧
        last.scan.xsInorder = true := by
  intro stream lib s
  have hresults : ∀ count ∈ [86, 87], lib.results count (lib.create [0] ()).1 () =
      (stream.take count).map some := by decide +kernel
  refine ⟨rfl, rfl, ?_, ?_⟩
  · obtain ⟨last, workSpace, hreturned, hflag, hworkSpace, -, hqueue⟩ :=
      xsInorder_iff lib (s := s) rfl rfl 85
    have hlow : last.scan.xsInorder = false := by
      rw [Bool.eq_false_iff, ne_eq, hflag]
      rintro ⟨index, dist, bound, hdist, hindex, -⟩
      have hlength : (((stream.take 86).map some).reduceOption.map Prod.snd).length = 86 := by
        decide +kernel
      rw [hresults 86 (by decide)] at hdist
      have hlt := (List.getElem?_eq_some_iff.mp hdist).1
      rw [hlength] at hlt
      exact absurd hlt (not_lt.mpr hindex)
    refine ⟨last, workSpace, ?_, hlow, hworkSpace, ?_⟩
    · rw [hreturned, hresults 86 (by decide), List.map_map]
      rfl
    · rw [hqueue hlow, hresults 86 (by decide)]
      exact congrArg _ (by decide +kernel)
  · obtain ⟨last, -, hreturned, hflag, -⟩ := xsInorder_iff lib (s := s) rfl rfl 86
    refine ⟨last, ?_, hflag.mpr ⟨86, 86, 85, ?_⟩⟩
    · rw [hreturned, hresults 87 (by decide), List.map_map]
      rfl
    · rw [hresults 87 (by decide)]
      decide +kernel

end VBase.AccessMethod
