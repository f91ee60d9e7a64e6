import VBase.AccessMethod.RangeOperator
import VBase.AccessMethod.RangeScan

/-! # The boundary of a range

A range scan accepts distances up to the radius. The range operators ask for distances less
than the radius. Rows at the radius are in the answer of a query or not, depending on the
plan.
-/

namespace VBase.AccessMethod

open PriorityQueue

/-- The range operator holds for the examined rows that the scan returned, and for no others. -/
def SameBoundary {D : Type} [CommRing D] [LinearOrder D] (avx : Bool) (method : DistanceMethod)
    (vector : UInt64 → List D) (radius : D) (target : List D) (examined : List (UInt64 × D))
    (list : List (Option (ItemPointer × Option D))) : Prop :=
  ∀ result ∈ examined, ∀ afterLhs afterRhs : Nat → D,
    (some (resultTuple result) ∈ list → rangeOperator avx method (vector result.1)
      (radius :: target) afterLhs afterRhs = Except.ok true) ∧
    (some (resultTuple result) ∉ list → rangeOperator avx method (vector result.1)
      (radius :: target) afterLhs afterRhs = Except.ok false)

section Examined

variable {S D F : Type} [LinearOrder D] {gettuple : S → Except Fault (Bool × S)}
variable {observe : S → ItemPointer × Option D} {turn : D → F → Turn × F} {reset : F → F}
variable {stands : F → List (UInt64 × D) → S → Prop} {within : D → Bool} {keeps : F → Prop}

omit [LinearOrder D] in
/-- The calls of a scan examine the front of the stream, and return the results that the filter
accepts. -/
theorem ReadsStream.examined (hreads : ReadsStream gettuple observe resultTuple turn reset stands)
    (haccepts : Accepts turn reset within keeps) (count : Nat) {filter : F}
    (hkeeps : keeps filter) {stream : List (UInt64 × D)} {s : S}
    (hstands : stands filter stream s) :
    ∃ list last examined rest after, returned gettuple observe count s = Except.ok (list, last) ∧
      stream = examined ++ rest ∧ stands after rest last ∧
      ∀ result ∈ examined, some (resultTuple result) ∈ list ↔ within result.2 = true := by
  obtain ⟨last, hreturned, hlast⟩ := hreads.returned_eq count hstands
  obtain ⟨examined, hstream, hemitted, -⟩ := haccepts.callsFrom_eq count hkeeps stream
  refine ⟨_, last, examined, _, _, hreturned, hstream, hlast, ?_⟩
  intro result hresult
  have hmem (row : UInt64 × D) : some row ∈ (callsFrom turn reset count filter stream).1 ↔
      row ∈ examined ∧ within row.2 = true := by
    rw [← List.reduceOption_mem_iff, hemitted, List.mem_filter]
  constructor
  · intro hlist
    obtain ⟨found, hfound, htuple⟩ := List.mem_map.mp hlist
    obtain ⟨row, rfl, hrow⟩ := Option.map_eq_some_iff.mp htuple
    -- rows that look the same to the caller have the same distance
    have hdist : row.2 = result.2 := Option.some.inj (congrArg Prod.snd hrow)
    rw [← hdist]
    exact ((hmem row).mp hfound).2
  · intro hin
    exact List.mem_map.mpr ⟨some result, (hmem result).mpr ⟨hresult, hin⟩, rfl⟩

end Examined

section Boundary

variable {D : Type} [CommRing D] [LinearOrder D] {avx : Bool} {method : DistanceMethod}
variable {vector : UInt64 → List D} {radius : D} {target : List D}

/-- Accepting up to the radius agrees with the operator as long as no distance is equal to it. -/
theorem sameBoundary_of_accepted {examined : List (UInt64 × D)}
    {list : List (Option (ItemPointer × Option D))}
    (haccepted : ∀ result ∈ examined,
      some (resultTuple result) ∈ list ↔ within radius result.2 = true)
    (hdist : ∀ result ∈ examined, ∃ afterLhs afterRhs,
      operator avx method (vector result.1) target afterLhs afterRhs = Except.ok result.2) :
    SameBoundary avx method vector radius target examined list ↔
      ∀ result ∈ examined, result.2 ≠ radius := by
  refine forall₂_congr fun result hresult => ?_
  obtain ⟨_, _, hoperator⟩ := hdist result hresult
  simp only [rangeOperator_of_ok hoperator, haccepted result hresult, within, Except.ok.injEq,
    decide_eq_true_eq, decide_eq_false_iff_not, not_le, not_lt]
  constructor
  · rintro hsame rfl
    exact lt_irrefl _ ((hsame 0 0).1 le_rfl)
  · exact fun hne _ _ => ⟨fun hle => lt_of_le_of_ne hle hne, fun hlt => hlt.le⟩

end Boundary

variable {Q : {T K : Type} → [LinearOrder K] → (T → K) → Type} [PriorityQueue Q]
variable {D I W : Type} [CommRing D] [LinearOrder D]

/-- The range scans of both access methods agree with the range operators on the rows that they
examine exactly when none of them is at the radius. The examined rows are those that the iterator
has delivered when the calls return. -/
theorem sameBoundary_iff (lib : IteratorLibrary D I W) (width : Nat) (avx : Bool)
    (method : DistanceMethod) (vector : UInt64 → List D) (radius : D) (target : List D) (world : W)
    (stream : List (UInt64 × D))
    (hstream : lib.Streams (lib.create target world).1 (lib.create target world).2 stream)
    (hdist : ∀ result ∈ stream, ∃ afterLhs afterRhs,
      operator avx method (vector result.1) target afterLhs afterRhs = Except.ok result.2)
    (count : Nat) :
    (∀ s : HNSWScan Q D I W, s.scanState.first = true → s.world = world →
      s.scan.toScanKeys.ask = some (Except.ok (Query.range radius target)) →
      ∃ list last examined rest iter array queue,
        returned (hnswGettuple lib width) HNSWScan.tuple (count + 1) s =
          Except.ok (list, last) ∧
        last.scanState.workSpace = some ⟨some iter, array, queue⟩ ∧
        lib.Streams iter last.world rest ∧ stream = examined ++ rest ∧
        (SameBoundary avx method vector radius target examined list ↔
          ∀ result ∈ examined, result.2 ≠ radius)) ∧
    ∀ s : SPTAGScan D I W, s.scanState.first = true → s.world = world →
      s.scan.toScanKeys.ask = some (Except.ok (Query.range radius target)) →
      ∃ list last examined rest iter,
        returned (sptagGettuple lib) SPTAGScan.tuple (count + 1) s = Except.ok (list, last) ∧
        last.scanState.workSpace = some (some iter) ∧
        lib.Streams iter last.world rest ∧ stream = examined ++ rest ∧
        (SameBoundary avx method vector radius target examined list ↔
          ∀ result ∈ examined, result.2 ≠ radius) := by
  constructor
  · rintro s hfirst rfl hask
    rw [returned_congr (hnswGettuple_started lib width hfirst hask)]
    obtain ⟨list, last, examined, rest, after, hreturned, rfl, hlast, haccepted⟩ :=
      (hnsw_readsStream lib width true _).examined (rangeTurn_filter radius).accepts (count + 1)
        (Or.inl ⟨[], HNSWFilter.waiting_start, by simp⟩)
        (s.started_stands width radius hstream)
    obtain ⟨⟨_, array, queue⟩, iter, hworkSpace, rfl, -, hrest⟩ := hlast.workSpace_eq
    exact ⟨list, last, examined, rest, iter, array, queue, hreturned, hworkSpace, hrest, rfl,
      sameBoundary_of_accepted haccepted fun result hresult =>
        hdist result (List.mem_append_left rest hresult)⟩
  · rintro s hfirst rfl hask
    rw [returned_congr (sptagGettuple_started lib hfirst hask)]
    obtain ⟨list, last, examined, rest, after, hreturned, rfl, hlast, haccepted⟩ :=
      (sptag_readsStream lib true _).examined (sptagTurn_filter radius).accepts (count + 1)
        (Or.inl ⟨[], rfl, by simp⟩) (s.started_stands radius hstream)
    obtain ⟨iter, hworkSpace, hrest⟩ := hlast.workSpace_eq
    exact ⟨list, last, examined, rest, iter, hreturned, hworkSpace, hrest, rfl,
      sameBoundary_of_accepted haccepted fun result hresult =>
        hdist result (List.mem_append_left rest hresult)⟩

/-- A row within the radius and one beyond it. -/
theorem sameBoundary_two_rows :
    let vector : UInt64 → List Int := fun label => (label.toNat : Int) :: List.replicate 15 0
    let stream : List (UInt64 × Int) := [(1, 1), (2, 4)]
    let lib := resultList fun _ => stream
    let target := List.replicate 16 (0 : Int)
    let scan : IndexScanDesc Int :=
      ⟨⟨1, 0, some ⟨false, 3 :: target⟩, none⟩, ⟨0, 0⟩, false, false, none, false⟩
    let s : SPTAGScan Int _ _ := ⟨scan, ⟨true, false, false, Range.width 0, none, none⟩, ()⟩
    lib.Streams (lib.create target ()).1 (lib.create target ()).2 stream ∧
      (∀ result ∈ stream, ∃ afterLhs afterRhs,
        operator true DistanceMethod.l2 (vector result.1) target afterLhs afterRhs =
          Except.ok result.2) ∧
      ∃ list last examined rest iter,
        returned (sptagGettuple lib) SPTAGScan.tuple 2 s = Except.ok (list, last) ∧
        last.scanState.workSpace = some (some iter) ∧ lib.Streams iter last.world rest ∧
        stream = examined ++ rest ∧
        SameBoundary true DistanceMethod.l2 vector 3 target examined list := by
  intro vector stream lib target scan s
  have hstream := resultList_streams (fun _ => stream) stream ()
  have hsquare (label : UInt64) : operator true DistanceMethod.l2 (vector label) target 0 0 =
      Except.ok ((label.toNat : Int) ^ 2) := by
    have hlength : (vector label).length = target.length := rfl
    rw [operator_ok true _ hlength]
    simp [exactDistance, vector, target, pointer, Finset.sum_range_succ]
  have hdist : ∀ result ∈ stream, ∃ afterLhs afterRhs,
      operator true DistanceMethod.l2 (vector result.1) target afterLhs afterRhs =
        Except.ok result.2 := by
    intro result hresult
    have hvalue := (show ∀ result ∈ stream, (result.1.toNat : Int) ^ 2 = result.2 by decide)
      result hresult
    exact ⟨0, 0, (hsquare result.1).trans (congrArg Except.ok hvalue)⟩
  have hsptag := (sameBoundary_iff (Q := @SortedQueue) lib distanceQueueWidth true
    DistanceMethod.l2 vector 3 target () stream hstream hdist 1).2
  obtain ⟨list, last, examined, rest, iter, hreturned, hworkSpace, hrest, hsplit, hsame⟩ :=
    hsptag s rfl rfl rfl
  refine ⟨hstream, hdist, list, last, examined, rest, iter, hreturned, hworkSpace, hrest, hsplit,
    hsame.mpr ?_⟩
  intro result hresult
  have hmem : result ∈ stream := hsplit ▸ List.mem_append_left rest hresult
  exact (show ∀ result ∈ stream, result.2 ≠ 3 by decide) result hmem

/-- A row at the radius is returned by the scans and refused by the operator. -/
theorem range_boundary_differs :
    let vector : List Int := 1 :: List.replicate 15 0
    let target := List.replicate 16 (0 : Int)
    let lib := resultList fun _ : List Int => [((1 : UInt64), (1 : Int))]
    let scan : IndexScanDesc Int :=
      ⟨⟨1, 0, some ⟨false, 1 :: target⟩, none⟩, ⟨0, 0⟩, false, false, none, false⟩
    let s : HNSWScan @SortedQueue Int _ _ :=
      ⟨scan, ⟨true, false, false, Range.width 0, none⟩, ()⟩
    let s' : SPTAGScan Int _ _ := ⟨scan, ⟨true, false, false, Range.width 0, none, none⟩, ()⟩
    l2Distance true vector target 0 0 = Except.ok 1 ∧
      (∃ last, returned (hnswGettuple lib distanceQueueWidth) HNSWScan.tuple 1 s =
        Except.ok ([some (⟨0, 1⟩, some 1)], last)) ∧
      (∃ last, returned (sptagGettuple lib) SPTAGScan.tuple 1 s' =
        Except.ok ([some (⟨0, 1⟩, some 1)], last)) ∧
      rangeL2Distance true vector (1 :: target) 0 0 = Except.ok false :=
  ⟨rfl, ⟨_, rfl⟩, ⟨_, rfl⟩, rfl⟩

end VBase.AccessMethod
