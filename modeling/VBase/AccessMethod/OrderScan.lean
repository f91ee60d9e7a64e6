import VBase.AccessMethod.HnswScan
import VBase.Foundation.Source
import Mathlib.Data.List.ReduceOption

/-! # ORDER BY scans

A scan with an ORDER BY key reports the results of its iterator one by one. Its
distance queue holds the smallest distances reported so far, as many as it is
wide, until a distance exceeds all of a full queue. From then on `xs_inorder`
is set, so the flag is a function of the distances alone.
-/

namespace VBase.AccessMethod

open PriorityQueue

section Flag

variable {D : Type} [LinearOrder D]

/-- `dist` is greater than the smallest of the earlier distances, `width` of them. -/
def exceeds (width : Nat) (earlier : List D) (dist : D) : Bool :=
  (nthSmallest width earlier).any fun bound => decide (bound < dist)

/-- Some distance exceeded those before it. -/
def raised (width : Nat) (dists : List D) : Bool :=
  (List.range dists.length).any fun index =>
    dists[index]?.any (exceeds width (dists.take index))

theorem raised_iff {width : Nat} {dists : List D} :
    raised width dists = true ↔ ∃ index dist bound, dists[index]? = some dist ∧
      nthSmallest width (dists.take index) = some bound ∧ bound < dist := by
  simp only [raised, exceeds, List.any_eq_true, List.mem_range, Option.any_eq_true,
    decide_eq_true_eq]
  constructor
  · rintro ⟨index, _, dist, hdist, bound, hbound, hlt⟩
    exact ⟨index, dist, bound, hdist, hbound, hlt⟩
  · rintro ⟨index, dist, bound, hdist, hbound, hlt⟩
    exact ⟨index, (List.getElem?_eq_some_iff.mp hdist).1, dist, hdist, bound, hbound, hlt⟩

/-- One more distance raises the flag if it exceeds the others, and never lowers it. -/
theorem raised_concat (width : Nat) (dists : List D) (dist : D) :
    raised width (dists ++ [dist]) = (raised width dists || exceeds width dists dist) := by
  rw [Bool.eq_iff_iff, Bool.or_eq_true, raised_iff, raised_iff]
  simp only [exceeds, Option.any_eq_true, decide_eq_true_eq]
  constructor
  · rintro ⟨index, last, bound, hlast, hbound, hlt⟩
    have hindex := (List.getElem?_eq_some_iff.mp hlast).1
    rw [List.length_append, List.length_singleton] at hindex
    rcases Nat.eq_or_lt_of_le (Nat.le_of_lt_succ hindex) with rfl | hless
    · rw [List.getElem?_concat_length, Option.some.injEq] at hlast
      rw [List.take_left'] at hbound
      · exact Or.inr ⟨bound, hbound, hlast ▸ hlt⟩
      · rfl
    · rw [List.getElem?_append_left hless] at hlast
      rw [List.take_append_of_le_length hless.le] at hbound
      exact Or.inl ⟨index, last, bound, hlast, hbound, hlt⟩
  · rintro (⟨index, last, bound, hlast, hbound, hlt⟩ | ⟨bound, hbound, hlt⟩)
    · have hindex := (List.getElem?_eq_some_iff.mp hlast).1
      refine ⟨index, last, bound, ?_, ?_, hlt⟩
      · rw [List.getElem?_append_left hindex, hlast]
      · rw [List.take_append_of_le_length hindex.le, hbound]
    · refine ⟨dists.length, dist, bound, List.getElem?_concat_length, ?_, hlt⟩
      rw [List.take_left' rfl, hbound]

variable {Q : {T K : Type} → [LinearOrder K] → (T → K) → Type} [PriorityQueue Q]

/-- A full queue of the smallest distances knows what exceeds them. -/
theorem full_topBelow {width : Nat} (hwidth : 0 < width) {seen : List D} {queue : Q (id : D → D)}
    (hqueue : SmallestBy id width ↑seen (elems queue)) (dist : D) :
    ((size queue == width) && topBelow queue dist) = exceeds width seen dist := by
  have hcard := hqueue.card_eq
  rw [Multiset.coe_card] at hcard
  rcases Nat.lt_or_ge seen.length width with hshort | hlong
  · have hsize : size queue ≠ width := by
      unfold size
      omega
    simp [hsize, exceeds, nthSmallest_eq_none hshort]
  · have hsize : size queue = width := by
      unfold size
      omega
    obtain ⟨greatest, htop⟩ := exists_top_of_pos (hwidth.trans_eq hsize.symm)
    have hnth := hqueue.nthSmallest_eq hsize (mem_of_top htop)
      fun low hlow => le_top queue greatest low htop hlow
    simp [hsize, topBelow, htop, exceeds, hnth]

/-- A distance that does not exceed the queue replaces the greatest of a full one. -/
theorem replaceTop_smallest {width : Nat} (hwidth : 0 < width) {seen : List D}
    {queue : Q (id : D → D)} (hqueue : SmallestBy id width ↑seen (elems queue)) {dist : D}
    (hwithin : exceeds width seen dist = false) :
    SmallestBy id width ↑(seen ++ [dist])
      (elems (replaceTop queue (size queue == width) dist)) := by
  have hperm : (↑(seen ++ [dist]) : Multiset D) = dist ::ₘ ↑seen :=
    Multiset.coe_eq_coe.mpr (List.perm_append_singleton dist seen)
  rw [hperm, replaceTop, elems_push, ← full_topBelow hwidth hqueue dist] at *
  by_cases hfull : size queue = width
  · obtain ⟨greatest, htop⟩ := exists_top_of_pos (hwidth.trans_eq hfull.symm)
    have hsplit := elems_of_top_some queue greatest htop
    have hpop := size_pop htop
    rw [hsplit] at hqueue
    simp only [hfull, beq_self_eq_true, Bool.true_and, topBelow, htop, Option.any_some,
      decide_eq_false_iff_not, not_lt] at hwithin
    simp only [hfull, beq_self_eq_true, if_true]
    refine hqueue.cons_replace (hpop.symm.trans hfull) ?_ hwithin
    intro low hlow
    exact le_top queue greatest low htop (hsplit ▸ Multiset.mem_cons_of_mem hlow)
  · have hroom : (elems queue).card < width := by
      have hcard := hqueue.card_eq
      have hne : (elems queue).card ≠ width := hfull
      omega
    rw [if_neg (by simpa using hfull)]
    exact hqueue.cons_of_room hroom dist

/-- An ORDER BY scan reports every result, and until the flag is raised a turn keeps the
smallest distances in the queue. -/
theorem orderTurn_spec {width : Nat} (hwidth : 0 < width) {seen : List D} (filter : HNSWFilter Q D)
    (hflag : filter.xsInorder = raised width seen)
    (hqueue : raised width seen = false →
      SmallestBy id width ↑seen (elems filter.distanceQueue)) (dist : D) :
    (orderTurn (Range.width width) dist filter).1 = Turn.emit ∧
      (orderTurn (Range.width width) dist filter).2.xsInorder = raised width (seen ++ [dist]) ∧
      (raised width (seen ++ [dist]) = false → SmallestBy id width ↑(seen ++ [dist])
        (elems (orderTurn (Range.width width) dist filter).2.distanceQueue)) := by
  rw [raised_concat]
  cases hseen : raised width seen with
  | true =>
      rw [hseen] at hflag
      simp [orderTurn, hflag]
  | false =>
      rw [hseen] at hflag
      have hfull := full_topBelow hwidth (hqueue hseen) dist
      cases hexceeds : exceeds width seen dist with
      | true =>
          rw [hexceeds] at hfull
          simp [orderTurn, hflag, Range.filledBy, hfull]
      | false =>
          rw [hexceeds] at hfull
          simp only [orderTurn, hflag, Range.filledBy, hfull, Bool.false_eq_true, if_false,
            Bool.or_false, true_and, forall_const]
          exact replaceTop_smallest hwidth (hqueue hseen) hexceeds

end Flag

/-! ## The results of a scan -/

variable {Q : {T K : Type} → [LinearOrder K] → (T → K) → Type} [PriorityQueue Q]
variable {D I W : Type} [LinearOrder D] {lib : IteratorLibrary D I W}

variable (lib) in
/-- An iterator, together with what its library keeps elsewhere, as a source of results. -/
def IteratorLibrary.source : Source (I × W) Fault (UInt64 × D) where
  pull := fun (iter, world) => Except.ok (lib.next iter world)
  remaining := fun (iter, world) => lib.remaining iter world
  pull_remaining := by
    rintro ⟨iter, world⟩ result ⟨after, world'⟩ hpull
    have hnext := Except.ok.inj hpull
    have hlt := lib.next_remaining iter world result (by rw [hnext])
    rwa [hnext] at hlt

/-- The results of a list, each with what is left after it. -/
def resultTrail : List (UInt64 × D) → List ((UInt64 × D) × List (UInt64 × D) × Unit)
  | [] => []
  | result :: rest => (result, rest, ()) :: resultTrail rest

omit [LinearOrder D] in
theorem resultTrail_map_fst (list : List (UInt64 × D)) :
    (resultTrail list).map Prod.fst = list := by
  induction list with
  | nil => rfl
  | cons result rest ih => rw [resultTrail, List.map_cons, ih]

omit [LinearOrder D] in
theorem resultList_yields (results : List D → List (UInt64 × D)) (list : List (UInt64 × D)) :
    (resultList results).source.Yields (list, ()) (resultTrail list) := by
  induction list with
  | nil => exact Source.Yields.done rfl
  | cons result rest ih => exact Source.Yields.item rfl ih

omit [LinearOrder D] in
/-- A loop whose body reports every result takes one turn. -/
theorem Fetching.run_emit {F : Type} {turn : D → F → Turn × F} (iter : I) (world : W) {filter : F}
    (hemit : ∀ dist, (turn dist filter).1 = Turn.emit) :
    Fetching.run lib turn iter world filter =
      match lib.next iter world with
      | (none, iter, world) => ⟨iter, world, filter, some none⟩
      | (some result, iter, world) =>
          ⟨iter, world, (turn result.2 filter).2, some (some result)⟩ := by
  have hstep : Fetching.step lib turn ⟨iter, world, filter, none⟩ =
      some (match lib.next iter world with
      | (none, iter, world) => ⟨iter, world, filter, some none⟩
      | (some result, iter, world) =>
          ⟨iter, world, (turn result.2 filter).2, some (some result)⟩) := by
    unfold Fetching.step
    rcases lib.next iter world with ⟨_ | ⟨label, dist⟩, after, world'⟩
    · simp
    · have hturn := hemit dist
      rcases hresult : turn dist filter with ⟨kind, next⟩
      rw [hresult] at hturn
      subst hturn
      simp [hresult]
  rw [Fetching.run, Loop.run_of_some (Fetching.step_decreases lib turn) hstep, Loop.run_of_none]
  unfold Fetching.step
  split <;> rfl

/-- An ORDER BY scan that has reported `seen` and holds the iterator `iter`. -/
structure OrderScan (width : Nat) (seen : List D) (iter : I) (s : HNSWScan Q D I W) : Prop where
  later : s.scanState.first = false
  no_filter : s.scanState.hasRangeFilter = false
  range_eq : s.scanState.range = Range.width width
  flag_eq : s.scan.xsInorder = raised width seen
  workSpace_eq : ∃ array queue, s.scanState.workSpace = some ⟨some iter, array, queue⟩ ∧
    (raised width seen = false → SmallestBy id width ↑seen (elems queue))

/-- The first call of an ORDER BY scan opens an iterator and lowers the flag. -/
theorem started_orderScan (lib : IteratorLibrary D I W) (width : Nat) (s : HNSWScan Q D I W)
    (target : List D) :
    OrderScan width [] (lib.create target s.world).1
        (s.started lib width (Query.order target)) ∧
      (s.started lib width (Query.order target)).world = (lib.create target s.world).2 := by
  refine ⟨⟨rfl, rfl, rfl, rfl, target, PriorityQueue.empty, rfl, fun _ => ?_⟩, rfl⟩
  rw [elems_empty]
  exact SmallestBy.self (Nat.zero_le _)

/-- A call of an ORDER BY scan asks its iterator once. -/
theorem OrderScan.fetch_eq (lib : IteratorLibrary D I W) {width : Nat} (hwidth : 0 < width)
    {seen : List D} {iter : I} {s : HNSWScan Q D I W} (hscan : OrderScan width seen iter s)
    {workSpace : HNSWWorkSpace Q D I}
    (hworkSpace : s.scanState.workSpace = some workSpace)
    (hiter : workSpace.resultIterator = some iter)
    (hqueue : raised width seen = false →
      SmallestBy id width ↑seen (elems workSpace.distanceQueue)) :
    hnswFetch lib s =
      match lib.next iter s.world with
      | (none, iter, world) =>
          Except.ok (false, s.store workSpace ⟨iter, world, s.filter workSpace, some none⟩)
      | (some result, iter, world) =>
          Except.ok (true, s.store workSpace ⟨iter, world,
            (orderTurn (Range.width width) result.2 (s.filter workSpace)).2,
            some (some result)⟩) := by
  have hturn : hnswTurn s.scanState.hasRangeFilter s.scanState.range =
      (orderTurn (Range.width width) : D → HNSWFilter Q D → _) := by
    rw [hscan.no_filter, hscan.range_eq]
    rfl
  simp only [hnswFetch, hworkSpace, hiter, hturn]
  rw [Fetching.run_emit iter s.world fun dist =>
    (orderTurn_spec hwidth (s.filter workSpace) hscan.flag_eq hqueue dist).1]
  rcases lib.next iter s.world with ⟨_ | result, after, world⟩ <;> rfl

/-- A result of the iterator is reported with its distance and the flag. -/
theorem OrderScan.fetch_some {width : Nat} (hwidth : 0 < width) {seen : List D} {iter after : I}
    {s : HNSWScan Q D I W} (hscan : OrderScan width seen iter s) {label : UInt64} {dist : D}
    {world : W} (hnext : lib.next iter s.world = (some (label, dist), after, world)) :
    ∃ s', hnswFetch lib s = Except.ok (true, s') ∧ OrderScan width (seen ++ [dist]) after s' ∧
      s'.world = world ∧ s'.scan.xsHeaptid = ItemPointer.ofLabel label ∧
      s'.scan.xsOrderbyval = some dist ∧ s'.scan.xsRecheckorderby = false := by
  obtain ⟨array, queue, hworkSpace, hqueue⟩ := hscan.workSpace_eq
  have hfetch := hscan.fetch_eq lib hwidth hworkSpace rfl hqueue
  rw [hnext] at hfetch
  obtain ⟨_, hflag, hsmallest⟩ := orderTurn_spec hwidth
    (s.filter ⟨some iter, array, queue⟩) hscan.flag_eq hqueue dist
  exact ⟨_, hfetch, ⟨hscan.later, hscan.no_filter, hscan.range_eq, hflag,
    array, _, rfl, hsmallest⟩, rfl, rfl, rfl, rfl⟩

theorem OrderScan.fetch_none {width : Nat} (hwidth : 0 < width) {seen : List D} {iter after : I}
    {s : HNSWScan Q D I W} (hscan : OrderScan width seen iter s) {world : W}
    (hnext : lib.next iter s.world = (none, after, world)) :
    ∃ s', hnswFetch lib s = Except.ok (false, s') ∧ OrderScan width seen after s' ∧
      s'.world = world := by
  obtain ⟨array, queue, hworkSpace, hqueue⟩ := hscan.workSpace_eq
  have hfetch := hscan.fetch_eq lib hwidth hworkSpace rfl hqueue
  rw [hnext] at hfetch
  exact ⟨_, hfetch, ⟨hscan.later, hscan.no_filter, hscan.range_eq, hscan.flag_eq,
    array, _, rfl, hqueue⟩, rfl⟩

/-- What the caller reads of a tuple: its identifier and its distance. -/
def HNSWScan.tuple (s : HNSWScan Q D I W) : ItemPointer × Option D :=
  (s.scan.xsHeaptid, s.scan.xsOrderbyval)

/-- The calls of an ORDER BY scan return the results of its iterator, one by one. -/
theorem OrderScan.returned_scan (lib : IteratorLibrary D I W) {width : Nat} (hwidth : 0 < width)
    (count : Nat) {seen : List D} {iter : I} {s : HNSWScan Q D I W}
    (hscan : OrderScan width seen iter s) :
    ∃ last after, returned (hnswGettuple lib width) HNSWScan.tuple count s =
        Except.ok ((lib.results count iter s.world).map
          (Option.map fun result => (ItemPointer.ofLabel result.1, some result.2)), last) ∧
      OrderScan width (seen ++ (lib.results count iter s.world).reduceOption.map Prod.snd) after
        last := by
  induction count generalizing seen iter s with
  | zero => exact ⟨s, iter, rfl, by simpa [IteratorLibrary.results] using hscan⟩
  | succ count ih =>
      rcases hnext : lib.next iter s.world with ⟨_ | ⟨label, dist⟩, after, world⟩
      · obtain ⟨s', hfetch, hscan', rfl⟩ := hscan.fetch_none hwidth hnext
        obtain ⟨last, final, hrest, hlast⟩ := ih hscan'
        refine ⟨last, final, ?_, by simpa [IteratorLibrary.results, hnext] using hlast⟩
        simp [returned, hnswGettuple_later lib hscan.later, hfetch, hrest,
          IteratorLibrary.results, hnext, bind, Except.bind, pure, Except.pure]
      · obtain ⟨s', hfetch, hscan', rfl, htid, hdist, -⟩ := hscan.fetch_some hwidth hnext
        obtain ⟨last, final, hrest, hlast⟩ := ih hscan'
        refine ⟨last, final, ?_, by simpa [IteratorLibrary.results, hnext] using hlast⟩
        simp [returned, hnswGettuple_later lib hscan.later, hfetch, hrest,
          IteratorLibrary.results, hnext, HNSWScan.tuple, htid, hdist, bind, Except.bind, pure,
          Except.pure]

/-- The calls after a rescan with an ORDER BY key return the results of a new iterator. -/
theorem returned_order (lib : IteratorLibrary D I W) {width : Nat} (hwidth : 0 < width)
    (count : Nat) {s : HNSWScan Q D I W} (hfirst : s.scanState.first = true) {target : List D}
    (hask : s.scan.toScanKeys.ask = some (Except.ok (Query.order target))) :
    ∃ last, returned (hnswGettuple lib width) HNSWScan.tuple count s =
      Except.ok ((lib.results count (lib.create target s.world).1
        (lib.create target s.world).2).map
          (Option.map fun result => (ItemPointer.ofLabel result.1, some result.2)), last) := by
  cases count with
  | zero => exact ⟨s, rfl⟩
  | succ count =>
      obtain ⟨hscan, hworld⟩ := started_orderScan lib width s target
      rw [returned_congr (hnswGettuple_started lib width hfirst hask), ← hworld]
      obtain ⟨last, -, hreturned, -⟩ := hscan.returned_scan lib hwidth (count + 1)
      exact ⟨last, hreturned⟩

end VBase.AccessMethod
