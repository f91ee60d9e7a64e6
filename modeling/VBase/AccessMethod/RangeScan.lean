import VBase.AccessMethod.OrderScan
import VBase.AccessMethod.RangeKeys
import VBase.AccessMethod.Streams
import VBase.Foundation.FirstIndex

/-! # Range scans

A scan with a range key waits for the first result within its radius, and from there
on reports the results within the radius until a run of results is outside. While it
waits, an hnsw scan gives up when the results stop improving. The loops keep counters
and flags; the specification looks at the stream.
-/

namespace VBase.AccessMethod

open PriorityQueue

/-! ## The specification -/

section Specification

variable {D : Type} [LinearOrder D] (radius : D)

def within (dist : D) : Bool := decide (dist ≤ radius)

def beyond (dist : D) : Bool := decide (radius < dist)

/-- The position of the first result within the radius, or the length of the stream. -/
def entry (stream : List (UInt64 × D)) : Nat :=
  stream.findIdx fun result => within radius result.2

/-- The first result that is refused while the scan waits, or the length of the stream. -/
def stallIndex (stall : List D → D → Bool) (before stream : List (UInt64 × D)) : Nat :=
  firstIndex (fun seen result => stall (seen.map Prod.snd) result.2) before stream

/-- The result that completes a run of `run` results beyond the radius, or the length of the
stream. -/
def runIndex (run : Nat) (before stream : List (UInt64 × D)) : Nat :=
  firstIndex (fun seen result =>
    decide (run ≤ trailing (fun earlier => beyond radius earlier.2) (seen ++ [result])))
    before stream

/-- The rows of a range scan up to its first false, and the stream that it leaves. -/
def rangeSession (stall : List D → D → Bool) (run : Nat) (before stream : List (UInt64 × D)) :
    List (UInt64 × D) × List (UInt64 × D) :=
  let stalled := stallIndex stall before stream
  if stalled < entry radius stream then ([], stream.drop (stalled + 1))
  else
    let inside := stream.drop (entry radius stream)
    let cut := runIndex radius run [] inside
    ((inside.take cut).filter (fun result => within radius result.2), inside.drop (cut + 1))

/-- The distance is no less than the smallest of the earlier ones, `queueThreshold` of them. -/
def stalls (earlier : List D) (dist : D) : Bool :=
  (nthSmallest queueThreshold earlier).any fun bound => decide (bound ≤ dist)

/-- The rows of a range scan with hnsw. -/
def hnswSession (stream : List (UInt64 × D)) : List (UInt64 × D) × List (UInt64 × D) :=
  rangeSession radius stalls distanceThreshold [] stream

/-- The rows of a range scan with sptag, which waits as long as there are results. -/
def sptagSession (stream : List (UInt64 × D)) : List (UInt64 × D) × List (UInt64 × D) :=
  rangeSession radius (fun _ _ => false) sptagThreshold [] stream

variable {radius}

theorem within_eq_not (dist : D) : within radius dist = !beyond radius dist := by
  simp [within, beyond, ← not_lt]

theorem within_of_beyond {dist : D} (hout : beyond radius dist = true) :
    within radius dist = false := by
  rw [within_eq_not, hout]
  rfl

theorem within_of_not_beyond {dist : D} (hin : beyond radius dist = false) :
    within radius dist = true := by
  rw [within_eq_not, hin]
  rfl

theorem runIndex_of_lt {run : Nat} {before : List (UInt64 × D)} {result : UInt64 × D}
    (hrun : trailing (fun earlier => beyond radius earlier.2) (before ++ [result]) < run)
    (rest : List (UInt64 × D)) :
    runIndex radius run before (result :: rest) =
      runIndex radius run (before ++ [result]) rest + 1 :=
  firstIndex_of_false (decide_eq_false (Nat.not_le.mpr hrun)) rest

theorem runIndex_of_le {run : Nat} {before : List (UInt64 × D)} {result : UInt64 × D}
    (hrun : run ≤ trailing (fun earlier => beyond radius earlier.2) (before ++ [result]))
    (rest : List (UInt64 × D)) : runIndex radius run before (result :: rest) = 0 :=
  firstIndex_of_true (decide_eq_true hrun) rest

section Cases

variable {stall : List D → D → Bool} (run : Nat) {before : List (UInt64 × D)}
variable {result : UInt64 × D} (rest : List (UInt64 × D))

/-- A result within the radius begins the second phase. -/
theorem rangeSession_of_within (hin : within radius result.2 = true) :
    rangeSession radius stall run before (result :: rest) =
      let cut := runIndex radius run [] (result :: rest)
      (((result :: rest).take cut).filter (fun result => within radius result.2),
        (result :: rest).drop (cut + 1)) := by
  have hentry : entry radius (result :: rest) = 0 := by
    rw [entry, List.findIdx_cons, hin, cond_true]
  rw [rangeSession, hentry, if_neg (Nat.not_lt_zero _), List.drop_zero]

theorem entry_of_beyond (hout : within radius result.2 = false) :
    entry radius (result :: rest) = entry radius rest + 1 := by
  rw [entry, List.findIdx_cons, hout, cond_false, entry]

theorem rangeSession_of_stall (hout : within radius result.2 = false)
    (hstall : stall (before.map Prod.snd) result.2 = true) :
    rangeSession radius stall run before (result :: rest) = ([], rest) := by
  have hindex : stallIndex stall before (result :: rest) = 0 := by
    rw [stallIndex, firstIndex_of_true (by exact hstall)]
  rw [rangeSession, hindex, entry_of_beyond rest hout, if_pos (Nat.succ_pos _)]
  rfl

theorem rangeSession_of_beyond (hout : within radius result.2 = false)
    (hstall : stall (before.map Prod.snd) result.2 = false) :
    rangeSession radius stall run before (result :: rest) =
      rangeSession radius stall run (before ++ [result]) rest := by
  have hindex : stallIndex stall before (result :: rest) =
      stallIndex stall (before ++ [result]) rest + 1 := by
    rw [stallIndex, firstIndex_of_false (by exact hstall), stallIndex]
  simp only [rangeSession, hindex, entry_of_beyond rest hout, Nat.add_lt_add_iff_right,
    List.drop_succ_cons]

end Cases

end Specification

/-! ## Filters -/

/-- A filter that waits for a result within the radius, and then counts the results beyond it
since the last one within. -/
structure RangeFilter {D F : Type} [LinearOrder D] (turn : D → F → Turn × F) (reset : F → F)
    (radius : D) (stall : List D → D → Bool) (run : Nat) (waiting : List D → F → Prop)
    (counting : Nat → F → Prop) : Prop where
  run_pos : 0 < run
  stall_reached : ∀ {seen dist}, stall seen dist = true → ∃ earlier ∈ seen, earlier ≤ dist
  wait_stall : ∀ {seen filter dist}, waiting seen filter → stall seen dist = true →
    (turn dist filter).1 = Turn.stop ∧ waiting seen (turn dist filter).2
  wait_beyond : ∀ {seen filter dist}, waiting seen filter → stall seen dist = false →
    beyond radius dist = true →
    (turn dist filter).1 = Turn.skip ∧ waiting (seen ++ [dist]) (turn dist filter).2
  wait_within : ∀ {seen filter dist}, waiting seen filter → stall seen dist = false →
    beyond radius dist = false →
    (turn dist filter).1 = Turn.emit ∧ ∃ count, counting count (turn dist filter).2
  count_beyond : ∀ {count filter dist}, counting count filter → beyond radius dist = true →
    (turn dist filter).1 = (if run ≤ count + 1 then Turn.stop else Turn.skip) ∧
      counting (count + 1) (turn dist filter).2
  count_within : ∀ {count filter dist}, counting count filter → beyond radius dist = false →
    (turn dist filter).1 = Turn.emit ∧ counting count (turn dist filter).2
  reset_waiting : ∀ {seen filter}, waiting seen filter → waiting seen (reset filter)
  reset_counting : ∀ {count filter}, counting count filter → counting 0 (reset filter)

namespace RangeFilter

variable {D F : Type} [LinearOrder D] {turn : D → F → Turn × F} {reset : F → F} {radius : D}
variable {stall : List D → D → Bool} {run : Nat} {waiting : List D → F → Prop}
variable {counting : Nat → F → Prop}

/-- While everything is beyond the radius, a refused result is, too. -/
theorem beyond_of_stall (hfilter : RangeFilter turn reset radius stall run waiting counting)
    {seen : List D} (hseen : ∀ earlier ∈ seen, beyond radius earlier = true) {dist : D}
    (hstall : stall seen dist = true) : beyond radius dist = true := by
  obtain ⟨earlier, hearlier, hle⟩ := hfilter.stall_reached hstall
  have hlt := of_decide_eq_true (hseen earlier hearlier)
  exact decide_eq_true (hlt.trans_le hle)

theorem stall_of_within (hfilter : RangeFilter turn reset radius stall run waiting counting)
    {seen : List D} (hseen : ∀ earlier ∈ seen, beyond radius earlier = true) {dist : D}
    (hin : beyond radius dist = false) : stall seen dist = false := by
  rw [Bool.eq_false_iff]
  intro hstall
  rw [hfilter.beyond_of_stall hseen hstall] at hin
  cases hin

/-- Within the radius, the counter has the length of the run at the end of the history. -/
theorem session_counting (hfilter : RangeFilter turn reset radius stall run waiting counting)
    {before : List (UInt64 × D)} {filter : F}
    (hcounting : counting (trailing (fun earlier => beyond radius earlier.2) before) filter)
    (stream : List (UInt64 × D)) :
    let session := sessionFrom turn reset filter stream
    let cut := runIndex radius run before stream
    session.1 = (stream.take cut).filter (fun result => within radius result.2) ∧
      session.2.2 = stream.drop (cut + 1) := by
  induction stream generalizing before filter with
  | nil => exact ⟨rfl, rfl⟩
  | cons result rest ih =>
      have htrailing := trailing_concat (fun earlier : UInt64 × D => beyond radius earlier.2)
        before result
      rw [sessionFrom]
      rcases hturn : turn result.2 filter with ⟨kind, after⟩
      cases hout : beyond radius result.2 with
      | false =>
          -- a result within the radius ends the run
          rw [hout, if_neg Bool.false_ne_true] at htrailing
          obtain ⟨hkind, hafter⟩ := hfilter.count_within hcounting hout
          rw [hturn] at hkind hafter
          obtain rfl : kind = Turn.emit := hkind
          have hreset := hfilter.reset_counting hafter
          rw [← htrailing] at hreset
          obtain ⟨hrows, hleft⟩ := ih hreset
          rw [runIndex_of_lt (htrailing ▸ hfilter.run_pos)]
          refine ⟨?_, hleft⟩
          simp only [List.take_succ_cons, List.filter_cons, within_of_not_beyond hout, if_true]
          exact congrArg _ hrows
      | true =>
          rw [hout, if_pos rfl] at htrailing
          obtain ⟨hkind, hafter⟩ := hfilter.count_beyond hcounting hout
          rw [hturn, ← htrailing] at hkind hafter
          split at hkind
          next hrun =>
            obtain rfl : kind = Turn.stop := hkind
            rw [runIndex_of_le hrun]
            exact ⟨rfl, rfl⟩
          next hrun =>
            obtain rfl : kind = Turn.skip := hkind
            obtain ⟨hrows, hleft⟩ := ih hafter
            rw [runIndex_of_lt (Nat.not_le.mp hrun)]
            refine ⟨?_, hleft⟩
            simp only [List.take_succ_cons, List.filter_cons, within_of_beyond hout]
            exact hrows

/-- A session returns and leaves what the specification says. -/
theorem session_waiting (hfilter : RangeFilter turn reset radius stall run waiting counting)
    (before : List (UInt64 × D)) (hbefore : ∀ earlier ∈ before, beyond radius earlier.2 = true)
    {filter : F} (hwaiting : waiting (before.map Prod.snd) filter) (stream : List (UInt64 × D)) :
    let session := sessionFrom turn reset filter stream
    (session.1, session.2.2) = rangeSession radius stall run before stream := by
  induction stream generalizing before filter with
  | nil => rfl
  | cons result rest ih =>
      rw [sessionFrom]
      rcases hturn : turn result.2 filter with ⟨kind, after⟩
      cases hout : beyond radius result.2 with
      | false =>
          have hstall := hfilter.stall_of_within (List.forall_mem_map.mpr hbefore) hout
          obtain ⟨hkind, count, hafter⟩ := hfilter.wait_within hwaiting hstall hout
          rw [hturn] at hkind hafter
          obtain rfl : kind = Turn.emit := hkind
          have hreset := hfilter.reset_counting hafter
          -- the results before the first one within the radius are not part of a run
          have hstart : trailing (fun earlier => beyond radius earlier.2) ([] ++ [result]) = 0 := by
            rw [trailing_concat, hout, if_neg Bool.false_ne_true]
          rw [← hstart] at hreset
          obtain ⟨hrows, hleft⟩ := hfilter.session_counting hreset rest
          rw [rangeSession_of_within run rest (within_of_not_beyond hout),
            runIndex_of_lt (hstart ▸ hfilter.run_pos)]
          simp only [List.take_succ_cons, List.filter_cons, within_of_not_beyond hout, if_true,
            List.drop_succ_cons]
          rw [← hrows, ← hleft]
      | true =>
          cases hstall : stall (before.map Prod.snd) result.2 with
          | true =>
              obtain ⟨hkind, -⟩ := hfilter.wait_stall hwaiting hstall
              rw [hturn] at hkind
              obtain rfl : kind = Turn.stop := hkind
              rw [rangeSession_of_stall run rest (within_of_beyond hout) hstall]
          | false =>
              obtain ⟨hkind, hafter⟩ := hfilter.wait_beyond hwaiting hstall hout
              rw [hturn] at hkind hafter
              obtain rfl : kind = Turn.skip := hkind
              rw [rangeSession_of_beyond run rest (within_of_beyond hout) hstall]
              refine ih _ ?_ (by simpa using hafter)
              intro earlier hearlier
              rcases List.mem_append.mp hearlier with hold | hnew
              · exact hbefore earlier hold
              · rwa [List.mem_singleton.mp hnew]

/-- The filter emits the results within the radius and no others. -/
theorem accepts (hfilter : RangeFilter turn reset radius stall run waiting counting) :
    Accepts turn reset (within radius) fun filter =>
      (∃ seen, waiting seen filter ∧ ∀ earlier ∈ seen, beyond radius earlier = true) ∨
        ∃ count, counting count filter where
  emit_iff := by
    rintro dist filter (⟨seen, hwaiting, hseen⟩ | ⟨count, hcounting⟩)
    · cases hout : beyond radius dist with
      | false =>
          have hstall := hfilter.stall_of_within hseen hout
          rw [(hfilter.wait_within hwaiting hstall hout).1]
          simp [within_of_not_beyond hout]
      | true =>
          cases hstall : stall seen dist with
          | true => simp [(hfilter.wait_stall hwaiting hstall).1, within_of_beyond hout]
          | false => simp [(hfilter.wait_beyond hwaiting hstall hout).1, within_of_beyond hout]
    · cases hout : beyond radius dist with
      | false => simp [(hfilter.count_within hcounting hout).1, within_of_not_beyond hout]
      | true =>
          rw [(hfilter.count_beyond hcounting hout).1, within_of_beyond hout]
          split <;> simp
  turn_keeps := by
    rintro dist filter (⟨seen, hwaiting, hseen⟩ | ⟨count, hcounting⟩)
    · cases hstall : stall seen dist with
      | true => exact Or.inl ⟨seen, (hfilter.wait_stall hwaiting hstall).2, hseen⟩
      | false =>
          cases hout : beyond radius dist with
          | false => exact Or.inr (hfilter.wait_within hwaiting hstall hout).2
          | true =>
              refine Or.inl ⟨_, (hfilter.wait_beyond hwaiting hstall hout).2, ?_⟩
              simpa [or_imp, forall_and, hout] using hseen
    · cases hout : beyond radius dist with
      | false => exact Or.inr ⟨_, (hfilter.count_within hcounting hout).2⟩
      | true => exact Or.inr ⟨_, (hfilter.count_beyond hcounting hout).2⟩
  reset_keeps := by
    rintro filter (⟨seen, hwaiting, hseen⟩ | ⟨count, hcounting⟩)
    · exact Or.inl ⟨seen, hfilter.reset_waiting hwaiting, hseen⟩
    · exact Or.inr ⟨0, hfilter.reset_counting hcounting⟩

end RangeFilter

/-! ## hnsw -/

section Hnsw

variable {Q : {T K : Type} → [LinearOrder K] → (T → K) → Type} [PriorityQueue Q]
variable {D I W : Type} [LinearOrder D]

/-- The counter is a local variable of the call. -/
def HNSWFilter.reset (filter : HNSWFilter Q D) : HNSWFilter Q D := { filter with i := 0 }

/-- Every earlier distance has gone through the queue, which keeps the smallest. -/
def HNSWFilter.Waiting (seen : List D) (filter : HNSWFilter Q D) : Prop :=
  filter.inRange = false ∧ SmallestBy id queueThreshold ↑seen (elems filter.distanceQueue)

def HNSWFilter.Counting (count : Nat) (filter : HNSWFilter Q D) : Prop :=
  filter.inRange = true ∧ filter.i = count

/-- The test of the queue, in terms of the distances that went through it. -/
theorem improves_eq {seen : List D} {queue : Q (id : D → D)}
    (hqueue : SmallestBy id queueThreshold ↑seen (elems queue)) (dist : D) :
    (decide (size queue < queueThreshold) || topAbove queue dist) = !stalls seen dist := by
  have hcard := hqueue.card_eq
  rw [Multiset.coe_card] at hcard
  rcases Nat.lt_or_ge seen.length queueThreshold with hshort | hlong
  · have hsize : size queue < queueThreshold := by
      unfold size
      omega
    simp [hsize, stalls, nthSmallest_eq_none hshort]
  · have hsize : size queue = queueThreshold := by
      unfold size
      omega
    obtain ⟨greatest, htop⟩ := exists_top_of_pos (hsize ▸ by decide : 0 < size queue)
    have hnth := hqueue.nthSmallest_eq hsize (mem_of_top htop)
      fun low hlow => le_top queue greatest low htop hlow
    simp [hsize, topAbove, htop, stalls, hnth, ← not_le]

omit [PriorityQueue Q] in
theorem exceeds_of_not_stalls {seen : List D} {dist : D} (hstall : stalls seen dist = false) :
    exceeds queueThreshold seen dist = false := by
  unfold stalls at hstall
  unfold exceeds
  cases hnth : nthSmallest queueThreshold seen with
  | none => rfl
  | some bound =>
      simp only [hnth, Option.any_some, decide_eq_false_iff_not, not_le, not_lt] at hstall ⊢
      exact hstall.le

/-- A turn that is not refused, while the scan waits. -/
theorem rangeTurn_waiting (radius : D) {seen : List D} {filter : HNSWFilter Q D}
    (hwaiting : filter.Waiting seen) {dist : D} (hstall : stalls seen dist = false) :
    ∃ queue, SmallestBy id queueThreshold ↑(seen ++ [dist]) (elems queue) ∧
      rangeTurn (Range.radius radius) dist filter =
        if beyond radius dist then
          (Turn.skip, { filter with distanceQueue := queue, i := filter.i + 1 })
        else (Turn.emit, { filter with distanceQueue := queue, inRange := true }) := by
  obtain ⟨hinRange, hqueue⟩ := hwaiting
  have himproves := improves_eq hqueue dist
  rw [hstall] at himproves
  refine ⟨_, replaceTop_smallest (by decide) hqueue (exceeds_of_not_stalls hstall), ?_⟩
  simp [rangeTurn, hinRange, himproves, Range.exceededBy, beyond]

theorem rangeTurn_counting {radius : D} {count : Nat} {filter : HNSWFilter Q D}
    (hcounting : filter.Counting count) (dist : D) :
    rangeTurn (Range.radius radius) dist filter =
      if beyond radius dist then
        (if distanceThreshold ≤ count + 1 then Turn.stop else Turn.skip,
          { filter with i := count + 1 })
      else (Turn.emit, filter) := by
  obtain ⟨hinRange, rfl⟩ := hcounting
  obtain ⟨xsInorder, inRange, queue, i⟩ := filter
  obtain rfl : inRange = true := hinRange
  simp [rangeTurn, Range.exceededBy, beyond]

/-- The loop body of `hnsw_gettuple` is a range filter. -/
theorem rangeTurn_filter (radius : D) :
    RangeFilter (rangeTurn (Range.radius radius)) HNSWFilter.reset radius stalls
      distanceThreshold (HNSWFilter.Waiting (Q := Q)) HNSWFilter.Counting where
  run_pos := by decide
  stall_reached := by
    intro seen dist hstall
    simp only [stalls, Option.any_eq_true, decide_eq_true_eq] at hstall
    obtain ⟨bound, hbound, hle⟩ := hstall
    exact ⟨bound, nthSmallest_mem hbound, hle⟩
  wait_stall := by
    intro seen filter dist hwaiting hstall
    have himproves := improves_eq hwaiting.2 dist
    rw [hstall] at himproves
    have hturn : rangeTurn (Range.radius radius) dist filter = (Turn.stop, filter) := by
      simp [rangeTurn, hwaiting.1, himproves]
    rw [hturn]
    exact ⟨rfl, hwaiting⟩
  wait_beyond := by
    intro seen filter dist hwaiting hstall hout
    obtain ⟨queue, hqueue, hturn⟩ := rangeTurn_waiting radius hwaiting hstall
    rw [hturn, if_pos hout]
    exact ⟨rfl, hwaiting.1, hqueue⟩
  wait_within := by
    intro seen filter dist hwaiting hstall hin
    obtain ⟨queue, hqueue, hturn⟩ := rangeTurn_waiting radius hwaiting hstall
    rw [hturn, if_neg (by simp [hin])]
    exact ⟨rfl, filter.i, rfl, rfl⟩
  count_beyond := by
    intro count filter dist hcounting hout
    rw [rangeTurn_counting hcounting, if_pos hout]
    exact ⟨rfl, hcounting.1, rfl⟩
  count_within := by
    intro count filter dist hcounting hin
    rw [rangeTurn_counting hcounting, if_neg (by simp [hin])]
    exact ⟨rfl, hcounting⟩
  reset_waiting := fun hwaiting => hwaiting
  reset_counting := fun hcounting => ⟨hcounting.1, rfl⟩

/-- A scan that reads a stream, with the filter at the start of a call. -/
structure HNSWScan.Stands (lib : IteratorLibrary D I W) (hasRangeFilter : Bool) (range : Range D)
    (filter : HNSWFilter Q D) (stream : List (UInt64 × D)) (s : HNSWScan Q D I W) : Prop where
  later : s.scanState.first = false
  hasRangeFilter_eq : s.scanState.hasRangeFilter = hasRangeFilter
  range_eq : s.scanState.range = range
  workSpace_eq : ∃ workSpace iter, s.scanState.workSpace = some workSpace ∧
    workSpace.resultIterator = some iter ∧ s.filter workSpace = filter ∧
    lib.Streams iter s.world stream

/-- What the caller reads of a result. -/
def resultTuple (result : UInt64 × D) : ItemPointer × Option D :=
  (ItemPointer.ofLabel result.1, some result.2)

theorem hnsw_readsStream (lib : IteratorLibrary D I W) (width : Nat) (hasRangeFilter : Bool)
    (range : Range D) :
    ReadsStream (hnswGettuple lib width) HNSWScan.tuple resultTuple
      (hnswTurn hasRangeFilter range) (HNSWFilter.reset (Q := Q))
      (HNSWScan.Stands lib hasRangeFilter range) where
  call := by
    rintro filter stream s ⟨hlater, rfl, rfl, workSpace, iter, hworkSpace, hiter, rfl, hstream⟩
    obtain ⟨houtcome, hfilter, hrest⟩ := Fetching.run_streams
      (hnswTurn s.scanState.hasRangeFilter s.scanState.range) hstream (s.filter workSpace)
    rw [hnswGettuple_later lib hlater, hnswFetch, hworkSpace]
    simp only [hiter, houtcome, Option.join_some]
    refine ⟨_, rfl, ⟨hlater, rfl, rfl, _, _, rfl, rfl, ?_, hrest⟩, ?_⟩
    · rw [← hfilter, HNSWScan.filter]
      unfold HNSWScan.store
      split <;> rfl
    · intro result hfound
      rw [Option.mem_def.mp hfound] at houtcome
      simp only [HNSWScan.tuple, HNSWScan.store, houtcome]
      rfl

/-- The first call of a range scan opens an iterator and an empty queue. -/
theorem HNSWScan.started_stands {lib : IteratorLibrary D I W} (width : Nat)
    (s : HNSWScan Q D I W) (radius : D) {target : List D} {stream : List (UInt64 × D)}
    (hstream : lib.Streams (lib.create target s.world).1 (lib.create target s.world).2 stream) :
    HNSWScan.Stands lib true (Range.radius radius)
      ⟨false, false, PriorityQueue.empty, 0⟩ stream
      (s.started lib width (Query.range radius target)) :=
  ⟨rfl, rfl, rfl, _, _, rfl, rfl, rfl, hstream⟩

theorem HNSWFilter.waiting_start :
    HNSWFilter.Waiting ([] : List D)
      (⟨false, false, PriorityQueue.empty, 0⟩ : HNSWFilter Q D) := by
  refine ⟨rfl, ?_⟩
  rw [elems_empty]
  exact SmallestBy.self (Nat.zero_le _)

end Hnsw

/-! ## sptag -/

section Sptag

variable {D I W : Type} [LinearOrder D]

/-- The loop body of `sptag_gettuple` is a range filter that never refuses a result. -/
theorem sptagTurn_filter (radius : D) :
    RangeFilter (sptagTurn true (Range.radius radius)) (fun filter => (filter.1, 0)) radius
      (fun _ _ => false) sptagThreshold (fun _ filter => filter.1 = false)
      (fun count filter => filter = (true, count)) where
  run_pos := by decide
  stall_reached := fun hstall => by cases hstall
  wait_stall := fun _ hstall => by cases hstall
  wait_beyond := by
    rintro seen ⟨inRange, i⟩ dist rfl - hout
    simp [sptagTurn, Range.exceededBy, of_decide_eq_true hout]
  wait_within := by
    rintro seen ⟨inRange, i⟩ dist rfl - hin
    simp [sptagTurn, Range.exceededBy, of_decide_eq_false hin]
  count_beyond := by
    rintro count filter dist rfl hout
    simp [sptagTurn, Range.exceededBy, of_decide_eq_true hout]
  count_within := by
    rintro count filter dist rfl hin
    simp [sptagTurn, Range.exceededBy, of_decide_eq_false hin]
  reset_waiting := fun hwaiting => hwaiting
  reset_counting := by
    rintro count filter rfl
    rfl

def SPTAGScan.tuple (s : SPTAGScan D I W) : ItemPointer × Option D :=
  (s.scan.xsHeaptid, s.scan.xsOrderbyval)

structure SPTAGScan.Stands (lib : IteratorLibrary D I W) (hasRangeFilter : Bool)
    (range : Range D) (filter : Bool × Nat) (stream : List (UInt64 × D)) (s : SPTAGScan D I W) :
    Prop where
  later : s.scanState.first = false
  hasRangeFilter_eq : s.scanState.hasRangeFilter = hasRangeFilter
  range_eq : s.scanState.range = range
  filter_eq : (s.scanState.inRange, 0) = filter
  workSpace_eq : ∃ iter, s.scanState.workSpace = some (some iter) ∧
    lib.Streams iter s.world stream

theorem sptag_readsStream (lib : IteratorLibrary D I W) (hasRangeFilter : Bool)
    (range : Range D) :
    ReadsStream (sptagGettuple lib) SPTAGScan.tuple resultTuple
      (sptagTurn hasRangeFilter range) (fun filter => (filter.1, 0))
      (SPTAGScan.Stands lib hasRangeFilter range) where
  call := by
    rintro filter stream s ⟨hlater, rfl, rfl, rfl, iter, hworkSpace, hstream⟩
    obtain ⟨houtcome, hfilter, hrest⟩ := Fetching.run_streams
      (sptagTurn s.scanState.hasRangeFilter s.scanState.range) hstream (s.scanState.inRange, 0)
    rw [sptagGettuple_later lib hlater, sptagFetch, hworkSpace]
    dsimp only
    rw [houtcome, Option.join_some]
    refine ⟨_, rfl, ⟨hlater, rfl, rfl, ?_, _, rfl, hrest⟩, ?_⟩
    · rw [← hfilter]
      rfl
    · intro result hfound
      rw [Option.mem_def.mp hfound] at houtcome
      simp only [SPTAGScan.tuple, SPTAGScan.store, houtcome]
      rfl

omit [LinearOrder D] in
theorem SPTAGScan.started_stands {lib : IteratorLibrary D I W} (s : SPTAGScan D I W) (radius : D)
    {target : List D} {stream : List (UInt64 × D)}
    (hstream : lib.Streams (lib.create target s.world).1 (lib.create target s.world).2 stream) :
    SPTAGScan.Stands lib true (Range.radius radius) (false, 0) stream
      (s.started lib (Query.range radius target)) :=
  ⟨rfl, rfl, rfl, rfl, _, rfl, hstream⟩

end Sptag

/-! ## The rows of a scan -/

variable {Q : {T K : Type} → [LinearOrder K] → (T → K) → Type} [PriorityQueue Q]
variable {D I W : Type} [LinearOrder D]

/-- While a scan waits, the result at which it gives up is beyond the radius. -/
theorem beyond_of_stallIndex {radius : D} {stream : List (UInt64 × D)} {result : UInt64 × D}
    (hresult : stream[stallIndex stalls [] stream]? = some result)
    (hentry : stallIndex stalls [] stream ≤ entry radius stream) : radius < result.2 := by
  have hstall := firstIndex_getElem? hresult
  rw [List.nil_append] at hstall
  refine of_decide_eq_true ((rangeTurn_filter (Q := @SortedQueue) radius).beyond_of_stall ?_ hstall)
  intro dist hdist
  obtain ⟨earlier, hearlier, rfl⟩ := List.mem_map.mp hdist
  obtain ⟨index, hindex, rfl⟩ := List.mem_iff_getElem.mp hearlier
  rw [List.length_take] at hindex
  have hbefore := List.not_of_lt_findIdx (show index < entry radius stream by
    rw [stallIndex] at hentry; omega)
  rw [List.getElem_take]
  rw [within_eq_not] at hbefore
  simpa using hbefore

/-- The rows of a range scan up to its first false are those of the specification, for both
access methods. The result at which an hnsw scan gives up waiting is not within the radius. -/
theorem returned_rangeSession (lib : IteratorLibrary D I W) (width : Nat) (radius : D)
    (target : List D) (world : W) (stream : List (UInt64 × D))
    (hstream : lib.Streams (lib.create target world).1 (lib.create target world).2 stream) :
    (∀ s : HNSWScan Q D I W, s.scanState.first = true → s.world = world →
      s.scan.toScanKeys.ask = some (Except.ok (Query.range radius target)) →
      let rows := (hnswSession radius stream).1
      ∃ last, returned (hnswGettuple lib width) HNSWScan.tuple (rows.length + 1) s =
        Except.ok (rows.map (fun row => some (resultTuple row)) ++ [none], last)) ∧
    (∀ s : SPTAGScan D I W, s.scanState.first = true → s.world = world →
      s.scan.toScanKeys.ask = some (Except.ok (Query.range radius target)) →
      let rows := (sptagSession radius stream).1
      ∃ last, returned (sptagGettuple lib) SPTAGScan.tuple (rows.length + 1) s =
        Except.ok (rows.map (fun row => some (resultTuple row)) ++ [none], last)) ∧
    ∀ result, stream[stallIndex stalls [] stream]? = some result →
      stallIndex stalls [] stream ≤ entry radius stream → radius < result.2 := by
  refine ⟨?_, ?_, fun result => beyond_of_stallIndex⟩
  · rintro s hfirst rfl hask
    have hsession := (rangeTurn_filter (Q := Q) radius).session_waiting [] (by simp)
      HNSWFilter.waiting_start stream
    rw [← hnswSession] at hsession
    rw [← hsession]
    simp only
    rw [returned_congr (hnswGettuple_started lib width hfirst hask)]
    exact (hnsw_readsStream lib width true _).session (s.started_stands width radius hstream)
  · rintro s hfirst rfl hask
    have hsession := (sptagTurn_filter radius).session_waiting [] (by simp)
      (show (false, 0).1 = false from rfl) stream
    rw [← sptagSession] at hsession
    rw [← hsession]
    simp only
    rw [returned_congr (sptagGettuple_started lib hfirst hask)]
    exact (sptag_readsStream lib true _).session (s.started_stands radius hstream)

/-- Three results beyond the radius end a scan with hnsw, five a scan with sptag. -/
theorem returned_eight_results :
    let stream : List (UInt64 × Int) :=
      [(1, 5), (2, 1), (3, 9), (4, 2), (5, 9), (6, 8), (7, 7), (8, 3)]
    let lib := resultList fun _ => stream
    let scan : IndexScanDesc Int :=
      ⟨⟨1, 0, some ⟨false, [3, 0]⟩, none⟩, ⟨0, 0⟩, false, false, none, false⟩
    let s : HNSWScan @SortedQueue Int _ _ :=
      ⟨scan, ⟨true, false, false, Range.width 0, none⟩, ()⟩
    let s' : SPTAGScan Int _ _ := ⟨scan, ⟨true, false, false, Range.width 0, none, none⟩, ()⟩
    lib.Streams (lib.create [0] ()).1 (lib.create [0] ()).2 stream ∧
      (∃ last, returned (hnswGettuple lib distanceQueueWidth) HNSWScan.tuple 3 s =
        Except.ok ([some (⟨0, 2⟩, some 1), some (⟨0, 4⟩, some 2), none], last)) ∧
      ∃ last, returned (sptagGettuple lib) SPTAGScan.tuple 4 s' =
        Except.ok ([some (⟨0, 2⟩, some 1), some (⟨0, 4⟩, some 2), some (⟨0, 8⟩, some 3), none],
          last) := by
  intro stream lib scan s s'
  have hstream := resultList_streams (fun _ => stream) stream ()
  obtain ⟨hhnsw, hsptag, -⟩ := returned_rangeSession (Q := @SortedQueue) lib distanceQueueWidth 3
    [0] () stream hstream
  exact ⟨hstream, hhnsw s rfl rfl rfl, hsptag s' rfl rfl rfl⟩

end VBase.AccessMethod
