import VBase.AccessMethod.RangeScan

/-! # Calls after the end of a scan

A call that returns false leaves the iterator after the result at which it gave up, and
nothing in the scan says that it has ended. The next call goes on from there.
-/

namespace VBase.AccessMethod

open PriorityQueue

/-- Once a call has returned false, all further calls do. -/
def EndIsFinal {S α : Type} (gettuple : S → Except Fault (Bool × S)) (observe : S → α) (s : S) :
    Prop :=
  ∀ count list last, returned gettuple observe count s = Except.ok (list, last) →
    list.Pairwise fun earlier later => earlier = none → later = none

/-! ## Calls on a stream -/

section Calls

variable {D F : Type} {turn : D → F → Turn × F} {reset : F → F} {within : D → Bool}
variable {keeps : F → Prop}

/-- Fewer calls return the front of what more calls return. -/
theorem callsFrom_take (count more : Nat) (filter : F) (stream : List (UInt64 × D)) :
    (callsFrom turn reset count filter stream).1 =
      (callsFrom turn reset (count + more) filter stream).1.take count := by
  induction count generalizing filter stream with
  | zero => rfl
  | succ count ih =>
      rw [Nat.add_right_comm, callsFrom, callsFrom]
      exact congrArg _ (ih _ _)

theorem Accepts.session_keeps (haccepts : Accepts turn reset within keeps) {filter : F}
    (hkeeps : keeps filter) (stream : List (UInt64 × D)) :
    keeps (sessionFrom turn reset filter stream).2.1 := by
  induction stream generalizing filter with
  | nil => exact haccepts.reset_keeps hkeeps
  | cons result rest ih =>
      have hafter := haccepts.turn_keeps result.2 hkeeps
      rw [sessionFrom]
      rcases hturn : turn result.2 filter with ⟨_ | _ | _, after⟩ <;> rw [hturn] at hafter
      · exact haccepts.reset_keeps hafter
      · exact ih hafter
      · exact ih (haccepts.reset_keeps hafter)

/-- No call returns a result exactly when none that is left is within the range. -/
theorem Accepts.calls_none_iff (haccepts : Accepts turn reset within keeps) {filter : F}
    (hkeeps : keeps filter) (stream : List (UInt64 × D)) :
    (∀ count, ∀ call ∈ (callsFrom turn reset count filter stream).1, call = none) ↔
      ∀ result ∈ stream, within result.2 = false := by
  constructor
  · intro hnone result hresult
    -- as many calls as there are results left go through all of them
    obtain ⟨examined, hsplit, hemitted, hall⟩ :=
      haccepts.callsFrom_eq stream.length hkeeps stream
    rw [hall le_rfl, List.append_nil] at hsplit
    have hempty : examined.filter (fun result => within result.2) = [] := by
      rw [← hemitted, List.eq_nil_iff_forall_not_mem]
      intro result hresult
      cases hnone _ _ (List.reduceOption_mem_iff.mp hresult)
    rw [hsplit] at hresult
    simpa using List.filter_eq_nil_iff.mp hempty result hresult
  · intro hbeyond count call hcall
    obtain ⟨examined, hsplit, hemitted, -⟩ := haccepts.callsFrom_eq count hkeeps stream
    cases call with
    | none => rfl
    | some result =>
        have hmem := List.reduceOption_mem_iff.mpr hcall
        rw [hemitted, List.mem_filter] at hmem
        have hin := hbeyond result (hsplit ▸ List.mem_append_left _ hmem.1)
        rw [hmem.2] at hin
        cases hin

/-- After rows and a false, the calls are final when they all return false. -/
theorem pairwise_ended_iff {α : Type} (rows : List α) (later : List (Option α)) :
    ((rows.map some ++ none :: later).Pairwise fun earlier later =>
        earlier = none → later = none) ↔ ∀ call ∈ later, call = none := by
  rw [List.pairwise_append, List.pairwise_cons]
  constructor
  · rintro ⟨-, ⟨hended, -⟩, -⟩ call hcall
    exact hended call hcall rfl
  · intro hnone
    refine ⟨?_, ⟨fun call hcall _ => hnone call hcall, ?_⟩, ?_⟩
    · exact List.pairwise_map.mpr (List.pairwise_of_forall nofun)
    · exact List.pairwise_of_forall_mem_list fun _ _ call hcall _ => hnone call hcall
    · intro earlier hearlier call _ hended
      obtain ⟨row, -, rfl⟩ := List.mem_map.mp hearlier
      cases hended

/-- The end is final exactly when nothing within the range is left after it. -/
theorem Accepts.calls_final_iff (haccepts : Accepts turn reset within keeps) {filter : F}
    (hkeeps : keeps filter) (stream : List (UInt64 × D)) :
    (∀ count, (callsFrom turn reset count filter stream).1.Pairwise
        fun earlier later => earlier = none → later = none) ↔
      ∀ result ∈ (sessionFrom turn reset filter stream).2.2, within result.2 = false := by
  have hcalls (more : Nat) :
      let session := sessionFrom turn reset filter stream
      (callsFrom turn reset (session.1.length + 1 + more) filter stream).1 =
        session.1.map some ++ none :: (callsFrom turn reset more session.2.1 session.2.2).1 :=
    callsFrom_session filter stream more
  have hlast := haccepts.session_keeps hkeeps stream
  rw [← haccepts.calls_none_iff hlast]
  constructor
  · intro hfinal count
    have hpairwise := hfinal ((sessionFrom turn reset filter stream).1.length + 1 + count)
    rw [hcalls count] at hpairwise
    exact (pairwise_ended_iff _ _).mp hpairwise
  · intro hnone count
    rw [callsFrom_take count ((sessionFrom turn reset filter stream).1.length + 1), Nat.add_comm]
    refine List.Pairwise.sublist (List.take_sublist _ _) ?_
    rw [hcalls count]
    exact (pairwise_ended_iff _ _).mpr (hnone count)

/-- A scan that reports every result ends with its iterator. -/
theorem sessionFrom_emit (hemit : ∀ dist filter, (turn dist filter).1 = Turn.emit) (filter : F)
    (stream : List (UInt64 × D)) : (sessionFrom turn reset filter stream).2.2 = [] := by
  induction stream generalizing filter with
  | nil => rfl
  | cons result rest ih =>
      have hkind := hemit result.2 filter
      rw [sessionFrom]
      rcases hturn : turn result.2 filter with ⟨kind, after⟩
      rw [hturn] at hkind
      obtain rfl : kind = Turn.emit := hkind
      exact ih (reset after)

end Calls

/-! ## Scans -/

section Scans

variable {S α D F : Type} {gettuple : S → Except Fault (Bool × S)} {observe : S → α}
variable {tuple : UInt64 × D → α} {turn : D → F → Turn × F} {reset : F → F}
variable {stands : F → List (UInt64 × D) → S → Prop}

theorem ReadsStream.final_iff (hreads : ReadsStream gettuple observe tuple turn reset stands)
    {filter : F} {stream : List (UInt64 × D)} {s : S} (hstands : stands filter stream s) :
    EndIsFinal gettuple observe s ↔
      ∀ count, (callsFrom turn reset count filter stream).1.Pairwise
        fun earlier later => earlier = none → later = none := by
  have hmap (calls : List (Option (UInt64 × D))) :
      ((calls.map (Option.map tuple)).Pairwise fun earlier later =>
          earlier = none → later = none) ↔
        calls.Pairwise fun earlier later => earlier = none → later = none := by
    simp only [List.pairwise_map, Option.map_eq_none_iff]
  constructor
  · intro hfinal count
    obtain ⟨last, hreturned, -⟩ := hreads.returned_eq count hstands
    exact (hmap _).mp (hfinal count _ last hreturned)
  · intro hfinal count list last hlist
    obtain ⟨last', hreturned, -⟩ := hreads.returned_eq count hstands
    rw [hreturned] at hlist
    obtain ⟨rfl, -⟩ := Prod.mk.inj (Except.ok.inj hlist)
    exact (hmap _).mpr (hfinal count)

theorem EndIsFinal.congr {s s' : S} (hcall : gettuple s = gettuple s') :
    EndIsFinal gettuple observe s ↔ EndIsFinal gettuple observe s' := by
  have hnil {s : S} {list : List (Option α)} {last : S}
      (hlist : returned gettuple observe 0 s = Except.ok (list, last)) : list = [] :=
    (Prod.mk.inj (Except.ok.inj hlist)).1.symm
  constructor <;>
  · intro hfinal count list last hlist
    cases count with
    | zero => simp [hnil hlist]
    | succ count =>
        refine hfinal (count + 1) list last ?_
        simpa only [returned_congr hcall] using hlist

/-- Without a usable key no call returns a tuple. -/
theorem EndIsFinal.of_none {motive : S → Prop}
    (hcall : ∀ s found after, motive s → gettuple s = Except.ok (found, after) →
      motive after ∧ found = false) {s : S} (hs : motive s) :
    EndIsFinal gettuple observe s := by
  intro count list last hlist
  have hnone : ∀ row, some row ∈ list → False :=
    returned_forall (fun s found after hs hget => by simpa using hcall s found after hs hget)
      count hs hlist
  refine List.pairwise_of_forall_mem_list fun _ _ later hlater _ => ?_
  cases later with
  | none => rfl
  | some row => exact (hnone row hlater).elim

/-- A scan that reports every result. -/
theorem ReadsStream.final_of_emit (hreads : ReadsStream gettuple observe tuple turn reset stands)
    (hemit : ∀ dist filter, (turn dist filter).1 = Turn.emit) {filter : F}
    {stream : List (UInt64 × D)} {s : S} (hstands : stands filter stream s) :
    EndIsFinal gettuple observe s := by
  have haccepts : Accepts turn reset (fun _ => true) fun _ => True :=
    ⟨fun dist filter _ => iff_of_true (hemit dist filter) rfl, fun _ _ _ => trivial,
      fun _ => trivial⟩
  rw [hreads.final_iff hstands, haccepts.calls_final_iff trivial, sessionFrom_emit hemit]
  simp

/-- A range scan. -/
theorem ReadsStream.final_iff_range [LinearOrder D]
    (hreads : ReadsStream gettuple observe tuple turn reset stands) {radius : D}
    {stall : List D → D → Bool} {run : Nat} {waiting : List D → F → Prop}
    {counting : Nat → F → Prop}
    (hfilter : RangeFilter turn reset radius stall run waiting counting) {filter : F}
    (hwaiting : waiting [] filter) {stream : List (UInt64 × D)} {s : S}
    (hstands : stands filter stream s) :
    EndIsFinal gettuple observe s ↔
      ∀ result ∈ (rangeSession radius stall run [] stream).2, radius < result.2 := by
  have hsession := hfilter.session_waiting [] (by simp) hwaiting stream
  rw [hreads.final_iff hstands, hfilter.accepts.calls_final_iff (Or.inl ⟨[], hwaiting, by simp⟩),
    ← hsession]
  simp [VBase.AccessMethod.within]

/-- Which calls are final depends on what the keys ask for. -/
theorem EndIsFinal.iff_of_ask {s : S} {asked : Option (Except Fault (Query D))} [LinearOrder D]
    {left : D → List (UInt64 × D)} (hmissing : asked = none → EndIsFinal gettuple observe s)
    (hfault : ∀ fault, asked = some (Except.error fault) → EndIsFinal gettuple observe s)
    (horder : ∀ target, asked = some (Except.ok (Query.order target)) →
      EndIsFinal gettuple observe s)
    (hrange : ∀ radius target, asked = some (Except.ok (Query.range radius target)) →
      (EndIsFinal gettuple observe s ↔ ∀ result ∈ left radius, radius < result.2)) :
    EndIsFinal gettuple observe s ↔
      ∀ radius target, asked = some (Except.ok (Query.range radius target)) →
        ∀ result ∈ left radius, radius < result.2 := by
  rcases asked with _ | (fault | (target | ⟨radius, target⟩))
  · exact iff_of_true (hmissing rfl) (by simp)
  · exact iff_of_true (hfault fault rfl) (by simp)
  · exact iff_of_true (horder target rfl) (by simp)
  · rw [hrange radius target rfl]
    constructor
    · intro hleft radius' target' hasked
      obtain ⟨rfl, rfl⟩ : radius = radius' ∧ target = target' := by simpa using hasked
      exact hleft
    · exact fun hleft => hleft radius target rfl

end Scans

/-! ## The two access methods -/

variable {Q : {T K : Type} → [LinearOrder K] → (T → K) → Type} [PriorityQueue Q]
variable {D I W : Type} [LinearOrder D]

theorem hnsw_final_iff {lib : IteratorLibrary D I W} (width : Nat) {s : HNSWScan Q D I W}
    (hfirst : s.scanState.first = true) {stream : List (UInt64 × D)}
    (hstream : ∀ query, s.scan.toScanKeys.ask = some (Except.ok query) →
      lib.Streams (lib.create query.target s.world).1 (lib.create query.target s.world).2 stream) :
    EndIsFinal (hnswGettuple lib width) HNSWScan.tuple s ↔
      ∀ radius target, s.scan.toScanKeys.ask = some (Except.ok (Query.range radius target)) →
        ∀ result ∈ (hnswSession radius stream).2, radius < result.2 := by
  refine EndIsFinal.iff_of_ask ?_ ?_ ?_ ?_
  · intro hask
    refine EndIsFinal.of_none (motive := fun s => s.scanState.first = true ∧
      s.scan.toScanKeys.ask = none) ?_ ⟨hfirst, hask⟩
    rintro s found after ⟨hfirst, hask⟩ hget
    rw [hnswGettuple_bare lib hfirst hask] at hget
    obtain ⟨rfl, rfl⟩ := Prod.mk.inj (Except.ok.inj hget)
    exact ⟨⟨hfirst, hask⟩, rfl⟩
  · intro fault hask
    refine EndIsFinal.of_none (motive := fun s => s.scanState.first = true ∧
      s.scan.toScanKeys.ask = some (Except.error fault)) ?_ ⟨hfirst, hask⟩
    rintro s found after ⟨hfirst, hask⟩ hget
    rw [hnswGettuple_fault lib hfirst hask] at hget
    cases hget
  · intro target hask
    have hstands : HNSWScan.Stands lib false (Range.width width)
        ⟨false, s.scanState.inRange, PriorityQueue.empty, 0⟩ stream
        (s.started lib width (Query.order target)) :=
      ⟨rfl, rfl, rfl, _, _, rfl, rfl, rfl, hstream _ hask⟩
    rw [EndIsFinal.congr (hnswGettuple_started lib width hfirst hask)]
    exact (hnsw_readsStream lib width false _).final_of_emit
      (fun dist filter => orderTurn_emit _ dist filter) hstands
  · intro radius target hask
    rw [EndIsFinal.congr (hnswGettuple_started lib width hfirst hask)]
    exact (hnsw_readsStream lib width true _).final_iff_range (rangeTurn_filter radius)
      HNSWFilter.waiting_start (s.started_stands width radius (hstream _ hask))

theorem sptag_final_iff {lib : IteratorLibrary D I W} {s : SPTAGScan D I W}
    (hfirst : s.scanState.first = true) {stream : List (UInt64 × D)}
    (hstream : ∀ query, s.scan.toScanKeys.ask = some (Except.ok query) →
      lib.Streams (lib.create query.target s.world).1 (lib.create query.target s.world).2 stream) :
    EndIsFinal (sptagGettuple lib) SPTAGScan.tuple s ↔
      ∀ radius target, s.scan.toScanKeys.ask = some (Except.ok (Query.range radius target)) →
        ∀ result ∈ (sptagSession radius stream).2, radius < result.2 := by
  refine EndIsFinal.iff_of_ask ?_ ?_ ?_ ?_
  · intro hask
    refine EndIsFinal.of_none (motive := fun s => s.scanState.first = true ∧
      s.scan.toScanKeys.ask = none) ?_ ⟨hfirst, hask⟩
    rintro s found after ⟨hfirst, hask⟩ hget
    rw [sptagGettuple_first lib hfirst, hask] at hget
    obtain ⟨rfl, rfl⟩ := Prod.mk.inj (Except.ok.inj hget)
    exact ⟨⟨hfirst, hask⟩, rfl⟩
  · intro fault hask
    refine EndIsFinal.of_none (motive := fun s => s.scanState.first = true ∧
      s.scan.toScanKeys.ask = some (Except.error fault)) ?_ ⟨hfirst, hask⟩
    rintro s found after ⟨hfirst, hask⟩ hget
    rw [sptagGettuple_first lib hfirst, hask] at hget
    cases hget
  · intro target hask
    have hstands : SPTAGScan.Stands lib false s.scanState.range (s.scanState.inRange, 0) stream
        (s.started lib (Query.order target)) :=
      ⟨rfl, rfl, rfl, rfl, _, rfl, hstream _ hask⟩
    rw [EndIsFinal.congr (sptagGettuple_started lib hfirst hask)]
    exact (sptag_readsStream lib false _).final_of_emit (fun _ _ => rfl) hstands
  · intro radius target hask
    rw [EndIsFinal.congr (sptagGettuple_started lib hfirst hask)]
    exact (sptag_readsStream lib true _).final_iff_range (sptagTurn_filter radius) rfl
      (s.started_stands radius (hstream _ hask))

/-- The end of a scan is final for ORDER BY keys and without a usable key. For a range key it is
final exactly when the results that are left at the first false are all beyond the radius. -/
theorem endIsFinal_iff (lib : IteratorLibrary D I W) (width : Nat) (stream : List (UInt64 × D))
    (keys : ScanKeys D) (world : W)
    (hstream : ∀ query, keys.ask = some (Except.ok query) →
      lib.Streams (lib.create query.target world).1 (lib.create query.target world).2 stream) :
    (∀ s : HNSWScan Q D I W, s.scanState.first = true → s.world = world →
      s.scan.toScanKeys = keys →
      (EndIsFinal (hnswGettuple lib width) HNSWScan.tuple s ↔
        ∀ radius target, keys.ask = some (Except.ok (Query.range radius target)) →
          ∀ result ∈ (hnswSession radius stream).2, radius < result.2)) ∧
    ∀ s : SPTAGScan D I W, s.scanState.first = true → s.world = world →
      s.scan.toScanKeys = keys →
      (EndIsFinal (sptagGettuple lib) SPTAGScan.tuple s ↔
        ∀ radius target, keys.ask = some (Except.ok (Query.range radius target)) →
          ∀ result ∈ (sptagSession radius stream).2, radius < result.2) := by
  constructor
  · rintro s hfirst rfl rfl
    exact hnsw_final_iff width hfirst hstream
  · rintro s hfirst rfl rfl
    exact sptag_final_iff hfirst hstream

/-- Six results beyond the radius at the end of the stream. -/
theorem endIsFinal_six_beyond :
    let stream : List (UInt64 × Int) := [(1, 1), (2, 9), (3, 9), (4, 9), (5, 9), (6, 9), (7, 9)]
    let lib := resultList fun _ => stream
    let scan : IndexScanDesc Int :=
      ⟨⟨1, 0, some ⟨false, [3, 0]⟩, none⟩, ⟨0, 0⟩, false, false, none, false⟩
    (∀ query, scan.toScanKeys.ask = some (Except.ok query) →
        lib.Streams (lib.create query.target ()).1 (lib.create query.target ()).2 stream) ∧
      EndIsFinal (hnswGettuple (Q := @SortedQueue) lib distanceQueueWidth) HNSWScan.tuple
        ⟨scan, ⟨true, false, false, Range.width 0, none⟩, ()⟩ ∧
      EndIsFinal (sptagGettuple lib) SPTAGScan.tuple
        ⟨scan, ⟨true, false, false, Range.width 0, none, none⟩, ()⟩ := by
  intro stream lib scan
  have hstream : ∀ query, scan.toScanKeys.ask = some (Except.ok query) →
      lib.Streams (lib.create query.target ()).1 (lib.create query.target ()).2 stream :=
    fun query _ => resultList_streams (fun _ => stream) stream ()
  obtain ⟨hhnsw, hsptag⟩ := endIsFinal_iff (Q := @SortedQueue) lib distanceQueueWidth stream
    scan.toScanKeys () hstream
  have hradius {radius : Int} {target : List Int}
      (hask : scan.toScanKeys.ask = some (Except.ok (Query.range radius target))) : radius = 3 := by
    injection hask with hask
    injection hask with hask
    injection hask with hradius
    exact hradius.symm
  refine ⟨hstream, (hhnsw _ rfl rfl rfl).mpr ?_, (hsptag _ rfl rfl rfl).mpr ?_⟩
  · intro radius target hask
    rw [hradius hask]
    decide
  · intro radius target hask
    rw [hradius hask]
    decide

/-- After five results beyond the radius both access methods return false, and then the result
that comes after them. -/
theorem gettuple_after_end :
    let stream : List (UInt64 × Int) := [(1, 1), (2, 9), (3, 9), (4, 9), (5, 9), (6, 9), (7, 2)]
    let lib := resultList fun _ => stream
    let scan : IndexScanDesc Int :=
      ⟨⟨1, 0, some ⟨false, [3, 0]⟩, none⟩, ⟨0, 0⟩, false, false, none, false⟩
    let s : HNSWScan @SortedQueue Int _ _ :=
      ⟨scan, ⟨true, false, false, Range.width 0, none⟩, ()⟩
    let s' : SPTAGScan Int _ _ := ⟨scan, ⟨true, false, false, Range.width 0, none, none⟩, ()⟩
    (∃ last, returned (hnswGettuple lib distanceQueueWidth) HNSWScan.tuple 3 s =
        Except.ok ([some (⟨0, 1⟩, some 1), none, some (⟨0, 7⟩, some 2)], last)) ∧
      (∃ last, returned (sptagGettuple lib) SPTAGScan.tuple 3 s' =
        Except.ok ([some (⟨0, 1⟩, some 1), none, some (⟨0, 7⟩, some 2)], last)) ∧
      ¬ EndIsFinal (hnswGettuple lib distanceQueueWidth) HNSWScan.tuple s ∧
      ¬ EndIsFinal (sptagGettuple lib) SPTAGScan.tuple s' := by
  intro stream lib scan s s'
  have hhnsw : ∃ last, returned (hnswGettuple lib distanceQueueWidth) HNSWScan.tuple 3 s =
      Except.ok ([some (⟨0, 1⟩, some 1), none, some (⟨0, 7⟩, some 2)], last) := ⟨_, rfl⟩
  have hsptag : ∃ last, returned (sptagGettuple lib) SPTAGScan.tuple 3 s' =
      Except.ok ([some (⟨0, 1⟩, some 1), none, some (⟨0, 7⟩, some 2)], last) := ⟨_, rfl⟩
  have hnot : ¬ [some ((⟨0, 1⟩, some 1) : ItemPointer × Option Int), none,
      some (⟨0, 7⟩, some 2)].Pairwise fun earlier later => earlier = none → later = none := by
    simp
  refine ⟨hhnsw, hsptag, ?_, ?_⟩
  · intro hfinal
    obtain ⟨last, hreturned⟩ := hhnsw
    exact hnot (hfinal 3 _ last hreturned)
  · intro hfinal
    obtain ⟨last, hreturned⟩ := hsptag
    exact hnot (hfinal 3 _ last hreturned)

end VBase.AccessMethod
