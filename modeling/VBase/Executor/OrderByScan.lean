import VBase.AccessMethod.OrderScan
import VBase.Executor.IndexScan

/-! # Index scans over hnsw

The hnsw access method as the IndexScan node drives it. For an ORDER BY query the
node returns the rows of the results that the search iterator delivers, one by
one, and leaves in the execution state the flag that the distances determine.
-/

namespace VBase.Executor

open AccessMethod PriorityQueue

variable {Q : {T K : Type} → [LinearOrder K] → (T → K) → Type} [PriorityQueue Q]
variable {D I W : Type} [LinearOrder D]

/-- What memory holds where a scan is allocated: its descriptor, its key arrays and its
private state. -/
structure ScanMemory (Q : {T K : Type} → [LinearOrder K] → (T → K) → Type) (D I : Type)
    [LinearOrder D] where
  uninit : IndexScanDesc D
  junk : ScanKey D × ScanKey D
  state : HNSWScanOpaque Q D I

section Remaining

variable (lib : IteratorLibrary D I W)

/-- What the iterator of a scan may still return. -/
def iteratorRemaining (s : HNSWScan Q D I W) : Nat :=
  match s.scanState.workSpace with
  | none => 0
  | some workSpace => (workSpace.resultIterator.map fun iter => lib.remaining iter s.world).getD 0

/-- What a scan may still return. The first call opens the iterator. -/
def scanRemaining (width : Nat) (s : HNSWScan Q D I W) : Nat :=
  if s.scanState.first then
    match s.scan.toScanKeys.ask with
    | some (Except.ok query) => iteratorRemaining lib (s.started lib width query)
    | _ => 0
  else iteratorRemaining lib s

variable {lib}

omit [LinearOrder D] in
/-- A loop that reports a result has taken it from the iterator. -/
theorem fetching_remaining {F : Type} {turn : D → F → Turn × F} {iter : I} {world : W} {filter : F}
    {result : UInt64 × D}
    (hresult : (Fetching.run lib turn iter world filter).outcome = some (some result)) :
    lib.remaining (Fetching.run lib turn iter world filter).iter
        (Fetching.run lib turn iter world filter).world < lib.remaining iter world := by
  have hfinal := Loop.run_invariant (Fetching.step_decreases lib turn)
    (motive := fun state : Fetching D I W F =>
      (state.outcome = none → lib.remaining state.iter state.world ≤ lib.remaining iter world) ∧
        ∀ result, state.outcome = some (some result) →
          lib.remaining state.iter state.world < lib.remaining iter world)
    (by
      intro state next hinv hstep
      unfold Fetching.step at hstep
      split at hstep
      · simp at hstep
      next hrunning =>
        have hle := hinv.1 (by simpa using hrunning)
        split at hstep
        · obtain rfl := Option.some.inj hstep
          simp
        next label dist after world' hnext =>
          have hlt := lib.next_remaining state.iter state.world (label, dist) (by rw [hnext])
          rw [hnext] at hlt
          split at hstep <;> obtain rfl := Option.some.inj hstep
          · simp
          · exact ⟨fun _ => (hlt.trans_le hle).le, by simp⟩
          · exact ⟨by simp, fun _ _ => hlt.trans_le hle⟩)
    ⟨iter, world, filter, none⟩ ⟨fun _ => le_rfl, by simp⟩
  exact hfinal.2 result hresult

theorem hnswFetch_remaining {s s' : HNSWScan Q D I W}
    (hfetch : hnswFetch lib s = Except.ok (true, s')) :
    iteratorRemaining lib s' < iteratorRemaining lib s ∧
      s'.scanState.first = s.scanState.first := by
  unfold hnswFetch at hfetch
  split at hfetch
  · simp at hfetch
  next workSpace hworkSpace =>
    split at hfetch
    · simp at hfetch
    next iter hiter =>
      simp only [Except.ok.injEq, Prod.mk.injEq] at hfetch
      obtain ⟨hfound, rfl⟩ := hfetch
      obtain ⟨result, hresult⟩ := Option.isSome_iff_exists.mp hfound
      refine ⟨?_, rfl⟩
      have hlt := fetching_remaining (Option.join_eq_some_iff.mp hresult)
      simpa [iteratorRemaining, HNSWScan.store, hworkSpace, hiter] using hlt

theorem hnswGettuple_remaining {width : Nat} {s s' : HNSWScan Q D I W}
    (hget : hnswGettuple lib width s = Except.ok (true, s')) :
    scanRemaining lib width s' < scanRemaining lib width s := by
  cases hfirst : s.scanState.first with
  | false =>
      rw [hnswGettuple_later lib hfirst] at hget
      obtain ⟨hlt, hlater⟩ := hnswFetch_remaining hget
      simpa [scanRemaining, hlater, hfirst] using hlt
  | true =>
      cases hask : s.scan.toScanKeys.ask with
      | none =>
          rw [hnswGettuple_bare lib hfirst hask] at hget
          simp at hget
      | some asked =>
          cases asked with
          | error fault =>
              rw [hnswGettuple_fault lib hfirst hask] at hget
              simp at hget
          | ok query =>
              rw [hnswGettuple_first lib hfirst hask] at hget
              obtain ⟨hlt, hlater⟩ := hnswFetch_remaining hget
              have hstarted : (s.started lib width query).scanState.first = false := by
                cases query <;> rfl
              simpa [scanRemaining, hlater, hstarted, hfirst, hask] using hlt

end Remaining

/-- The hnsw access method, for a scan with the ORDER BY key `target`. -/
def hnswAm (lib : IteratorLibrary D I W) (width : Nat) (memory : ScanMemory Q D I) (world : W)
    (target : List D) : IndexAm D (HNSWScan Q D I W) where
  beginscan := (hnswRescan lib (hnswBeginScan memory.uninit memory.junk memory.state 0 1 world)
    none (some ⟨false, target⟩)).mapError Failure.fault
  gettuple := fun s => (hnswGettuple lib width s).mapError Failure.fault
  desc := HNSWScan.scan
  remaining := scanRemaining lib width
  gettuple_remaining := by
    intro s s' hget
    cases hresult : hnswGettuple lib width s with
    | error fault => simp [hresult, Except.mapError] at hget
    | ok result =>
        simp only [hresult, Except.mapError, Except.ok.injEq] at hget
        exact hnswGettuple_remaining (hget ▸ hresult)

/-- The entries that an ORDER BY scan reports for the results of its iterator: the tuple
identifier of each, and the flag after it. -/
def entries (width : Nat) : List D → List (UInt64 × D) → List (ItemPointer × Bool)
  | _, [] => []
  | seen, (label, dist) :: rest =>
      (ItemPointer.ofLabel label, raised width (seen ++ [dist])) ::
        entries width (seen ++ [dist]) rest

theorem entries_map_fst (width : Nat) (seen : List D) (results : List (UInt64 × D)) :
    (entries width seen results).map Prod.fst =
      results.map fun result => ItemPointer.ofLabel result.1 := by
  induction results generalizing seen with
  | nil => rfl
  | cons result rest ih => rw [entries, List.map_cons, List.map_cons, ih]

theorem entries_getElem? (width : Nat) (seen : List D) (results : List (UInt64 × D))
    (index : Nat) :
    ((entries width seen results)[index]?).map Prod.snd =
      (results[index]?).map fun _ =>
        raised width (seen ++ (results.map Prod.snd).take (index + 1)) := by
  induction results generalizing seen index with
  | nil => rfl
  | cons result rest ih =>
      cases index with
      | zero => simp [entries]
      | succ index => simpa [entries] using ih (seen ++ [result.2]) index

section Trace

variable {lib : IteratorLibrary D I W} {width : Nat} {memory : ScanMemory Q D I} {world : W}
  {target : List D}

theorem getnextTid_later {s s' : HNSWScan Q D I W} (hlater : s.scanState.first = false)
    {found : Bool} (hfetch : hnswFetch lib s = Except.ok (found, s')) :
    (hnswAm lib width memory world target).getnextTid.pull s =
      Except.ok (if found then some s'.scan else none, s') := by
  simp only [IndexAm.getnextTid, hnswAm, hnswGettuple_later lib hlater, hfetch, Except.mapError]

/-- The first call is like a later call on the scan it opens. -/
theorem getnextTid_first {s : HNSWScan Q D I W} {query : Query D}
    (hfirst : s.scanState.first = true)
    (hask : s.scan.toScanKeys.ask = some (Except.ok query)) :
    (hnswAm lib width memory world target).getnextTid.pull s =
      (hnswAm lib width memory world target).getnextTid.pull (s.started lib width query) := by
  simp only [IndexAm.getnextTid, hnswAm]
  rw [hnswGettuple_started lib width hfirst hask]

variable (memory world target) in
/-- The calls after the first report what is left of the iterator's results. -/
theorem orderScan_yields (hwidth : 0 < width) {state : I × W}
    {items : List ((UInt64 × D) × I × W)} (hitems : lib.source.Yields state items)
    {seen : List D} {s : HNSWScan Q D I W} (hscan : OrderScan width seen state.1 s)
    (hworld : s.world = state.2) :
    ∃ descs, (hnswAm lib width memory world target).getnextTid.Yields s descs ∧
      descs.map (fun desc => (desc.1.xsHeaptid, desc.1.xsInorder)) =
        entries width seen (items.map Prod.fst) ∧
      ∀ desc ∈ descs, desc.1.xsRecheckorderby = false := by
  induction hitems generalizing seen s with
  | @done state next hpull =>
      have hnext : lib.next state.1 s.world = (none, next) := hworld ▸ Except.ok.inj hpull
      obtain ⟨s', hfetch, -⟩ := hscan.fetch_none hwidth hnext
      exact ⟨[], Source.Yields.done (getnextTid_later hscan.later hfetch), rfl, by simp⟩
  | @item state next result rest hpull _ ih =>
      have hnext : lib.next state.1 s.world = (some result, next) := hworld ▸ Except.ok.inj hpull
      obtain ⟨s', hfetch, hscan', hworld', htid, -, hexact⟩ := hscan.fetch_some hwidth hnext
      obtain ⟨descs, hdescs, hmap, hrecheck⟩ := ih hscan' hworld'
      refine ⟨_, Source.Yields.item (getnextTid_later hscan.later hfetch) hdescs, ?_, ?_⟩
      · rw [List.map_cons, List.map_cons, hmap, htid, hscan'.flag_eq]
        rfl
      · intro desc hdesc
        rcases List.mem_cons.mp hdesc with rfl | hmem
        · exact hexact
        · exact hrecheck desc hmem

variable (lib width memory world target) in
/-- `index_beginscan` and `index_rescan` leave a scan that waits for its first call. -/
theorem hnswAm_beginscan :
    ∃ s, (hnswAm lib width memory world target).beginscan = Except.ok s ∧
      s.scanState.first = true ∧
      s.scan.toScanKeys.ask = some (Except.ok (Query.order target)) ∧ s.world = world :=
  ⟨_, rfl, rfl, rfl, rfl⟩

variable (memory) in
/-- An index scan over hnsw returns the rows of the iterator's results, each with its flag. -/
theorem orderByScan_yields {α : Type} (hwidth : 0 < width) {items : List ((UInt64 × D) × I × W)}
    (hitems : lib.source.Yields (lib.create target world) items)
    {fetchTuple : ItemPointer → Option α} {indexqualorig : α → Bool}
    (hvisible : ∀ item ∈ items, ∃ row, fetchTuple (ItemPointer.ofLabel item.1.1) = some row ∧
      indexqualorig row = true) (indexorderbyorig : α → Option D) (estate : EState) :
    ∃ rows, (IndexScan.node Q ⟨hnswAm lib width memory world target, fetchTuple, indexqualorig,
        indexorderbyorig⟩ 1).Yields (IndexScanState.init, estate) rows ∧
      rows.map (fun row => (some row.1, inorderAfter row)) =
        (entries width [] (items.map Prod.fst)).map fun entry =>
          (fetchTuple entry.1, entry.2) := by
  obtain ⟨s, hbegin, hfirst, hask, hworld⟩ := hnswAm_beginscan lib width memory world target
  obtain ⟨hscan, hstart⟩ := started_orderScan lib width s target
  rw [hworld] at hscan hstart
  obtain ⟨descs, hdescs, hmap, hrecheck⟩ :=
    orderScan_yields memory world target hwidth hitems hscan hstart
  let plan : IndexScan D (HNSWScan Q D I W) α :=
    ⟨hnswAm lib width memory world target, fetchTuple, indexqualorig, indexorderbyorig⟩
  have hexact : ∀ desc ∈ descs, plan.Exact desc.1 := by
    intro desc hdesc
    refine ⟨?_, hrecheck desc hdesc⟩
    have htid : (desc.1.xsHeaptid, desc.1.xsInorder) ∈ entries width [] (items.map Prod.fst) :=
      hmap ▸ List.mem_map_of_mem hdesc
    have hlabel := List.mem_map_of_mem (f := Prod.fst) htid
    rw [entries_map_fst, List.map_map] at hlabel
    obtain ⟨item, hitem, heq⟩ := List.mem_map.mp hlabel
    obtain ⟨row, hrow, hqual⟩ := hvisible item hitem
    exact ⟨row, by rw [← hrow]; exact congrArg fetchTuple heq.symm, fun _ => hqual⟩
  have hopened : plan.am.beginscan = Except.ok s := hbegin
  obtain ⟨rows, hrows, hrowmap⟩ := IndexScan.init_yields Q hopened
    (hdescs.congr (getnextTid_first hfirst hask).symm) hexact Nat.one_pos estate
  refine ⟨rows, hrows, ?_⟩
  rw [hrowmap, ← hmap, List.map_map]
  rfl

end Trace

end VBase.Executor
