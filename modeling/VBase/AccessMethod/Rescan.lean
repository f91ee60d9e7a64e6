import VBase.AccessMethod.HnswScan
import VBase.AccessMethod.HnswLibrary

/-! # A rescan is as good as a new scan

The first `gettuple` after a rescan sets every variable that the scan reads, so
what a session returns depends on its query alone. The argument uses of the
library that iterators opened for one query return the same, wherever they are
opened; over `hnswlib` that is the independence of iterators from the pool.
-/

namespace VBase.AccessMethod

open PriorityQueue

variable {Q : {T K : Type} → [LinearOrder K] → (T → K) → Type} [PriorityQueue Q]
variable {D I W : Type} [LinearOrder D] {lib : IteratorLibrary D I W}

/-- A library whose iterators return the same whenever they are opened for the same query.
`quiet` is a state with no iterator of this user, `busy` one with the given iterator. -/
structure IteratorLibrary.Renews (lib : IteratorLibrary D I W) (quiet : W → Prop)
    (busy : I → W → Prop) (alike : I → W → I → W → Prop) : Prop where
  create_busy : ∀ target {world}, quiet world →
    busy (lib.create target world).1 (lib.create target world).2
  next_busy : ∀ {iter world}, busy iter world →
    busy (lib.next iter world).2.1 (lib.next iter world).2.2
  close_quiet : ∀ {iter world}, busy iter world → quiet (lib.close iter world)
  create_alike : ∀ target {world world'}, quiet world → quiet world' →
    alike (lib.create target world).1 (lib.create target world).2
      (lib.create target world').1 (lib.create target world').2
  next_alike : ∀ {iter world iter' world'}, alike iter world iter' world' →
    (lib.next iter world).1 = (lib.next iter' world').1 ∧
      alike (lib.next iter world).2.1 (lib.next iter world).2.2
        (lib.next iter' world').2.1 (lib.next iter' world').2.2

/-! ## The loop of `gettuple` -/

namespace Fetching

variable {F : Type} {turn : D → F → Turn × F}

omit [LinearOrder D] in
/-- Loops over alike iterators with alike filters return the same. -/
theorem run_alike {alike : I → W → I → W → Prop} {same : F → F → Prop}
    (hnext : ∀ {iter world iter' world'}, alike iter world iter' world' →
      (lib.next iter world).1 = (lib.next iter' world').1 ∧
        alike (lib.next iter world).2.1 (lib.next iter world).2.2
          (lib.next iter' world').2.1 (lib.next iter' world').2.2)
    (hturn : ∀ dist {filter filter'}, same filter filter' →
      (turn dist filter).1 = (turn dist filter').1 ∧
        same (turn dist filter).2 (turn dist filter').2)
    {iter iter' : I} {world world' : W} {filter filter' : F}
    (halike : alike iter world iter' world') (hsame : same filter filter') :
    (run lib turn iter world filter).outcome = (run lib turn iter' world' filter').outcome ∧
      same (run lib turn iter world filter).filter (run lib turn iter' world' filter').filter ∧
      alike (run lib turn iter world filter).iter (run lib turn iter world filter).world
        (run lib turn iter' world' filter').iter (run lib turn iter' world' filter').world := by
  refine Loop.run_rel (motive := fun state other : Fetching D I W F =>
    state.outcome = other.outcome ∧ same state.filter other.filter ∧
      alike state.iter state.world other.iter other.world)
    (step_decreases lib turn) (step_decreases lib turn) ?_ _ _ ⟨rfl, hsame, halike⟩
  rintro ⟨iter, world, filter, outcome⟩ ⟨iter', world', filter', _⟩ ⟨rfl, hsame, halike⟩
  obtain ⟨hresult, hafter⟩ := hnext halike
  unfold step
  split
  · exact Option.Rel.none
  simp only
  generalize lib.next iter world = left at hresult hafter ⊢
  generalize lib.next iter' world' = right at hresult hafter ⊢
  obtain ⟨result, iter, world⟩ := left
  obtain ⟨_, iter', world'⟩ := right
  obtain rfl : result = _ := hresult
  cases result with
  | none => exact Option.Rel.some ⟨rfl, hsame, hafter⟩
  | some result =>
      obtain ⟨label, dist⟩ := result
      obtain ⟨hkind, hfilter⟩ := hturn dist hsame
      simp only
      generalize turn dist filter = left at hkind hfilter ⊢
      generalize turn dist filter' = right at hkind hfilter ⊢
      obtain ⟨kind, filter⟩ := left
      obtain ⟨_, filter'⟩ := right
      obtain rfl : kind = _ := hkind
      cases kind with
      | stop => exact Option.Rel.some ⟨rfl, hfilter, hafter⟩
      | skip => exact Option.Rel.some ⟨rfl, hfilter, hafter⟩
      | emit => exact Option.Rel.some ⟨rfl, hfilter, hafter⟩

omit [LinearOrder D] in
/-- An iterator in use stays in use. -/
theorem run_busy {busy : I → W → Prop}
    (hnext : ∀ {iter world}, busy iter world →
      busy (lib.next iter world).2.1 (lib.next iter world).2.2)
    {iter : I} {world : W} (filter : F) (hbusy : busy iter world) :
    busy (run lib turn iter world filter).iter (run lib turn iter world filter).world := by
  refine Loop.run_invariant (step_decreases lib turn)
    (motive := fun state : Fetching D I W F => busy state.iter state.world) ?_ _ hbusy
  rintro ⟨iter, world, filter, outcome⟩ after hbusy hstep
  have hafter := hnext hbusy
  unfold step at hstep
  split at hstep
  · simp at hstep
  simp only at hstep
  split at hstep
  next heq =>
    obtain rfl := Option.some.inj hstep
    rwa [heq] at hafter
  next heq =>
    rw [heq] at hafter
    split at hstep <;>
    · obtain rfl := Option.some.inj hstep
      exact hafter

end Fetching

/-! ## One session -/

/-- What a caller of `gettuple` sees: whether there is a tuple, the tuple and its distance
if there is one, and the flag. -/
structure Observation (D : Type) where
  returned : Bool
  tuple : Option (ItemPointer × Option D)
  xsInorder : Bool

namespace HNSWScan

def observe (returned : Bool) (s : HNSWScan Q D I W) : Observation D :=
  ⟨returned, if returned then some (s.scan.xsHeaptid, s.scan.xsOrderbyval) else none,
    s.scan.xsInorder⟩

/-- Two scans in the middle of a session that will return the same. Outside a range scan
`inRange` is whatever an earlier session left there. -/
structure Alike (alike : I → W → I → W → Prop) (s other : HNSWScan Q D I W) : Prop where
  first : s.scanState.first = false ∧ other.scanState.first = false
  xsInorder : s.scan.xsInorder = other.scan.xsInorder
  hasRangeFilter : s.scanState.hasRangeFilter = other.scanState.hasRangeFilter
  range : s.scanState.range = other.scanState.range
  inRange : s.scanState.hasRangeFilter = true → s.scanState.inRange = other.scanState.inRange
  workSpace : ∃ iter iter' array queue, s.scanState.workSpace = some ⟨some iter, array, queue⟩ ∧
    other.scanState.workSpace = some ⟨some iter', array, queue⟩ ∧
    alike iter s.world iter' other.world

/-- The filter variables that matter, with or without a range filter. -/
def SameFilter (hasRangeFilter : Bool) (filter filter' : HNSWFilter Q D) : Prop :=
  filter.xsInorder = filter'.xsInorder ∧ filter.distanceQueue = filter'.distanceQueue ∧
    filter.i = filter'.i ∧ (hasRangeFilter = true → filter.inRange = filter'.inRange)

theorem hnswTurn_same {hasRangeFilter : Bool} (range : Range D) (dist : D)
    {filter filter' : HNSWFilter Q D} (hsame : SameFilter hasRangeFilter filter filter') :
    (hnswTurn hasRangeFilter range dist filter).1 =
        (hnswTurn hasRangeFilter range dist filter').1 ∧
      SameFilter hasRangeFilter (hnswTurn hasRangeFilter range dist filter).2
        (hnswTurn hasRangeFilter range dist filter').2 := by
  obtain ⟨xsInorder, inRange, queue, i⟩ := filter
  obtain ⟨_, inRange', _, _⟩ := filter'
  obtain ⟨rfl, rfl, rfl, hrange⟩ := hsame
  cases hasRangeFilter with
  | true =>
      obtain rfl : inRange = inRange' := hrange rfl
      exact ⟨rfl, rfl, rfl, rfl, fun _ => rfl⟩
  | false =>
      simp only [hnswTurn, orderTurn, Bool.false_eq_true, if_false]
      split
      · exact ⟨rfl, rfl, rfl, rfl, by simp⟩
      · split <;> exact ⟨rfl, rfl, rfl, rfl, by simp⟩

/-- A call on alike scans returns the same and leaves them alike. -/
theorem Alike.fetch {alike : I → W → I → W → Prop} {s other : HNSWScan Q D I W}
    (halike : s.Alike alike other)
    (hnext : ∀ {iter world iter' world'}, alike iter world iter' world' →
      (lib.next iter world).1 = (lib.next iter' world').1 ∧
        alike (lib.next iter world).2.1 (lib.next iter world).2.2
          (lib.next iter' world').2.1 (lib.next iter' world').2.2) :
    ∃ returned s' other', hnswFetch lib s = Except.ok (returned, s') ∧
      hnswFetch lib other = Except.ok (returned, other') ∧
      s'.observe returned = other'.observe returned ∧ s'.Alike alike other' := by
  obtain ⟨iter, iter', array, queue, hworkSpace, hworkSpace', hiter⟩ := halike.workSpace
  have hsame : SameFilter s.scanState.hasRangeFilter
      (s.filter ⟨some iter, array, queue⟩) (other.filter ⟨some iter', array, queue⟩) :=
    ⟨halike.xsInorder, rfl, rfl, halike.inRange⟩
  obtain ⟨houtcome, hfilter, hafter⟩ := Fetching.run_alike hnext
    (hnswTurn_same s.scanState.range) hiter hsame
  simp only [hnswFetch, hworkSpace, hworkSpace', ← halike.hasRangeFilter, ← halike.range]
  generalize Fetching.run lib (hnswTurn s.scanState.hasRangeFilter s.scanState.range) iter
    s.world (s.filter ⟨some iter, array, queue⟩) = ran at houtcome hfilter hafter ⊢
  generalize Fetching.run lib (hnswTurn s.scanState.hasRangeFilter s.scanState.range) iter'
    other.world (other.filter ⟨some iter', array, queue⟩) = ran' at houtcome hfilter hafter ⊢
  refine ⟨_, _, _, rfl, by rw [houtcome], ?_, ?_⟩
  · unfold observe store
    rw [houtcome]
    rcases ran'.outcome with _ | _ | result <;>
    simp [hfilter.1]
  · refine ⟨halike.first, ?_, halike.hasRangeFilter, halike.range, hfilter.2.2.2, ?_⟩
    · unfold store
      rw [houtcome]
      rcases ran'.outcome with _ | _ | result <;> exact hfilter.1
    · exact ⟨_, _, _, _, rfl, by rw [hfilter.2.1]; rfl, hafter⟩

variable (lib) (width : Nat)

/-- `count` calls of `hnsw_gettuple`. -/
def calls : Nat → HNSWScan Q D I W → Except Fault (List (Observation D) × HNSWScan Q D I W)
  | 0, s => Except.ok ([], s)
  | count + 1, s => do
      let (returned, after) ← hnswGettuple lib width s
      let (rest, final) ← calls count after
      return (after.observe returned :: rest, final)

end HNSWScan

/-- A rescan with its keys, and the number of calls that follow it. -/
structure ScanSession (D : Type) where
  keys : Option (ScanKey D)
  orderbys : Option (ScanKey D)
  calls : Nat

/-- What the session asks for, by the kind of the scan; `none` when its key is null or
absent. -/
def ScanSession.ask (nkeys norderbys : Nat) (session : ScanSession D) :
    Option (Except Fault (Query D)) :=
  if 0 < norderbys then session.orderbys.bind ScanKey.askOrder
  else if 0 < nkeys then session.keys.bind ScanKey.askRange
  else none

namespace HNSWScan

variable (lib) (width : Nat)

def session (s : HNSWScan Q D I W) (session : ScanSession D) :
    Except Fault (List (Observation D) × HNSWScan Q D I W) := do
  let s ← hnswRescan lib s session.keys session.orderbys
  calls lib width session.calls s

/-- One session after the other, for the scan they leave behind. -/
def sessions : List (ScanSession D) → HNSWScan Q D I W → Except Fault (HNSWScan Q D I W)
  | [], s => Except.ok s
  | spec :: rest, s => do
      let (_, s) ← session lib width s spec
      sessions rest s

end HNSWScan

/-! ## Keys -/

/-- A key array exists exactly if the scan was begun with keys of that kind. -/
structure ScanKeys.Allocated (scan : ScanKeys D) (nkeys norderbys : Nat) : Prop where
  numberOfKeys : scan.numberOfKeys = nkeys
  numberOfOrderBys : scan.numberOfOrderBys = norderbys
  keyData : scan.keyData.isSome ↔ 0 < nkeys
  orderByData : scan.orderByData.isSome ↔ 0 < norderbys

omit [LinearOrder D] in
theorem relationGetIndexScan_allocated (uninit : IndexScanDesc D)
    (junk : ScanKey D × ScanKey D) (nkeys norderbys : Nat) :
    (relationGetIndexScan uninit junk nkeys norderbys).Allocated nkeys norderbys := by
  refine ⟨rfl, rfl, ?_, ?_⟩
  · unfold relationGetIndexScan
    by_cases hkeys : 0 < nkeys <;> simp [hkeys]
  · unfold relationGetIndexScan
    by_cases horderbys : 0 < norderbys <;> simp [horderbys]

omit [LinearOrder D] in
theorem overwrite_isSome (count : Nat) (given : Option (ScanKey D))
    {stored : Option (ScanKey D)} (hstored : stored.isSome ↔ 0 < count) :
    (ScanKeys.overwrite count given stored).isSome ↔ 0 < count := by
  unfold ScanKeys.overwrite
  split
  next hpos => simp [hpos, hstored]
  next => exact hstored

omit [LinearOrder D] in
theorem ScanKeys.Allocated.set {scan : ScanKeys D} {nkeys norderbys : Nat}
    (hscan : scan.Allocated nkeys norderbys) (keys orderbys : Option (ScanKey D)) :
    (scan.set keys orderbys).Allocated nkeys norderbys := by
  obtain ⟨rfl, rfl, hkeyData, horderByData⟩ := hscan
  exact ⟨rfl, rfl, overwrite_isSome _ keys hkeyData, overwrite_isSome _ orderbys horderByData⟩

omit [LinearOrder D] in
/-- A session with a key of its own asks for what that key says. -/
theorem ScanKeys.Allocated.ask_set {scan : ScanKeys D} {nkeys norderbys : Nat}
    (hscan : scan.Allocated nkeys norderbys) {session : ScanSession D}
    {asked : Except Fault (Query D)} (hask : session.ask nkeys norderbys = some asked) :
    (scan.set session.keys session.orderbys).ask = some asked := by
  obtain ⟨rfl, rfl, hkeyData, horderByData⟩ := hscan
  unfold ScanSession.ask at hask
  unfold ScanKeys.ask ScanKeys.set ScanKeys.overwrite
  by_cases horderbys : 0 < scan.numberOfOrderBys
  · rw [if_pos horderbys] at hask
    obtain ⟨key, hkey, hask⟩ := Option.bind_eq_some_iff.mp hask
    simp only [if_pos horderbys, hkey, Option.some_or]
    exact hask
  · have hnone : scan.orderByData = none := by
      simpa using mt horderByData.mp horderbys
    rw [if_neg horderbys] at hask
    split at hask
    next hkeys =>
      obtain ⟨key, hkey, hask⟩ := Option.bind_eq_some_iff.mp hask
      simp only [if_neg horderbys, if_pos hkeys, hnone, hkey, Option.some_or, Option.bind_some]
      exact hask
    next => cases hask

/-! ## Sessions -/

namespace HNSWScan

/-- The scan has begun or was rescanned, and nothing has been fetched. -/
structure Idle (quiet : W → Prop) (s : HNSWScan Q D I W) : Prop where
  first : s.scanState.first = true
  workSpace : s.scanState.workSpace = none
  quiet : quiet s.world

/-- The scan holds an iterator that is in use. -/
structure Busy (busy : I → W → Prop) (s : HNSWScan Q D I W) : Prop where
  first : s.scanState.first = false
  workSpace : ∃ iter array queue,
    s.scanState.workSpace = some ⟨some iter, array, queue⟩ ∧ busy iter s.world

section

variable {quiet : W → Prop} {busy : I → W → Prop} {alike : I → W → I → W → Prop}
variable {width nkeys norderbys : Nat}

omit [PriorityQueue Q] in
/-- Wherever the last session stopped, a rescan succeeds and leaves nothing of it. -/
theorem rescan_idle (hrenews : lib.Renews quiet busy alike) {s : HNSWScan Q D I W}
    (hs : s.Idle quiet ∨ s.Busy busy) (keys orderbys : Option (ScanKey D)) :
    ∃ s', hnswRescan lib s keys orderbys = Except.ok s' ∧ s'.Idle quiet ∧
      s'.scan.toScanKeys = s.scan.toScanKeys.set keys orderbys := by
  rcases hs with hidle | hbusy
  · simp only [hnswRescan, hidle.workSpace]
    exact ⟨_, rfl, ⟨rfl, rfl, hidle.quiet⟩, rfl⟩
  · obtain ⟨iter, array, queue, hworkSpace, hiter⟩ := hbusy.workSpace
    simp only [hnswRescan, hworkSpace]
    exact ⟨_, rfl, ⟨rfl, rfl, hrenews.close_quiet hiter⟩, rfl⟩

theorem Idle.started_busy (hrenews : lib.Renews quiet busy alike) {s : HNSWScan Q D I W}
    (hs : s.Idle quiet) (query : Query D) : (s.started lib width query).Busy busy := by
  cases query with
  | order target => exact ⟨rfl, _, _, _, rfl, hrenews.create_busy target hs.quiet⟩
  | range radius target => exact ⟨rfl, _, _, _, rfl, hrenews.create_busy target hs.quiet⟩

/-- Two scans that begin a search for one query are alike, whatever they did before. -/
theorem Idle.started_alike (hrenews : lib.Renews quiet busy alike) {s other : HNSWScan Q D I W}
    (hs : s.Idle quiet) (hother : other.Idle quiet) (query : Query D) :
    (s.started lib width query).Alike alike (other.started lib width query) := by
  cases query with
  | order target =>
      exact ⟨⟨rfl, rfl⟩, rfl, rfl, rfl, fun h => absurd h Bool.false_ne_true,
        _, _, _, _, rfl, rfl, hrenews.create_alike target hs.quiet hother.quiet⟩
  | range radius target =>
      exact ⟨⟨rfl, rfl⟩, rfl, rfl, rfl, fun _ => rfl,
        _, _, _, _, rfl, rfl, hrenews.create_alike target hs.quiet hother.quiet⟩

theorem Busy.fetch (hrenews : lib.Renews quiet busy alike) {s : HNSWScan Q D I W}
    (hs : s.Busy busy) :
    ∃ returned s', hnswFetch lib s = Except.ok (returned, s') ∧ s'.Busy busy ∧
      s'.scan.toScanKeys = s.scan.toScanKeys := by
  obtain ⟨iter, array, queue, hworkSpace, hiter⟩ := hs.workSpace
  simp only [hnswFetch, hworkSpace]
  refine ⟨_, _, rfl, ⟨hs.first, _, _, _, rfl, ?_⟩, ?_⟩
  · exact Fetching.run_busy hrenews.next_busy _ hiter
  · unfold store
    simp only
    split <;> rfl

theorem calls_succ {s after : HNSWScan Q D I W} {returned : Bool}
    (hcall : hnswGettuple lib width s = Except.ok (returned, after)) (count : Nat) :
    HNSWScan.calls lib width (count + 1) s = (HNSWScan.calls lib width count after).map
      fun ran => (after.observe returned :: ran.1, ran.2) := by
  have hbind : HNSWScan.calls lib width (count + 1) s =
      (HNSWScan.calls lib width count after >>= fun ran =>
        Except.ok (after.observe returned :: ran.1, ran.2)) := by
    simp only [HNSWScan.calls, hcall]
    rfl
  rw [hbind]
  cases HNSWScan.calls lib width count after <;> rfl

/-- The calls of a session are calls on the scan whose search has begun. -/
theorem Idle.calls_started {s : HNSWScan Q D I W} (hs : s.Idle quiet) {query : Query D}
    (hask : s.scan.toScanKeys.ask = some (Except.ok query)) (count : Nat) :
    HNSWScan.calls lib width (count + 1) s =
      HNSWScan.calls lib width (count + 1) (s.started lib width query) := by
  rw [HNSWScan.calls, hnswGettuple_started lib width hs.first hask, ← HNSWScan.calls]

theorem Busy.calls (hrenews : lib.Renews quiet busy alike) (count : Nat)
    {s : HNSWScan Q D I W} (hs : s.Busy busy) :
    ∃ observations s', HNSWScan.calls lib width count s = Except.ok (observations, s') ∧
      s'.Busy busy ∧ s'.scan.toScanKeys = s.scan.toScanKeys := by
  induction count generalizing s with
  | zero => exact ⟨[], s, rfl, hs, rfl⟩
  | succ count ih =>
      obtain ⟨returned, after, hfetch, hafter, hkeys⟩ := hs.fetch hrenews
      obtain ⟨rest, s', hrest, hs', hkeys'⟩ := ih hafter
      refine ⟨after.observe returned :: rest, s', ?_, hs', hkeys'.trans hkeys⟩
      rw [calls_succ ((hnswGettuple_later lib hs.first).trans hfetch), hrest]
      rfl

theorem Alike.calls (hrenews : lib.Renews quiet busy alike) (count : Nat)
    {s other : HNSWScan Q D I W} (halike : s.Alike alike other) :
    ∃ observations s' other', HNSWScan.calls lib width count s = Except.ok (observations, s') ∧
      HNSWScan.calls lib width count other = Except.ok (observations, other') := by
  induction count generalizing s other with
  | zero => exact ⟨[], s, other, rfl, rfl⟩
  | succ count ih =>
      obtain ⟨returned, after, after', hfetch, hfetch', hobserve, hafter⟩ :=
        halike.fetch hrenews.next_alike
      obtain ⟨rest, s', other', hrest, hrest'⟩ := ih hafter
      refine ⟨after.observe returned :: rest, s', other', ?_, ?_⟩
      · rw [calls_succ ((hnswGettuple_later lib halike.first.1).trans hfetch), hrest]
        rfl
      · rw [calls_succ ((hnswGettuple_later lib halike.first.2).trans hfetch'), hrest',
          hobserve]
        rfl

/-- Calls on two rescanned scans that ask for the same. -/
theorem Idle.calls_eq (hrenews : lib.Renews quiet busy alike) {s other : HNSWScan Q D I W}
    (hs : s.Idle quiet) (hother : other.Idle quiet) {asked : Except Fault (Query D)}
    (hask : s.scan.toScanKeys.ask = some asked)
    (hask' : other.scan.toScanKeys.ask = some asked) {count : Nat} (hcount : 0 < count) :
    (HNSWScan.calls lib width count s).map Prod.fst =
      (HNSWScan.calls lib width count other).map Prod.fst := by
  obtain ⟨count, rfl⟩ := Nat.exists_eq_succ_of_ne_zero hcount.ne'
  cases asked with
  | error fault =>
      simp only [HNSWScan.calls, hnswGettuple_fault lib hs.first hask,
        hnswGettuple_fault lib hother.first hask', bind, Except.bind]
  | ok query =>
      rw [Nat.succ_eq_add_one, hs.calls_started hask, hother.calls_started hask']
      obtain ⟨observations, s', other', hcalls, hcalls'⟩ :=
        (hs.started_alike hrenews hother query).calls hrenews (count + 1)
      rw [hcalls, hcalls']
      rfl

/-- A session that asks for something, from wherever the last one stopped: it faults when
what it asks for does, and otherwise leaves the scan with an iterator. -/
theorem session_busy (width : Nat) (hrenews : lib.Renews quiet busy alike) {s : HNSWScan Q D I W}
    (hs : s.Idle quiet ∨ s.Busy busy) (hkeys : s.scan.Allocated nkeys norderbys)
    {spec : ScanSession D} (hcount : 0 < spec.calls) {asked : Except Fault (Query D)}
    (hask : spec.ask nkeys norderbys = some asked) :
    match asked with
    | Except.error fault => HNSWScan.session lib width s spec = Except.error fault
    | Except.ok _ => ∃ observations s', HNSWScan.session lib width s spec =
        Except.ok (observations, s') ∧ s'.Busy busy ∧ s'.scan.Allocated nkeys norderbys := by
  obtain ⟨middle, hrescan, hidle, hset⟩ := rescan_idle hrenews hs spec.keys spec.orderbys
  have hmiddle : middle.scan.toScanKeys.ask = some asked := hset ▸ hkeys.ask_set hask
  obtain ⟨count, hcalls⟩ := Nat.exists_eq_succ_of_ne_zero hcount.ne'
  simp only [HNSWScan.session, hrescan, hcalls, Nat.succ_eq_add_one]
  cases asked with
  | error fault =>
      simp only [HNSWScan.calls, bind, Except.bind, hnswGettuple_fault lib hidle.first hmiddle]
  | ok query =>
      obtain ⟨observations, s', hran, hbusy, hsame⟩ :=
        (hidle.started_busy hrenews query).calls hrenews (count + 1)
      refine ⟨observations, s', (hidle.calls_started hmiddle count).trans hran, hbusy, ?_⟩
      have hstarted : (middle.started lib width query).scan.toScanKeys =
          middle.scan.toScanKeys := by
        cases query <;> rfl
      rw [hsame, hstarted, hset]
      exact hkeys.set spec.keys spec.orderbys

/-- Sessions that complete leave the scan ready for the next one; they complete if none of
them asks for something that faults. -/
theorem sessions_keep (width : Nat) (hrenews : lib.Renews quiet busy alike)
    {specs : List (ScanSession D)}
    (hspecs : ∀ spec ∈ specs, 0 < spec.calls ∧ (spec.ask nkeys norderbys).isSome)
    {s : HNSWScan Q D I W} (hs : s.Idle quiet ∨ s.Busy busy)
    (hkeys : s.scan.Allocated nkeys norderbys) :
    (∀ before, HNSWScan.sessions lib width specs s = Except.ok before →
      (before.Idle quiet ∨ before.Busy busy) ∧ before.scan.Allocated nkeys norderbys) ∧
    ((∀ spec ∈ specs, ∃ query, spec.ask nkeys norderbys = some (Except.ok query)) →
      ∃ before, HNSWScan.sessions lib width specs s = Except.ok before) := by
  induction specs generalizing s with
  | nil =>
      refine ⟨?_, fun _ => ⟨s, rfl⟩⟩
      intro before hbefore
      obtain rfl := Except.ok.inj hbefore
      exact ⟨hs, hkeys⟩
  | cons spec rest ih =>
      obtain ⟨hcount, hsome⟩ := hspecs spec List.mem_cons_self
      obtain ⟨asked, hask⟩ := Option.isSome_iff_exists.mp hsome
      have hsession := session_busy width hrenews hs hkeys hcount hask
      cases asked with
      | error fault =>
          simp only [HNSWScan.sessions, hsession]
          refine ⟨fun before hbefore => (by cases hbefore), fun hall => ?_⟩
          obtain ⟨query, hquery⟩ := hall spec List.mem_cons_self
          rw [hask] at hquery
          cases hquery
      | ok query =>
          obtain ⟨observations, after, hran, hbusy, hallocated⟩ := hsession
          obtain ⟨hkeep, hrun⟩ := ih
            (fun other hother => hspecs other (List.mem_cons_of_mem _ hother))
            (Or.inr hbusy) hallocated
          simp only [HNSWScan.sessions, hran]
          exact ⟨hkeep, fun hall =>
            hrun (fun other hother => hall other (List.mem_cons_of_mem _ hother))⟩

end

end HNSWScan

/-- Over `hnswlib` the pool may be used by any other iterators. -/
theorem hnswLibrary_renews (index : Hnsw.HierarchicalNSW D) :
    (hnswLibrary index : IteratorLibrary D (OpenIterator Q D) Hnsw.VisitedListPool).Renews
      (fun lists => ∃ held, lists.Sound held)
      (fun iter lists => ∃ others, (Hnsw.Handle.alive iter.1).Apart lists others)
      (fun iter lists iter' lists' => iter.1.Alike lists iter'.1 lists') where
  create_busy := by
    rintro target lists ⟨held, hsound⟩
    have hunborn : (Hnsw.Handle.unborn : Hnsw.Handle Q D).Apart lists held :=
      ⟨by simpa [Hnsw.Handle.address] using hsound, fun _ _ heq => by cases heq⟩
    have hcall : Hnsw.Handle.call index (Hnsw.Call.construct target)
        (Hnsw.Handle.unborn : Hnsw.Handle Q D) lists = some _ := rfl
    exact ⟨held, (hunborn.call hcall).1⟩
  next_busy := by
    rintro iter lists ⟨others, hapart⟩
    exact ⟨others, (Hnsw.Handle.next_apart index hapart (iter.next_eq index lists)).1⟩
  close_quiet := by
    rintro iter lists ⟨others, hapart⟩
    exact ⟨others, hapart.close⟩
  create_alike := by
    rintro target lists lists' ⟨held, hsound⟩ ⟨held', hsound'⟩
    exact Hnsw.ResultIterator.new_alike target hsound hsound'
  next_alike := by
    intro iter lists iter' lists' halike
    have hboth := halike.next index
    rw [iter.next_eq index lists, iter'.next_eq index lists'] at hboth
    cases hboth with
    | some hafter => exact hafter

/-- A rescan is as good as a new scan. After any completed sessions with non-null queries a
last one shows what it would show on a scan that has just begun, in whatever state the
pools are; and sessions complete unless a range query has no radius. -/
theorem rescan_as_good_as_new (index : Hnsw.HierarchicalNSW D) (width nkeys norderbys : Nat)
    (uninit uninit' : IndexScanDesc D) (junk junk' : ScanKey D × ScanKey D)
    (state state' : HNSWScanOpaque Q D (OpenIterator Q D))
    {lists lists' : Hnsw.VisitedListPool} {held held' : Set Nat}
    (hsound : lists.Sound held) (hsound' : lists'.Sound held')
    (earlier : List (ScanSession D)) (last : ScanSession D)
    (hqueries : ∀ session ∈ earlier ++ [last],
      0 < session.calls ∧ (session.ask nkeys norderbys).isSome) :
    (∀ before,
      HNSWScan.sessions (hnswLibrary index) width earlier
        (hnswBeginScan uninit junk state nkeys norderbys lists) = Except.ok before →
      (HNSWScan.session (hnswLibrary index) width before last).map Prod.fst =
        (HNSWScan.session (hnswLibrary index) width
          (hnswBeginScan uninit' junk' state' nkeys norderbys lists') last).map Prod.fst) ∧
    ((∀ session ∈ earlier, ∃ query, session.ask nkeys norderbys = some (Except.ok query)) →
      ∃ before, HNSWScan.sessions (hnswLibrary index) width earlier
        (hnswBeginScan uninit junk state nkeys norderbys lists) = Except.ok before) := by
  have hrenews := hnswLibrary_renews (Q := Q) index
  have hbegin : (hnswBeginScan uninit junk state nkeys norderbys lists).Idle
      (fun lists => ∃ held, lists.Sound held) := ⟨rfl, rfl, held, hsound⟩
  have hbegin' : (hnswBeginScan uninit' junk' state' nkeys norderbys lists').Idle
      (fun lists => ∃ held, lists.Sound held) := ⟨rfl, rfl, held', hsound'⟩
  have hkeys' : (hnswBeginScan uninit' junk' state' nkeys norderbys lists').scan.Allocated
      nkeys norderbys := relationGetIndexScan_allocated uninit' junk' nkeys norderbys
  obtain ⟨hkeep, hrun⟩ := HNSWScan.sessions_keep width hrenews
    (fun session hsession => hqueries session (List.mem_append_left _ hsession))
    (Or.inl hbegin) (relationGetIndexScan_allocated uninit junk nkeys norderbys)
  refine ⟨?_, hrun⟩
  intro before hbefore
  obtain ⟨hsettled, hkeys⟩ := hkeep before hbefore
  obtain ⟨hcount, hsome⟩ := hqueries last (List.mem_append_right _ (List.mem_singleton.mpr rfl))
  obtain ⟨asked, hask⟩ := Option.isSome_iff_exists.mp hsome
  obtain ⟨s, hrescan, hidle, hset⟩ :=
    HNSWScan.rescan_idle hrenews hsettled last.keys last.orderbys
  obtain ⟨s', hrescan', hidle', hset'⟩ :=
    HNSWScan.rescan_idle hrenews (Or.inl hbegin') last.keys last.orderbys
  simp only [HNSWScan.session, hrescan, hrescan']
  exact hidle.calls_eq hrenews hidle' (hset ▸ hkeys.ask_set hask)
    (hset' ▸ hkeys'.ask_set hask) hcount

/-- An ORDER BY scan over three elements, rescanned after two calls. -/
theorem cycleIndex_rescanned :
    let uninit : IndexScanDesc Int := ⟨⟨0, 0, none, none⟩, ⟨0, 0⟩, false, true, none, false⟩
    let junk : ScanKey Int × ScanKey Int := (⟨false, []⟩, ⟨false, []⟩)
    let state : HNSWScanOpaque @SortedQueue Int (OpenIterator @SortedQueue Int) :=
      ⟨false, true, true, Range.radius 4, none⟩
    let lists := Hnsw.VisitedListPool.new fun _ _ => 0
    ∃ before,
      HNSWScan.sessions (hnswLibrary Hnsw.cycleIndex) distanceQueueWidth
        [⟨none, some ⟨false, [5]⟩, 2⟩] (hnswBeginScan uninit junk state 0 1 lists) =
          Except.ok before ∧
      (HNSWScan.session (hnswLibrary Hnsw.cycleIndex) distanceQueueWidth before
          ⟨none, some ⟨false, [0]⟩, 3⟩).map Prod.fst =
        (HNSWScan.session (hnswLibrary Hnsw.cycleIndex) distanceQueueWidth
          (hnswBeginScan uninit junk state 0 1 lists) ⟨none, some ⟨false, [0]⟩, 3⟩).map
            Prod.fst := by
  intro uninit junk state lists
  have hsound := Hnsw.VisitedListPool.new_sound (fun _ _ => 0)
  obtain ⟨hsame, hrun⟩ := rescan_as_good_as_new Hnsw.cycleIndex distanceQueueWidth 0 1 uninit uninit
    junk junk state state hsound hsound [⟨none, some ⟨false, [5]⟩, 2⟩]
    ⟨none, some ⟨false, [0]⟩, 3⟩ (by
      intro session hsession
      rcases List.mem_append.mp hsession with hmem | hmem <;>
      · rw [List.mem_singleton.mp hmem]
        exact ⟨by decide, rfl⟩)
  obtain ⟨before, hbefore⟩ := hrun (by
    intro session hsession
    rw [List.mem_singleton.mp hsession]
    exact ⟨Query.order [5], rfl⟩)
  exact ⟨before, hbefore, hsame before hbefore⟩

end VBase.AccessMethod
