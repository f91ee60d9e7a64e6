import VBase.AccessMethod.LifeCycle

/-! # Scans with several keys

The executor gives a scan all range conditions on the indexed column and the
ORDER BY expression, and does not check the conditions again. Both access methods
look at one key: the ORDER BY key if there is one, else the first range key. The
rows that they emit are those of the search for that key.
-/

namespace VBase.AccessMethod

open PriorityQueue

variable {Q : {T K : Type} → [LinearOrder K] → (T → K) → Type} [PriorityQueue Q]
variable {D I W : Type}

/-- A library whose iterators report, for a query, only results of a given kind. -/
structure IteratorLibrary.Reports (lib : IteratorLibrary D I W)
    (opened : List D → I → W → Prop) (reports : List D → UInt64 × D → Prop) : Prop where
  create_opened : ∀ target world,
    opened target (lib.create target world).1 (lib.create target world).2
  next_opened : ∀ {target iter world}, opened target iter world →
    opened target (lib.next iter world).2.1 (lib.next iter world).2.2
  next_reports : ∀ {target iter world}, opened target iter world →
    ∀ result ∈ (lib.next iter world).1, reports target result

variable {lib : IteratorLibrary D I W} {opened : List D → I → W → Prop}
  {reports : List D → UInt64 × D → Prop}

/-- The loop of `gettuple` returns only results that its iterator reports and its body emits. -/
theorem Fetching.run_reports (hlib : lib.Reports opened reports) {F : Type}
    {turn : D → F → Turn × F} {emits : D → Prop}
    (hturn : ∀ dist filter, (turn dist filter).1 = Turn.emit → emits dist)
    {target : List D} {iter : I} {world : W} (filter : F) (hopened : opened target iter world) :
    opened target (run lib turn iter world filter).iter (run lib turn iter world filter).world ∧
      ∀ result, (run lib turn iter world filter).outcome = some (some result) →
        reports target result ∧ emits result.2 := by
  refine Loop.run_invariant (step_decreases lib turn)
    (motive := fun state : Fetching D I W F => opened target state.iter state.world ∧
      ∀ result, state.outcome = some (some result) → reports target result ∧ emits result.2)
    ?_ ⟨iter, world, filter, none⟩ ⟨hopened, by simp⟩
  rintro ⟨iter, world, filter, outcome⟩ after ⟨hopened, -⟩ hstep
  have hafter := hlib.next_opened hopened
  have hresult := hlib.next_reports hopened
  unfold step at hstep
  split at hstep
  · simp at hstep
  simp only at hstep
  split at hstep
  next hnext =>
    obtain rfl := Option.some.inj hstep
    rw [hnext] at hafter
    exact ⟨hafter, by simp⟩
  next label dist iter' world' hnext =>
    rw [hnext] at hafter hresult
    split at hstep
    all_goals obtain rfl := Option.some.inj hstep
    · exact ⟨hafter, by simp⟩
    · exact ⟨hafter, by simp⟩
    next hemit =>
      refine ⟨hafter, fun result hfound => ?_⟩
      obtain rfl : (label, dist) = result := by simpa using hfound
      exact ⟨hresult _ rfl, hturn dist filter (by rw [hemit])⟩

/-- A result that the body emits ends the loop. -/
theorem Fetching.run_of_emit {F : Type} {turn : D → F → Turn × F} {iter after : I}
    {world world' : W} {filter : F} {result : UInt64 × D}
    (hnext : lib.next iter world = (some result, after, world'))
    (hemit : (turn result.2 filter).1 = Turn.emit) :
    (run lib turn iter world filter).outcome = some (some result) := by
  have hstep : step lib turn ⟨iter, world, filter, none⟩ =
      some ⟨after, world', (turn result.2 filter).2, some (some result)⟩ := by
    obtain ⟨label, dist⟩ := result
    rcases hturn : turn dist filter with ⟨kind, next⟩
    obtain rfl : kind = Turn.emit := by simpa [hturn] using hemit
    simp [step, hnext, hturn]
  rw [run, Loop.run_of_some (step_decreases lib turn) hstep, Loop.run_of_none]
  rfl

variable [LinearOrder D]

/-- The distances that the filter of a query lets pass. -/
def Query.Emits : Query D → D → Prop
  | .order _, _ => True
  | .range radius _, dist => dist ≤ radius

/-- The row of a result that a library reports for a query and that passes the filter. -/
def Query.Answers (query : Query D) (reports : List D → UInt64 × D → Prop) (tid : ItemPointer) :
    Prop :=
  ∃ result, reports query.target result ∧ query.Emits result.2 ∧
    tid = ItemPointer.ofLabel result.1

section Session

variable {S V : Type}

/-- The calls of an access method answer the query that its keys ask for. A scan is `fresh`
until its first call finds a key that it can search for, and then `serves` the query. -/
structure AmRoutine.Serves (am : AmRoutine D S V) (tid : S → ItemPointer) (fresh : S → Prop)
    (serves : Query D → S → Prop) (reports : List D → UInt64 × D → Prop) : Prop where
  fresh_gettuple : ∀ {s found after}, fresh s → am.gettuple s = Except.ok (found, after) →
    (found = false ∧ fresh after ∧ am.keys after = am.keys s) ∨
      ∃ query, (am.keys s).ask = some (Except.ok query) ∧ serves query after ∧
        (found = true → query.Answers reports (tid after))
  serves_gettuple : ∀ {query s found after}, serves query s →
    am.gettuple s = Except.ok (found, after) →
    serves query after ∧ (found = true → query.Answers reports (tid after))

/-- Every tuple of a session answers what the keys ask for. -/
theorem AmRoutine.Serves.returned {am : AmRoutine D S V} {tid : S → ItemPointer}
    {fresh : S → Prop} {serves : Query D → S → Prop} (hserves : am.Serves tid fresh serves reports)
    {s last : S} (hfresh : fresh s) {count : Nat} {list : List (Option ItemPointer)}
    (hreturned : returned am.gettuple tid count s = Except.ok (list, last)) :
    ∀ row, some row ∈ list →
      ∃ query, (am.keys s).ask = some (Except.ok query) ∧ query.Answers reports row := by
  refine returned_forall (motive := fun other => (fresh other ∧ am.keys other = am.keys s) ∨
    ∃ query, (am.keys s).ask = some (Except.ok query) ∧ serves query other) ?_ count
    (Or.inl ⟨hfresh, rfl⟩) hreturned
  rintro other found after (⟨hother, hkeys⟩ | ⟨query, hask, hother⟩) hget
  · rw [← hkeys]
    rcases hserves.fresh_gettuple hother hget with
      ⟨rfl, hafter, hsame⟩ | ⟨query, hask, hafter, hfound⟩
    · exact ⟨Or.inl ⟨hafter, hsame⟩, by simp⟩
    · exact ⟨Or.inr ⟨query, hask, hafter⟩, fun htrue => ⟨query, hask, hfound htrue⟩⟩
  · obtain ⟨hafter, hfound⟩ := hserves.serves_gettuple hother hget
    exact ⟨Or.inr ⟨query, hask, hafter⟩, fun htrue => ⟨query, hask, hfound htrue⟩⟩

end Session

/-! ## hnsw -/

theorem rangeTurn_emit {radius dist : D} {filter : HNSWFilter Q D}
    (hemit : (rangeTurn (Range.radius radius) dist filter).1 = Turn.emit) : dist ≤ radius := by
  unfold rangeTurn at hemit
  dsimp only at hemit
  split at hemit
  · cases hemit
  · split at hemit
    · split at hemit <;> cases hemit
    next hwithin => simpa [Range.exceededBy] using hwithin

namespace HNSWScan

/-- A scan in the middle of a session for a query. -/
structure Serves (opened : List D → I → W → Prop) (query : Query D)
    (s : HNSWScan Q D I W) : Prop where
  later : s.scanState.first = false
  filter : ∀ dist filter, (hnswTurn (Q := Q) s.scanState.hasRangeFilter s.scanState.range dist
    filter).1 = Turn.emit → query.Emits dist
  workSpace : ∃ iter array queue, s.scanState.workSpace = some ⟨some iter, array, queue⟩ ∧
    opened query.target iter s.world

theorem started_serves (hlib : lib.Reports opened reports) (width : Nat)
    (s : HNSWScan Q D I W) (query : Query D) : (s.started lib width query).Serves opened query := by
  cases query with
  | order target =>
      exact ⟨rfl, fun _ _ _ => trivial, _, _, _, rfl, hlib.create_opened target s.world⟩
  | range radius target =>
      exact ⟨rfl, fun _ _ => rangeTurn_emit, _, _, _, rfl, hlib.create_opened target s.world⟩

theorem Serves.fetch (hlib : lib.Reports opened reports) {query : Query D}
    {s after : HNSWScan Q D I W} (hserves : s.Serves opened query) {found : Bool}
    (hfetch : hnswFetch lib s = Except.ok (found, after)) :
    after.Serves opened query ∧
      (found = true → query.Answers reports after.scan.xsHeaptid) := by
  obtain ⟨iter, array, queue, hworkSpace, hopened⟩ := hserves.workSpace
  obtain ⟨hafter, hresult⟩ := Fetching.run_reports hlib hserves.filter
    (s.filter ⟨some iter, array, queue⟩) hopened
  simp only [hnswFetch, hworkSpace, Except.ok.injEq, Prod.mk.injEq] at hfetch
  obtain ⟨rfl, rfl⟩ := hfetch
  refine ⟨⟨hserves.later, hserves.filter, _, _, _, rfl, hafter⟩, fun hfound => ?_⟩
  obtain ⟨result, hjoin⟩ := Option.isSome_iff_exists.mp hfound
  have houtcome := Option.join_eq_some_iff.mp hjoin
  obtain ⟨hreports, hemits⟩ := hresult result houtcome
  exact ⟨result, hreports, hemits, by simp [store, houtcome]⟩

end HNSWScan

theorem hnswRoutine_serves (hlib : lib.Reports opened reports) (width : Nat) :
    (hnswRoutine (Q := Q) lib width).Serves (fun s => s.scan.xsHeaptid)
      (fun s => s.scanState.first = true) (HNSWScan.Serves opened) reports where
  fresh_gettuple := by
    intro s found after hfirst hget
    change hnswGettuple lib width s = _ at hget
    show (_ ∧ _ ∧ after.scan.toScanKeys = s.scan.toScanKeys) ∨
      ∃ query, s.scan.toScanKeys.ask = _ ∧ _
    cases hask : s.scan.toScanKeys.ask with
    | none =>
        rw [hnswGettuple_bare lib hfirst hask] at hget
        obtain ⟨rfl, rfl⟩ := Prod.mk.inj (Except.ok.inj hget)
        exact Or.inl ⟨rfl, hfirst, rfl⟩
    | some asked =>
        cases asked with
        | error fault =>
            rw [hnswGettuple_fault lib hfirst hask] at hget
            cases hget
        | ok query =>
            rw [hnswGettuple_first lib hfirst hask] at hget
            exact Or.inr ⟨query, rfl,
              (HNSWScan.started_serves hlib width s query).fetch hlib hget⟩
  serves_gettuple := by
    intro query s found after hserves hget
    change hnswGettuple lib width s = _ at hget
    rw [hnswGettuple_later lib hserves.later] at hget
    exact hserves.fetch hlib hget

/-! ## sptag -/

theorem sptagTurn_emit {radius dist : D} {filter : Bool × Nat}
    (hemit : (sptagTurn true (Range.radius radius) dist filter).1 = Turn.emit) :
    dist ≤ radius := by
  simp only [sptagTurn, if_true] at hemit
  split at hemit
  · split at hemit <;> cases hemit
  next hwithin => simpa [Range.exceededBy] using hwithin

namespace SPTAGScan

structure Serves (opened : List D → I → W → Prop) (query : Query D) (s : SPTAGScan D I W) :
    Prop where
  later : s.scanState.first = false
  filter : ∀ dist filter, (sptagTurn s.scanState.hasRangeFilter s.scanState.range dist
    filter).1 = Turn.emit → query.Emits dist
  workSpace : ∃ iter, s.scanState.workSpace = some (some iter) ∧
    opened query.target iter s.world

theorem started_serves (hlib : lib.Reports opened reports) (s : SPTAGScan D I W)
    (query : Query D) : (s.started lib query).Serves opened query := by
  cases query with
  | order target => exact ⟨rfl, fun _ _ _ => trivial, _, rfl, hlib.create_opened target s.world⟩
  | range radius target =>
      exact ⟨rfl, fun _ _ => sptagTurn_emit, _, rfl, hlib.create_opened target s.world⟩

theorem Serves.fetch (hlib : lib.Reports opened reports) {query : Query D}
    {s after : SPTAGScan D I W} (hserves : s.Serves opened query) {found : Bool}
    (hfetch : sptagFetch lib s = Except.ok (found, after)) :
    after.Serves opened query ∧
      (found = true → query.Answers reports after.scan.xsHeaptid) := by
  obtain ⟨iter, hworkSpace, hopened⟩ := hserves.workSpace
  obtain ⟨hafter, hresult⟩ := Fetching.run_reports hlib hserves.filter
    (s.scanState.inRange, 0) hopened
  simp only [sptagFetch, hworkSpace, Except.ok.injEq, Prod.mk.injEq] at hfetch
  obtain ⟨rfl, rfl⟩ := hfetch
  refine ⟨⟨hserves.later, hserves.filter, _, rfl, hafter⟩, fun hfound => ?_⟩
  obtain ⟨result, hjoin⟩ := Option.isSome_iff_exists.mp hfound
  have houtcome := Option.join_eq_some_iff.mp hjoin
  obtain ⟨hreports, hemits⟩ := hresult result houtcome
  exact ⟨result, hreports, hemits, by simp [store, houtcome]⟩

end SPTAGScan

theorem sptagRoutine_serves (hlib : lib.Reports opened reports) :
    (sptagRoutine lib).Serves (fun s => s.scan.xsHeaptid) (fun s => s.scanState.first = true)
      (SPTAGScan.Serves opened) reports where
  fresh_gettuple := by
    intro s found after hfirst hget
    change sptagGettuple lib s = _ at hget
    show (_ ∧ _ ∧ after.scan.toScanKeys = s.scan.toScanKeys) ∨
      ∃ query, s.scan.toScanKeys.ask = _ ∧ _
    rw [sptagGettuple_first lib hfirst] at hget
    cases hask : s.scan.toScanKeys.ask with
    | none =>
        rw [hask] at hget
        obtain ⟨rfl, rfl⟩ := Prod.mk.inj (Except.ok.inj hget)
        exact Or.inl ⟨rfl, hfirst, rfl⟩
    | some asked =>
        rw [hask] at hget
        cases asked with
        | error fault => cases hget
        | ok query =>
            exact Or.inr ⟨query, rfl, (SPTAGScan.started_serves hlib s query).fetch hlib hget⟩
  serves_gettuple := by
    intro query s found after hserves hget
    change sptagGettuple lib s = _ at hget
    rw [sptagGettuple_later lib hserves.later] at hget
    exact hserves.fetch hlib hget

/-! ## The keys that are not looked at -/

/-- The row satisfies the condition of a range key. -/
def ScanKey.Within (distance : List D → ItemPointer → D) (key : ScanKey D) (row : ItemPointer) :
    Prop :=
  key.isNull = false ∧
    ∃ radius target, key.argument = radius :: target ∧ distance target row ≤ radius

/-- A result for a row of the table, with the distance of the operator. -/
def ReportsRows (table : Set ItemPointer) (distance : List D → ItemPointer → D)
    (target : List D) (result : UInt64 × D) : Prop :=
  ItemPointer.ofLabel result.1 ∈ table ∧
    result.2 = distance target (ItemPointer.ofLabel result.1)

/-- The calls after a rescan return only rows that satisfy every range key. -/
def AmRoutine.Honours {S V : Type} (am : AmRoutine D S V) (tid : S → ItemPointer) (begun : S)
    (keys : List (ScanKey D)) (orderby : Option (ScanKey D))
    (distance : List D → ItemPointer → D) : Prop :=
  ∀ start, am.rescan begun keys.head? orderby = Except.ok start → ∀ count list last,
    returned am.gettuple tid count start = Except.ok (list, last) →
    ∀ row, some row ∈ list → ∀ key ∈ keys, key.Within distance row

/-- The key that is looked at implies the range keys: on the rows of the table, an ORDER BY key
that is not null asks for all of them, and the first range key for those within its radius. -/
def KeysCovered (table : Set ItemPointer) (distance : List D → ItemPointer → D)
    (keys : List (ScanKey D)) : Option (ScanKey D) → Prop
  | some orderby => orderby.isNull = true ∨
      ∀ row ∈ table, ∀ key ∈ keys, key.Within distance row
  | none => ∀ first ∈ keys.head?, ∀ row ∈ table, first.Within distance row →
      ∀ key ∈ keys, key.Within distance row

section Covered

variable {table : Set ItemPointer} {distance : List D → ItemPointer → D}
  {keys : List (ScanKey D)} {orderby : Option (ScanKey D)} {scan : ScanKeys D}

omit [LinearOrder D] in
theorem ScanKey.askRange_eq {key : ScanKey D} {query : Query D}
    (hask : key.askRange = some (Except.ok query)) :
    key.isNull = false ∧ ∃ radius target, key.argument = radius :: target ∧
      query = Query.range radius target := by
  unfold askRange at hask
  split at hask
  · cases hask
  next hnull =>
    split at hask
    · cases hask
    next radius target hargument =>
      obtain rfl : Query.range radius target = query := by simpa using hask
      exact ⟨by simpa using hnull, radius, target, hargument, rfl⟩

/-- A row that answers a covering key satisfies the range keys. -/
theorem KeysCovered.within (hcovered : KeysCovered table distance keys orderby)
    (hkey : scan.keyData = keys.head?) (horderby : scan.orderByData = orderby) {query : Query D}
    (hask : scan.ask = some (Except.ok query)) {row : ItemPointer}
    (hanswers : query.Answers (ReportsRows table distance) row) :
    ∀ key ∈ keys, key.Within distance row := by
  obtain ⟨result, ⟨hrow, hdist⟩, hemits, rfl⟩ := hanswers
  rw [ScanKeys.ask, horderby] at hask
  cases orderby with
  | some key =>
      have hnull : key.isNull ≠ true := by
        intro hnull
        simp [ScanKey.askOrder, hnull] at hask
      exact (hcovered.resolve_left hnull) _ hrow
  | none =>
      rw [hkey] at hask
      obtain ⟨first, hfirst, hask⟩ := Option.bind_eq_some_iff.mp hask
      obtain ⟨hnull, radius, target, hargument, rfl⟩ := ScanKey.askRange_eq hask
      rw [hdist] at hemits
      exact hcovered first hfirst _ hrow ⟨hnull, radius, target, hargument, hemits⟩

/-- When the keys are not covered, some row answers the query and violates a range key. -/
theorem exists_violation (hnot : ¬ KeysCovered table distance keys orderby)
    (hkey : scan.keyData = keys.head?) (horderby : scan.orderByData = orderby) :
    ∃ query row, scan.ask = some (Except.ok query) ∧ row ∈ table ∧
      query.Emits (distance query.target row) ∧ ∃ key ∈ keys, ¬ key.Within distance row := by
  rw [ScanKeys.ask, horderby]
  cases orderby with
  | some key =>
      simp only [KeysCovered, not_or, not_forall] at hnot
      obtain ⟨hnull, row, hrow, range, hrange, hviolated⟩ := hnot
      exact ⟨Query.order key.argument, row, by simp [ScanKey.askOrder, hnull], hrow, trivial,
        range, hrange, hviolated⟩
  | none =>
      simp only [KeysCovered, not_forall] at hnot
      obtain ⟨first, hfirst, row, hrow, hwithin, range, hrange, hviolated⟩ := hnot
      obtain ⟨hnull, radius, target, hargument, hle⟩ := hwithin
      refine ⟨Query.range radius target, row, ?_, hrow, hle, range, hrange, hviolated⟩
      rw [hkey, Option.mem_def.mp hfirst]
      simp [ScanKey.askRange, hnull, hargument]

omit [LinearOrder D] in
/-- A rescan gives the scan its first range key and its ORDER BY key. -/
theorem setKeys_head? (hkeys : keys ≠ []) (orderby : Option (ScanKey D))
    (uninit : IndexScanDesc D) (junk : ScanKey D × ScanKey D) :
    ((relationGetIndexScan uninit junk keys.length orderby.toList.length).setKeys keys.head?
        orderby).keyData = keys.head? ∧
      ((relationGetIndexScan uninit junk keys.length orderby.toList.length).setKeys keys.head?
        orderby).orderByData = orderby := by
  obtain ⟨first, others, rfl⟩ := List.exists_cons_of_ne_nil hkeys
  cases orderby <;>
    simp [relationGetIndexScan, IndexScanDesc.setKeys, ScanKeys.set, ScanKeys.overwrite]

end Covered

/-- The library that finds one row, whatever the query. -/
def oneRow (distance : List D → ItemPointer → D) (row : ItemPointer) :
    IteratorLibrary D (List (UInt64 × D)) Unit :=
  resultList fun target => [(row.toLabel, distance target row)]

omit [LinearOrder D] in
theorem oneRow_reports {table : Set ItemPointer} (distance : List D → ItemPointer → D)
    {row : ItemPointer} (hrow : row ∈ table) :
    (oneRow distance row).Reports
      (fun target iter _ => ∀ result ∈ iter, ReportsRows table distance target result)
      (ReportsRows table distance) where
  create_opened := by
    intro target world result hresult
    obtain rfl := List.mem_singleton.mp hresult
    rw [ReportsRows, ItemPointer.ofLabel_toLabel]
    exact ⟨hrow, rfl⟩
  next_opened := fun hopened result hresult => hopened result (List.mem_of_mem_tail hresult)
  next_reports := fun hopened result hresult => hopened result (List.mem_of_mem_head? hresult)

/-- The first result of a range scan is emitted if it is within the radius. -/
theorem rangeTurn_first {radius dist : D} (hle : dist ≤ radius) {filter : HNSWFilter Q D}
    (hinRange : filter.inRange = false) (hempty : size filter.distanceQueue = 0) :
    (rangeTurn (Range.radius radius) dist filter).1 = Turn.emit := by
  have hwithin : ¬ radius < dist := not_lt.mpr hle
  simp [rangeTurn, hinRange, hempty, Range.exceededBy, hwithin, queueThreshold]

variable (lib) in
theorem hnswFetch_of_emit (s : HNSWScan Q D I W) {iter after : I} {array : List D}
    {queue : Q (id : D → D)} {world : W} {result : UInt64 × D}
    (hworkSpace : s.scanState.workSpace = some ⟨some iter, array, queue⟩)
    (hnext : lib.next iter s.world = (some result, after, world))
    (hemit : (hnswTurn s.scanState.hasRangeFilter s.scanState.range result.2
      (s.filter ⟨some iter, array, queue⟩)).1 = Turn.emit) :
    ∃ s', hnswFetch lib s = Except.ok (true, s') ∧
      s'.scan.xsHeaptid = ItemPointer.ofLabel result.1 := by
  have houtcome := Fetching.run_of_emit hnext hemit
  simp only [hnswFetch, hworkSpace, houtcome]
  exact ⟨_, rfl, by simp [HNSWScan.store, houtcome]⟩

/-- The first call of an hnsw scan emits the row that its library finds. -/
theorem hnswGettuple_oneRow (distance : List D → ItemPointer → D) (row : ItemPointer)
    (width : Nat) {s : HNSWScan Q D (List (UInt64 × D)) Unit} {query : Query D}
    (hfirst : s.scanState.first = true) (hask : s.scan.toScanKeys.ask = some (Except.ok query))
    (hemits : query.Emits (distance query.target row)) :
    ∃ after, hnswGettuple (oneRow distance row) width s = Except.ok (true, after) ∧
      after.scan.xsHeaptid = row := by
  rw [hnswGettuple_first _ hfirst hask]
  have hlabel := row.ofLabel_toLabel
  cases query with
  | order target =>
      obtain ⟨after, hfetch, htid⟩ := hnswFetch_of_emit (oneRow distance row)
        (s.started (oneRow distance row) width (Query.order target)) rfl rfl
        (orderTurn_emit (Range.width width) (distance target row)
          ⟨false, s.scanState.inRange, PriorityQueue.empty, 0⟩)
      exact ⟨after, hfetch, htid.trans hlabel⟩
  | range radius target =>
      obtain ⟨after, hfetch, htid⟩ := hnswFetch_of_emit (oneRow distance row)
        (s.started (oneRow distance row) width (Query.range radius target)) rfl rfl
        (rangeTurn_first hemits rfl size_empty)
      exact ⟨after, hfetch, htid.trans hlabel⟩

variable (lib) in
theorem sptagFetch_of_emit (s : SPTAGScan D I W) {iter after : I} {world : W}
    {result : UInt64 × D} (hworkSpace : s.scanState.workSpace = some (some iter))
    (hnext : lib.next iter s.world = (some result, after, world))
    (hemit : (sptagTurn s.scanState.hasRangeFilter s.scanState.range result.2
      (s.scanState.inRange, 0)).1 = Turn.emit) :
    ∃ s', sptagFetch lib s = Except.ok (true, s') ∧
      s'.scan.xsHeaptid = ItemPointer.ofLabel result.1 := by
  have houtcome := Fetching.run_of_emit hnext hemit
  simp only [sptagFetch, hworkSpace, houtcome]
  exact ⟨_, rfl, by simp [SPTAGScan.store, houtcome]⟩

/-- The first call of an sptag scan emits the row that its library finds. -/
theorem sptagGettuple_oneRow (distance : List D → ItemPointer → D) (row : ItemPointer)
    {s : SPTAGScan D (List (UInt64 × D)) Unit} {query : Query D}
    (hfirst : s.scanState.first = true) (hask : s.scan.toScanKeys.ask = some (Except.ok query))
    (hemits : query.Emits (distance query.target row)) :
    ∃ after, sptagGettuple (oneRow distance row) s = Except.ok (true, after) ∧
      after.scan.xsHeaptid = row := by
  rw [sptagGettuple_first _ hfirst, hask]
  have hlabel := row.ofLabel_toLabel
  cases query with
  | order target =>
      obtain ⟨after, hfetch, htid⟩ := sptagFetch_of_emit (oneRow distance row)
        (s.started (oneRow distance row) (Query.order target)) rfl rfl rfl
      exact ⟨after, hfetch, htid.trans hlabel⟩
  | range radius target =>
      have hwithin : ¬ radius < distance target row := not_lt.mpr hemits
      obtain ⟨after, hfetch, htid⟩ := sptagFetch_of_emit (oneRow distance row)
        (s.started (oneRow distance row) (Query.range radius target)) rfl rfl
        (by simp [SPTAGScan.started, SPTAGScan.start, sptagTurn, Range.exceededBy, hwithin])
      exact ⟨after, hfetch, htid.trans hlabel⟩

theorem AmRoutine.Honours.first {S V : Type} {am : AmRoutine D S V} {tid : S → ItemPointer}
    {begun start after : S} {keys : List (ScanKey D)} {orderby : Option (ScanKey D)}
    {distance : List D → ItemPointer → D}
    (hhonours : am.Honours tid begun keys orderby distance)
    (hstart : am.rescan begun keys.head? orderby = Except.ok start)
    (hget : am.gettuple start = Except.ok (true, after)) :
    ∀ key ∈ keys, key.Within distance (tid after) := by
  refine hhonours start hstart 1 [some (tid after)] after ?_ (tid after) List.mem_cons_self
  simp [returned, hget, bind, Except.bind, pure, Except.pure]

section NotCovered

variable {table : Set ItemPointer} {distance : List D → ItemPointer → D}
  {keys : List (ScanKey D)} {orderby : Option (ScanKey D)}

/-- When the keys are not covered, a scan over the library that finds only the violating row
returns it. -/
theorem hnsw_not_honours (hkeys : keys ≠ []) (hnot : ¬ KeysCovered table distance keys orderby)
    (width : Nat) (uninit : IndexScanDesc D) (junk : ScanKey D × ScanKey D)
    (state : HNSWScanOpaque Q D (List (UInt64 × D))) :
    ∃ row ∈ table, ¬ (hnswRoutine (oneRow distance row) width).Honours (fun s => s.scan.xsHeaptid)
      (hnswBeginScan uninit junk state keys.length orderby.toList.length ()) keys orderby
      distance := by
  obtain ⟨hkey, horderby⟩ := setKeys_head? hkeys orderby uninit junk
  obtain ⟨query, row, hask, hrow, hemits, key, hmem, hviolated⟩ :=
    exists_violation hnot hkey horderby
  refine ⟨row, hrow, fun hhonours => ?_⟩
  obtain ⟨after, hget, rfl⟩ := hnswGettuple_oneRow (Q := Q) distance row width
    (s := ⟨_, { state with first := true, workSpace := none }, ()⟩) rfl hask hemits
  exact hviolated (hhonours.first rfl hget key hmem)

theorem sptag_not_honours (hkeys : keys ≠ []) (hnot : ¬ KeysCovered table distance keys orderby)
    (uninit : IndexScanDesc D) (junk : ScanKey D × ScanKey D)
    (state : SPTAGScanOpaque D (List (UInt64 × D))) :
    ∃ row ∈ table, ¬ (sptagRoutine (oneRow distance row)).Honours (fun s => s.scan.xsHeaptid)
      (sptagBeginScan uninit junk state keys.length orderby.toList.length ()) keys orderby
      distance := by
  obtain ⟨hkey, horderby⟩ := setKeys_head? hkeys orderby uninit junk
  obtain ⟨query, row, hask, hrow, hemits, key, hmem, hviolated⟩ :=
    exists_violation hnot hkey horderby
  refine ⟨row, hrow, fun hhonours => ?_⟩
  obtain ⟨after, hget, rfl⟩ := sptagGettuple_oneRow distance row
    (s := ⟨_, { state with first := true, workSpace := none }, ()⟩) rfl hask hemits
  exact hviolated (hhonours.first rfl hget key hmem)

end NotCovered

/-- Over every library that reports rows of the table with the distances of the operator, both
access methods return only rows that satisfy every range key exactly when the key that they
look at implies the others. -/
theorem scans_honour_keys_iff (table : Set ItemPointer) (distance : List D → ItemPointer → D)
    {keys : List (ScanKey D)} (hkeys : keys ≠ []) (orderby : Option (ScanKey D)) :
    ((∀ (I W : Type) (lib : IteratorLibrary D I W) (opened : List D → I → W → Prop),
      lib.Reports opened (ReportsRows table distance) →
      ∀ (uninit : IndexScanDesc D) (junk : ScanKey D × ScanKey D) (state : HNSWScanOpaque Q D I)
        (world : W), (hnswRoutine lib distanceQueueWidth).Honours (fun s => s.scan.xsHeaptid)
        (hnswBeginScan uninit junk state keys.length orderby.toList.length world) keys orderby
        distance) ↔ KeysCovered table distance keys orderby) ∧
    ((∀ (I W : Type) (lib : IteratorLibrary D I W) (opened : List D → I → W → Prop),
      lib.Reports opened (ReportsRows table distance) →
      ∀ (uninit : IndexScanDesc D) (junk : ScanKey D × ScanKey D) (state : SPTAGScanOpaque D I)
        (world : W), (sptagRoutine lib).Honours (fun s => s.scan.xsHeaptid)
        (sptagBeginScan uninit junk state keys.length orderby.toList.length world) keys orderby
        distance) ↔ KeysCovered table distance keys orderby) := by
  have hset := setKeys_head? hkeys orderby
  let uninit : IndexScanDesc D := ⟨⟨0, 0, none, none⟩, ⟨0, 0⟩, false, false, none, false⟩
  let junk : ScanKey D × ScanKey D := (⟨true, []⟩, ⟨true, []⟩)
  refine ⟨⟨fun hhonours => ?_, ?_⟩, fun hhonours => ?_, ?_⟩
  · by_contra hnot
    let state : HNSWScanOpaque Q D (List (UInt64 × D)) := ⟨true, false, false, Range.width 0, none⟩
    obtain ⟨row, hrow, hviolates⟩ :=
      hnsw_not_honours hkeys hnot distanceQueueWidth uninit junk state
    exact hviolates (hhonours _ _ _ _ (oneRow_reports distance hrow) uninit junk state ())
  · intro hcovered I W lib opened hlib uninit junk state world start hstart count list last
      hreturned row hrow
    obtain rfl := Except.ok.inj hstart
    obtain ⟨query, hask, hanswers⟩ :=
      (hnswRoutine_serves hlib distanceQueueWidth).returned rfl hreturned row hrow
    exact hcovered.within (hset uninit junk).1 (hset uninit junk).2 hask hanswers
  · by_contra hnot
    let state : SPTAGScanOpaque D (List (UInt64 × D)) :=
      ⟨true, false, false, Range.width 0, none, none⟩
    obtain ⟨row, hrow, hviolates⟩ := sptag_not_honours hkeys hnot uninit junk state
    exact hviolates (hhonours _ _ _ _ (oneRow_reports distance hrow) uninit junk state ())
  · intro hcovered I W lib opened hlib uninit junk state world start hstart count list last
      hreturned row hrow
    obtain rfl := Except.ok.inj hstart
    obtain ⟨query, hask, hanswers⟩ := (sptagRoutine_serves hlib).returned rfl hreturned row hrow
    exact hcovered.within (hset uninit junk).1 (hset uninit junk).2 hask hanswers

/-- The distance of a row whose vector is its offset number. -/
def offsetDistance (target : List Nat) (row : ItemPointer) : Nat :=
  (target.headD 0 - row.offset.toNat) + (row.offset.toNat - target.headD 0)

theorem ScanKey.within_iff {distance : List D → ItemPointer → D} {radius : D}
    {target : List D} {row : ItemPointer} :
    (⟨false, radius :: target⟩ : ScanKey D).Within distance row ↔
      distance target row ≤ radius := by
  simp [Within]

/-- Two range keys around one point, the smaller radius first. -/
theorem scans_honour_nested_keys :
    let keys : List (ScanKey Nat) := [⟨false, [1, 5]⟩, ⟨false, [2, 5]⟩]
    ∀ (I W : Type) (lib : IteratorLibrary Nat I W) (opened : List Nat → I → W → Prop),
      lib.Reports opened (ReportsRows Set.univ offsetDistance) →
      ∀ (uninit : IndexScanDesc Nat) (junk : ScanKey Nat × ScanKey Nat)
        (state : HNSWScanOpaque @SortedQueue Nat I) (world : W),
        (hnswRoutine lib distanceQueueWidth).Honours (fun s => s.scan.xsHeaptid)
          (hnswBeginScan uninit junk state 2 0 world) keys none offsetDistance := by
  intro keys
  have hkeys : keys ≠ [] := List.cons_ne_nil _ _
  refine (scans_honour_keys_iff Set.univ offsetDistance hkeys none).1.mpr ?_
  rintro first hfirst row - hwithin
  obtain rfl := Option.some.inj hfirst
  have hle := ScanKey.within_iff.mp hwithin
  intro key hkey
  obtain rfl | rfl := List.mem_pair.mp hkey
  · exact hwithin
  · exact ScanKey.within_iff.mpr (hle.trans (by decide))

/-- Two range keys around different points: a row that satisfies the first is returned although
it violates the second. -/
theorem scans_ignore_second_key :
    ¬ (hnswRoutine (oneRow offsetDistance ⟨0, 4⟩) distanceQueueWidth).Honours
        (fun s => s.scan.xsHeaptid)
        (hnswBeginScan (Q := @SortedQueue) ⟨⟨0, 0, none, none⟩, ⟨0, 0⟩, false, false, none, false⟩
          (⟨true, []⟩, ⟨true, []⟩) ⟨true, false, false, Range.width 0, none⟩ 2 0 ())
        [⟨false, [1, 5]⟩, ⟨false, [1, 6]⟩] none offsetDistance ∧
      ¬ (sptagRoutine (oneRow offsetDistance ⟨0, 4⟩)).Honours (fun s => s.scan.xsHeaptid)
        (sptagBeginScan ⟨⟨0, 0, none, none⟩, ⟨0, 0⟩, false, false, none, false⟩
          (⟨true, []⟩, ⟨true, []⟩) ⟨true, false, false, Range.width 0, none, none⟩ 2 0 ())
        [⟨false, [1, 5]⟩, ⟨false, [1, 6]⟩] none offsetDistance := by
  have hnot : ¬ KeysCovered {⟨0, 4⟩} offsetDistance [⟨false, [1, 5]⟩, ⟨false, [1, 6]⟩] none := by
    intro hcovered
    have hsecond := hcovered ⟨false, [1, 5]⟩ rfl ⟨0, 4⟩ rfl (ScanKey.within_iff.mpr (by decide))
      ⟨false, [1, 6]⟩ (by simp)
    exact absurd (ScanKey.within_iff.mp hsecond) (by decide)
  constructor
  · obtain ⟨row, rfl, hviolates⟩ := hnsw_not_honours (Q := @SortedQueue) (by simp) hnot
      distanceQueueWidth ⟨⟨0, 0, none, none⟩, ⟨0, 0⟩, false, false, none, false⟩
      (⟨true, []⟩, ⟨true, []⟩) ⟨true, false, false, Range.width 0, none⟩
    exact hviolates
  · obtain ⟨row, rfl, hviolates⟩ := sptag_not_honours (by simp) hnot
      ⟨⟨0, 0, none, none⟩, ⟨0, 0⟩, false, false, none, false⟩ (⟨true, []⟩, ⟨true, []⟩)
      ⟨true, false, false, Range.width 0, none, none⟩
    exact hviolates

end VBase.AccessMethod
