import VBase.AccessMethod.ScanDesc

/-! # The hnsw access method

`hnsw_begin_scan`, `hnsw_rescan`, `hnsw_gettuple` and `hnsw_endscan`. A scan
with an ORDER BY key reports every result, and raises `xs_inorder` at the first
that is farther than a whole window of earlier results. A scan with a range key
reports results within a radius, and gives up when its results stop improving or
leave the range.
-/

namespace VBase.AccessMethod

open PriorityQueue

/-- The `range` field. The source keeps one float in it: the radius of a range scan, or
the width of the distance queue of an ORDER BY scan. -/
inductive Range (D : Type)
  | radius (bound : D)
  | width (count : Nat)

namespace Range

variable {D : Type} [LinearOrder D]

/-- `result->GetDistance() > scanState->range`, reached only with a range filter. -/
def exceededBy : Range D → D → Bool
  | radius bound, dist => decide (bound < dist)
  | width _, _ => false

/-- `distanceQueue.size() == scanState->range`, reached only without a range filter. -/
def filledBy : Range D → Nat → Bool
  | radius _, _ => false
  | width count, size => size == count

end Range

/-- `scanState->range` of an ORDER BY scan. -/
def distanceQueueWidth : Nat := 86

def distanceThreshold : Nat := 3

def queueThreshold : Nat := 50

variable (Q : {T K : Type} → [LinearOrder K] → (T → K) → Type) (D I W : Type) [LinearOrder D]

/-- `HNSWIndexScan::WorkSpace`. -/
structure HNSWWorkSpace where
  resultIterator : Option I
  array : List D
  distanceQueue : Q (id : D → D)

/-- `HNSWScanOpaqueData`. -/
structure HNSWScanOpaque where
  first : Bool
  hasRangeFilter : Bool
  inRange : Bool
  range : Range D
  workSpace : Option (HNSWWorkSpace Q D I)

/-- A scan: its descriptor, its private state, and what the library keeps elsewhere. -/
structure HNSWScan where
  scan : IndexScanDesc D
  scanState : HNSWScanOpaque Q D I
  world : W

/-- The variables that the filter of `hnsw_gettuple` reads and writes. -/
structure HNSWFilter where
  xsInorder : Bool
  inRange : Bool
  distanceQueue : Q (id : D → D)
  i : Nat

variable {Q D I W} [PriorityQueue Q]

/-- `distanceQueue.top() > dist`. -/
def topAbove (queue : Q (id : D → D)) (dist : D) : Bool :=
  (top queue).any fun greatest => decide (dist < greatest)

/-- `distanceQueue.top() < dist`. -/
def topBelow (queue : Q (id : D → D)) (dist : D) : Bool :=
  (top queue).any fun greatest => decide (greatest < dist)

/-- Push onto a queue that is kept at most `full` elements long. -/
def replaceTop (queue : Q (id : D → D)) (full : Bool) (dist : D) : Q (id : D → D) :=
  push (if full then pop queue else queue) dist

/-- The loop body with a range filter. -/
def rangeTurn (range : Range D) (dist : D) (filter : HNSWFilter Q D) :
    Turn × HNSWFilter Q D :=
  let size := size filter.distanceQueue
  if !filter.inRange && !(decide (size < queueThreshold) || topAbove filter.distanceQueue dist) then
    (Turn.stop, filter)
  else
    let queue := if filter.inRange then filter.distanceQueue
      else replaceTop filter.distanceQueue (size == queueThreshold) dist
    if range.exceededBy dist then
      let i := filter.i + 1
      (if filter.inRange && decide (distanceThreshold ≤ i) then Turn.stop else Turn.skip,
        { filter with distanceQueue := queue, i := i })
    else (Turn.emit, { filter with distanceQueue := queue, inRange := true })

/-- The loop body of an ORDER BY scan. Once raised, `xs_inorder` stays. -/
def orderTurn (range : Range D) (dist : D) (filter : HNSWFilter Q D) :
    Turn × HNSWFilter Q D :=
  let full := range.filledBy (size filter.distanceQueue)
  if filter.xsInorder then (Turn.emit, filter)
  else if full && topBelow filter.distanceQueue dist then
    (Turn.emit, { filter with xsInorder := true })
  else
    (Turn.emit, { filter with distanceQueue := replaceTop filter.distanceQueue full dist })

theorem orderTurn_emit (range : Range D) (dist : D) (filter : HNSWFilter Q D) :
    (orderTurn range dist filter).1 = Turn.emit := by
  unfold orderTurn
  dsimp only
  split
  · rfl
  · split <;> rfl

def hnswTurn (hasRangeFilter : Bool) (range : Range D) (dist : D) (filter : HNSWFilter Q D) :
    Turn × HNSWFilter Q D :=
  if hasRangeFilter then rangeTurn range dist filter else orderTurn range dist filter

variable (lib : IteratorLibrary D I W)

/-- `EndScan(resultIterator)`, which calls `Close` through the pointer. -/
def endScan (resultIterator : Option I) (world : W) : Except Fault W :=
  match resultIterator with
  | none => Except.error Fault.resultIterator
  | some iter => Except.ok (lib.close iter world)

/-- `hnsw_begin_scan`. The private state is allocated uninitialised, too. -/
def hnswBeginScan (uninit : IndexScanDesc D) (junk : ScanKey D × ScanKey D)
    (state : HNSWScanOpaque Q D I) (nkeys norderbys : Nat) (world : W) : HNSWScan Q D I W :=
  ⟨relationGetIndexScan uninit junk nkeys norderbys,
    { state with first := true, workSpace := none }, world⟩

def hnswRescan (s : HNSWScan Q D I W) (keys orderbys : Option (ScanKey D)) :
    Except Fault (HNSWScan Q D I W) := do
  let world ← match s.scanState.workSpace with
    | none => pure s.world
    | some workSpace => endScan lib workSpace.resultIterator s.world
  return ⟨s.scan.setKeys keys orderbys, { s.scanState with first := true, workSpace := none },
    world⟩

/-- Leave the first call with a bare workspace: the key is missing or null. -/
def HNSWScan.bare (s : HNSWScan Q D I W) : HNSWScan Q D I W :=
  { s with scanState := { s.scanState with workSpace := some ⟨none, [], PriorityQueue.empty⟩ } }

/-- Complete the first call: open the iterator for `target`. -/
def HNSWScan.start (s : HNSWScan Q D I W) (state : HNSWScanOpaque Q D I)
    (array target : List D) : HNSWScan Q D I W :=
  let opened := lib.create target s.world
  ⟨{ s.scan with xsInorder := false },
    { state with first := false, workSpace := some ⟨some opened.1, array, PriorityQueue.empty⟩ },
    opened.2⟩

/-- A search that has anything to compare its query with reads it through `array.data()`, which is
null for an empty array. -/
def hnswReadQuery (readsQuery : Bool) (array : List D) : Except Fault Unit :=
  if readsQuery && array.isEmpty then Except.error Fault.array else Except.ok ()

/-- The branch of `hnsw_gettuple` for the first call; false makes the call return false. -/
def hnswFirst (readsQuery : Bool) (width : Nat) (s : HNSWScan Q D I W) :
    Except Fault (Bool × HNSWScan Q D I W) :=
  match s.scan.orderByData with
  | none =>
      match s.scan.keyData with
      | none => Except.ok (false, s.bare)
      | some key =>
          if key.isNull then Except.ok (false, s.bare)
          else
            match key.argument with
            | [] => Except.error Fault.array
            | radius :: target => do
                hnswReadQuery readsQuery (radius :: target)
                return (true, s.start lib { s.scanState with
                  hasRangeFilter := true, inRange := false, range := Range.radius radius }
                  (radius :: target) target)
  | some key =>
      if key.isNull then Except.ok (false, s.bare)
      else do
        hnswReadQuery readsQuery key.argument
        return (true, s.start lib { s.scanState with
          hasRangeFilter := false, range := Range.width width } key.argument key.argument)

/-- The variables of the filter at the start of a call. -/
def HNSWScan.filter (s : HNSWScan Q D I W) (workSpace : HNSWWorkSpace Q D I) : HNSWFilter Q D :=
  ⟨s.scan.xsInorder, s.scanState.inRange, workSpace.distanceQueue, 0⟩

/-- The scan after the loop, with the tuple that it returns. -/
def HNSWScan.store (s : HNSWScan Q D I W) (workSpace : HNSWWorkSpace Q D I)
    (ran : Fetching D I W (HNSWFilter Q D)) : HNSWScan Q D I W :=
  let scan := { s.scan with xsInorder := ran.filter.xsInorder }
  ⟨match ran.outcome with
    | some (some (label, dist)) =>
        { scan with
          xsHeaptid := ItemPointer.ofLabel label
          xsOrderbyval := some dist
          xsRecheckorderby := false }
    | _ => scan,
    { s.scanState with
      inRange := ran.filter.inRange
      workSpace := some { workSpace with
        resultIterator := some ran.iter
        distanceQueue := ran.filter.distanceQueue } },
    ran.world⟩

/-- Everything after the first-call branch. -/
def hnswFetch (s : HNSWScan Q D I W) : Except Fault (Bool × HNSWScan Q D I W) :=
  match s.scanState.workSpace with
  | none => Except.error Fault.workSpace
  | some workSpace =>
      match workSpace.resultIterator with
      | none => Except.error Fault.resultIterator
      | some iter =>
          let ran := Fetching.run lib (hnswTurn s.scanState.hasRangeFilter s.scanState.range)
            iter s.world (s.filter workSpace)
          Except.ok (ran.outcome.join.isSome, s.store workSpace ran)

/-- `hnsw_gettuple`, with the width of its distance queue as a parameter, and with whether a
search reads its query. -/
def hnswGettupleOver (readsQuery : Bool) (width : Nat) (s : HNSWScan Q D I W) :
    Except Fault (Bool × HNSWScan Q D I W) := do
  let (started, s) ← if s.scanState.first then hnswFirst lib readsQuery width s else pure (true, s)
  if started then hnswFetch lib s else return (false, s)

/-- `hnsw_gettuple` with queries that a search may read. -/
def hnswGettuple (width : Nat) (s : HNSWScan Q D I W) : Except Fault (Bool × HNSWScan Q D I W) :=
  hnswGettupleOver lib false width s

/-- `hnsw_endscan`; the result is what the library keeps. -/
def hnswEndscan (s : HNSWScan Q D I W) : Except Fault W :=
  match s.scanState.workSpace with
  | none => Except.error Fault.workSpace
  | some workSpace => endScan lib workSpace.resultIterator s.world

/-! ## The query of a session -/

inductive Query (D : Type)
  | order (target : List D)
  | range (radius : D) (target : List D)

/-- The array of the key. -/
def Query.array {D : Type} : Query D → List D
  | order target => target
  | range radius target => radius :: target

/-- The query array that a search is opened for, without the radius of a range key. -/
def Query.target {D : Type} : Query D → List D
  | order target => target
  | range _ target => target

/-- What an ORDER BY key asks for; `none` for a null key. -/
def ScanKey.askOrder {D : Type} (key : ScanKey D) : Option (Except Fault (Query D)) :=
  if key.isNull then none else some (Except.ok (Query.order key.argument))

/-- What a range key asks for. The radius is read from the front of the array. -/
def ScanKey.askRange {D : Type} (key : ScanKey D) : Option (Except Fault (Query D)) :=
  if key.isNull then none
  else
    match key.argument with
    | [] => some (Except.error Fault.array)
    | radius :: target => some (Except.ok (Query.range radius target))

/-- An ORDER BY key takes precedence over a range key. -/
def ScanKeys.ask {D : Type} (scan : ScanKeys D) : Option (Except Fault (Query D)) :=
  match scan.orderByData with
  | some key => key.askOrder
  | none => scan.keyData.bind ScanKey.askRange

/-- The scan after the first-call branch, once a search has begun. -/
def HNSWScan.started (width : Nat) (s : HNSWScan Q D I W) : Query D → HNSWScan Q D I W
  | Query.order target =>
      s.start lib { s.scanState with hasRangeFilter := false, range := Range.width width }
        target target
  | Query.range radius target =>
      s.start lib { s.scanState with
        hasRangeFilter := true, inRange := false, range := Range.radius radius }
        (radius :: target) target

/-- The first-call branch depends on the keys only through what they ask for. -/
theorem hnswFirst_eq (readsQuery : Bool) (width : Nat) (s : HNSWScan Q D I W) :
    hnswFirst lib readsQuery width s =
      match s.scan.toScanKeys.ask with
      | none => Except.ok (false, s.bare)
      | some asked => asked.bind fun query =>
          (hnswReadQuery readsQuery query.array).map fun _ =>
            (true, s.started lib width query) := by
  unfold ScanKeys.ask hnswFirst
  cases s.scan.orderByData with
  | some key =>
      obtain ⟨isNull, argument⟩ := key
      cases isNull <;> rfl
  | none =>
      cases s.scan.keyData with
      | none => rfl
      | some key =>
          obtain ⟨isNull, argument⟩ := key
          cases isNull with
          | true => rfl
          | false => cases argument <;> rfl

/-- Before the first row of a session, the key decides what `hnsw_gettuple` does. -/
theorem hnswGettupleOver_first (readsQuery : Bool) {width : Nat} {s : HNSWScan Q D I W}
    (hfirst : s.scanState.first = true) :
    hnswGettupleOver lib readsQuery width s =
      match s.scan.toScanKeys.ask with
      | none => Except.ok (false, s.bare)
      | some asked => asked.bind fun query =>
          (hnswReadQuery readsQuery query.array).bind fun _ =>
            hnswFetch lib (s.started lib width query) := by
  simp only [hnswGettupleOver, hfirst, if_pos, hnswFirst_eq]
  rcases s.scan.toScanKeys.ask with _ | (fault | query)
  · rfl
  · rfl
  · change Except.bind (Except.map _ (hnswReadQuery readsQuery query.array)) _ =
      Except.bind (hnswReadQuery readsQuery query.array) _
    cases hnswReadQuery readsQuery query.array <;> rfl

theorem hnswGettupleOver_later (readsQuery : Bool) {width : Nat} {s : HNSWScan Q D I W}
    (hfirst : s.scanState.first = false) :
    hnswGettupleOver lib readsQuery width s = hnswFetch lib s := by
  simp only [hnswGettupleOver, hfirst]
  rfl

/-- The first call of a session opens the search and runs the loop. -/
theorem hnswGettuple_first {width : Nat} {s : HNSWScan Q D I W} {query : Query D}
    (hfirst : s.scanState.first = true)
    (hquery : s.scan.toScanKeys.ask = some (Except.ok query)) :
    hnswGettuple lib width s = hnswFetch lib (s.started lib width query) := by
  rw [hnswGettuple, hnswGettupleOver_first lib false hfirst, hquery]
  rfl

theorem hnswGettuple_fault {width : Nat} {s : HNSWScan Q D I W} {fault : Fault}
    (hfirst : s.scanState.first = true)
    (hquery : s.scan.toScanKeys.ask = some (Except.error fault)) :
    hnswGettuple lib width s = Except.error fault := by
  rw [hnswGettuple, hnswGettupleOver_first lib false hfirst, hquery]
  rfl

/-- Without a key a call returns false. -/
theorem hnswGettuple_bare {width : Nat} {s : HNSWScan Q D I W}
    (hfirst : s.scanState.first = true) (hquery : s.scan.toScanKeys.ask = none) :
    hnswGettuple lib width s = Except.ok (false, s.bare) := by
  rw [hnswGettuple, hnswGettupleOver_first lib false hfirst, hquery]

theorem hnswGettuple_later {width : Nat} {s : HNSWScan Q D I W}
    (hfirst : s.scanState.first = false) : hnswGettuple lib width s = hnswFetch lib s :=
  hnswGettupleOver_later lib false hfirst

/-- The first call does what a call on the scan that it starts would do. -/
theorem hnswGettuple_started (width : Nat) {s : HNSWScan Q D I W} {query : Query D}
    (hfirst : s.scanState.first = true)
    (hask : s.scan.toScanKeys.ask = some (Except.ok query)) :
    hnswGettuple lib width s = hnswGettuple lib width (s.started lib width query) := by
  have hstarted : (s.started lib width query).scanState.first = false := by
    cases query <;> rfl
  rw [hnswGettuple_first lib hfirst hask, hnswGettuple_later lib hstarted]

omit [PriorityQueue Q] in
/-- A rescan of a new scan with an ORDER BY key that is not null waits for its first call. -/
theorem rescan_order (uninit : IndexScanDesc D) (junk : ScanKey D × ScanKey D)
    (state : HNSWScanOpaque Q D I) (nkeys norderbys : Nat) (world : W)
    (keys : Option (ScanKey D)) (target : List D) :
    ∃ start, hnswRescan lib (hnswBeginScan uninit junk state nkeys (norderbys + 1) world) keys
        (some ⟨false, target⟩) = Except.ok start ∧ start.scanState.first = true ∧
      start.scan.toScanKeys.ask = some (Except.ok (Query.order target)) ∧ start.world = world :=
  ⟨_, rfl, rfl, rfl, rfl⟩

end VBase.AccessMethod
