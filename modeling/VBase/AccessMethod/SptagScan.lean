import VBase.AccessMethod.HnswScan

/-! # The sptag access method

The same four operations over an SPTAG index. The query is copied into a buffer
of its own, `xs_inorder` is not written, and there is no distance queue.
-/

namespace VBase.AccessMethod

/-- The threshold of the range filter of `sptag_gettuple`. -/
def sptagThreshold : Nat := 5

/-- `SPTAGScanOpaqueData`. The iterator is the only member of its workspace, and `data` is
the copy of the query, whose `Data()` is null if it is empty. -/
structure SPTAGScanOpaque (D I : Type) where
  first : Bool
  hasRangeFilter : Bool
  inRange : Bool
  range : Range D
  data : Option (List D)
  workSpace : Option (Option I)

structure SPTAGScan (D I W : Type) where
  scan : IndexScanDesc D
  scanState : SPTAGScanOpaque D I
  world : W

variable {D I W : Type} [LinearOrder D]

/-- The loop body of `sptag_gettuple`, over `inRange` and `i`. -/
def sptagTurn (hasRangeFilter : Bool) (range : Range D) (dist : D) (filter : Bool × Nat) :
    Turn × (Bool × Nat) :=
  if hasRangeFilter then
    if range.exceededBy dist then
      let i := filter.2 + 1
      (if filter.1 && decide (sptagThreshold ≤ i) then Turn.stop else Turn.skip, (filter.1, i))
    else (Turn.emit, (true, filter.2))
  else (Turn.emit, filter)

variable (lib : IteratorLibrary D I W)

/-- `data->Clear()`. -/
def clearData (data : Option (List D)) : Except Fault Unit :=
  match data with
  | none => Except.error Fault.data
  | some _ => Except.ok ()

omit [LinearOrder D] in
/-- `sptag_begin_scan`. -/
def sptagBeginScan (uninit : IndexScanDesc D) (junk : ScanKey D × ScanKey D)
    (state : SPTAGScanOpaque D I) (nkeys norderbys : Nat) (world : W) : SPTAGScan D I W :=
  ⟨relationGetIndexScan uninit junk nkeys norderbys,
    { state with first := true, workSpace := none }, world⟩

def sptagRescan (s : SPTAGScan D I W) (keys orderbys : Option (ScanKey D)) :
    Except Fault (SPTAGScan D I W) := do
  let world ← match s.scanState.workSpace with
    | none => pure s.world
    | some resultIterator => do
        let world ← endScan lib resultIterator s.world
        clearData s.scanState.data
        pure world
  return ⟨s.scan.setKeys keys orderbys, { s.scanState with first := true, workSpace := none },
    world⟩

/-- Leave the first call with a bare workspace and an empty buffer. -/
def SPTAGScan.bare (s : SPTAGScan D I W) : SPTAGScan D I W :=
  { s with scanState := { s.scanState with workSpace := some none, data := some [] } }

/-- Complete the first call: copy the query and open the iterator for it. -/
def SPTAGScan.start (s : SPTAGScan D I W) (state : SPTAGScanOpaque D I) (target : List D) :
    SPTAGScan D I W :=
  let opened := lib.create target s.world
  ⟨s.scan, { state with first := false, data := some target, workSpace := some (some opened.1) },
    opened.2⟩

/-- What `vector_index_map` has for the path of a relation. `LoadIndex` ignores the error code of
SPTAG, so the pointer may be null and the index may not be ready. `readsQuery` says whether a
search has anything to compare its query with. -/
inductive VectorIndexEntry
  | null
  | notReady
  | ready (readsQuery : Bool)
  deriving DecidableEq

/-- `BeginScan` and the first `Next`. `GetIterator` of an index that is not ready returns null, and
the search reads the query through `data->Data()`. -/
def VectorIndexEntry.beginScan : VectorIndexEntry → List D → Except Fault Unit
  | null, _ => Except.error Fault.vectorIndex
  | notReady, _ => Except.error Fault.resultIterator
  | ready readsQuery, target =>
      if readsQuery && target.isEmpty then Except.error Fault.data else Except.ok ()

/-- The branch of `sptag_gettuple` for the first call. -/
def sptagFirst (entry : VectorIndexEntry) (s : SPTAGScan D I W) :
    Except Fault (Bool × SPTAGScan D I W) :=
  match s.scan.orderByData with
  | none =>
      match s.scan.keyData with
      | none => Except.ok (false, s.bare)
      | some key =>
          if key.isNull then Except.ok (false, s.bare)
          else
            match key.argument with
            | [] => Except.error Fault.array
            | radius :: target => do
                entry.beginScan target
                return (true, s.start lib { s.scanState with
                  hasRangeFilter := true, inRange := false, range := Range.radius radius } target)
  | some key =>
      if key.isNull then Except.ok (false, s.bare)
      else do
        entry.beginScan key.argument
        return (true, s.start lib { s.scanState with hasRangeFilter := false } key.argument)

/-- The scan after the loop, with the tuple that it returns. -/
def SPTAGScan.store (s : SPTAGScan D I W) (ran : Fetching D I W (Bool × Nat)) :
    SPTAGScan D I W :=
  ⟨match ran.outcome with
    | some (some (label, dist)) =>
        { s.scan with
          xsHeaptid := ItemPointer.ofLabel label
          xsOrderbyval := some dist
          xsRecheckorderby := false }
    | _ => s.scan,
    { s.scanState with inRange := ran.filter.1, workSpace := some (some ran.iter) },
    ran.world⟩

/-- Everything after the first-call branch. -/
def sptagFetch (s : SPTAGScan D I W) : Except Fault (Bool × SPTAGScan D I W) :=
  match s.scanState.workSpace with
  | none => Except.error Fault.workSpace
  | some none => Except.error Fault.resultIterator
  | some (some iter) =>
      let ran := Fetching.run lib (sptagTurn s.scanState.hasRangeFilter s.scanState.range)
        iter s.world (s.scanState.inRange, 0)
      Except.ok (ran.outcome.join.isSome, s.store ran)

/-- `sptag_gettuple`. -/
def sptagGettupleOver (entry : VectorIndexEntry) (s : SPTAGScan D I W) :
    Except Fault (Bool × SPTAGScan D I W) := do
  let (started, s) ← if s.scanState.first then sptagFirst lib entry s else pure (true, s)
  if started then sptagFetch lib s else return (false, s)

/-- `sptag_gettuple` over an index that is ready, with queries that a search may read. -/
def sptagGettuple (s : SPTAGScan D I W) : Except Fault (Bool × SPTAGScan D I W) :=
  sptagGettupleOver lib (VectorIndexEntry.ready false) s

/-- `sptag_endscan`; the result is what the library keeps. -/
def sptagEndscan (s : SPTAGScan D I W) : Except Fault W :=
  match s.scanState.workSpace with
  | none => Except.error Fault.workSpace
  | some resultIterator => do
      let world ← endScan lib resultIterator s.world
      clearData s.scanState.data
      pure world

end VBase.AccessMethod
