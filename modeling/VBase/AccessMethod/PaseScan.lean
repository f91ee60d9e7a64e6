import VBase.AccessMethod.ScanDesc
import VBase.Hnsw.Knn

/-! # The pase_hnsw access method

The first call of a scan asks `searchKnn` for a fixed number of elements, 188 in
the source, and queues them with the nearest on top. Every call reports one of
them. `xs_inorder` and the ORDER BY values are left as they were allocated.
-/

namespace VBase.AccessMethod

open VBase.Hnsw PriorityQueue

section Scan

variable (Q : {T K : Type} → [LinearOrder K] → (T → K) → Type) (D : Type) [LinearOrder D]

/-- `PASE_HNSWIndexScan::WorkSpace`. Results are queued by `1 - distance`, which reverses the
order of distances and does nothing else here. -/
structure PaseWorkSpace where
  array : List D
  result : Q (resultRank : Dᵒᵈ × UInt64 → Dᵒᵈ ×ₗ Nat)

/-- `PASE_HNSWScanOpaqueData`. -/
structure PaseScanOpaque where
  first : Bool
  workSpace : Option (PaseWorkSpace Q D)

/-- A scan: its descriptor, its private state, and the visited lists of the index. -/
structure PaseScan where
  scan : IndexScanDesc D
  scanState : PaseScanOpaque Q D
  world : VisitedListPool

end Scan

variable {Q : {T K : Type} → [LinearOrder K] → (T → K) → Type} [PriorityQueue Q]
variable {D : Type} [LinearOrder D]

/-- `pase_hnsw_begin_scan`. -/
def paseBeginScan (uninit : IndexScanDesc D) (junk : ScanKey D × ScanKey D)
    (nkeys norderbys : Nat) (world : VisitedListPool) : PaseScan Q D :=
  ⟨relationGetIndexScan uninit junk nkeys norderbys, ⟨true, none⟩, world⟩

/-- `pase_hnsw_rescan`; the workspace is deleted if there is one. -/
def paseRescan (s : PaseScan Q D) (keys orderbys : Option (ScanKey D)) : PaseScan Q D :=
  ⟨s.scan.setKeys keys orderbys, ⟨true, none⟩, s.world⟩

/-- A result of `searchKnn` as it is queued. -/
def nearestFirst (item : D × UInt64) : Dᵒᵈ × UInt64 := (OrderDual.toDual item.1, item.2)

variable (index : HierarchicalNSW D) (k : Nat)

/-- The branch of `pase_hnsw_gettuple` for the first call; false makes the call return false. -/
def paseFirst (s : PaseScan Q D) : Except Failure (Bool × PaseScan Q D) :=
  match s.scan.orderByData with
  | none => Except.error (Failure.elog "cannot scan sptag index without order")
  | some key =>
      if key.isNull then
        Except.ok (false,
          { s with scanState := { s.scanState with workSpace := some ⟨[], PriorityQueue.empty⟩ } })
      else
        let maxResult : Q (resultRank : D × UInt64 → D ×ₗ Nat) × VisitedListPool :=
          index.searchKnn key.argument k s.world
        Except.ok (true, ⟨s.scan, ⟨false, some ⟨key.argument,
          pushAll PriorityQueue.empty ((drain maxResult.1).map nearestFirst)⟩⟩, maxResult.2⟩)

/-- Report the result on top. -/
def paseFetch (s : PaseScan Q D) : Except Failure (Bool × PaseScan Q D) :=
  match s.scanState.workSpace with
  | none => Except.error (Failure.fault Fault.workSpace)
  | some workSpace =>
      match top workSpace.result with
      | none => Except.ok (false, s)
      | some item =>
          Except.ok (true,
            { s with
              scan := { s.scan with
                xsHeaptid := ItemPointer.ofLabel item.2, xsRecheckorderby := false }
              scanState := { s.scanState with
                workSpace := some { workSpace with result := pop workSpace.result } } })

def paseGettuple (s : PaseScan Q D) : Except Failure (Bool × PaseScan Q D) :=
  if s.scanState.first then
    match paseFirst index k s with
    | Except.error failure => Except.error failure
    | Except.ok (false, s) => Except.ok (false, s)
    | Except.ok (true, s) => paseFetch s
  else paseFetch s

/-! ## The results of a scan -/

/-- What the workspace of a scan still holds. -/
def queuedResults (s : PaseScan Q D) : Nat :=
  (s.scanState.workSpace.map fun workSpace => size workSpace.result).getD 0

/-- What a scan may still report. The first call fills the queue. -/
def paseRemaining (s : PaseScan Q D) : Nat :=
  if s.scanState.first then
    match paseFirst index k s with
    | Except.ok (true, s) => queuedResults s
    | _ => 0
  else queuedResults s

theorem paseFetch_remaining {s s' : PaseScan Q D} (hfetch : paseFetch s = Except.ok (true, s')) :
    queuedResults s' < queuedResults s ∧ s'.scanState.first = s.scanState.first := by
  unfold paseFetch at hfetch
  split at hfetch
  · simp at hfetch
  next workSpace hworkSpace =>
    split at hfetch
    · simp at hfetch
    next item htop =>
      simp only [Except.ok.injEq, Prod.mk.injEq, true_and] at hfetch
      subst hfetch
      have hpop := size_pop htop
      refine ⟨?_, rfl⟩
      simp only [queuedResults, hworkSpace, Option.map_some, Option.getD_some]
      omega

theorem paseFirst_later {s s' : PaseScan Q D}
    (hfirst : paseFirst index k s = Except.ok (true, s')) : s'.scanState.first = false := by
  unfold paseFirst at hfirst
  split at hfirst
  · simp at hfirst
  · split at hfirst
    · simp at hfirst
    · simp only [Except.ok.injEq, Prod.mk.injEq, true_and] at hfirst
      rw [← hfirst]

theorem paseGettuple_remaining {s s' : PaseScan Q D}
    (hget : paseGettuple index k s = Except.ok (true, s')) :
    paseRemaining index k s' < paseRemaining index k s := by
  unfold paseGettuple at hget
  split at hget
  next hfirst =>
    split at hget
    · simp at hget
    · simp at hget
    next opened hopened =>
      obtain ⟨hlt, hlater⟩ := paseFetch_remaining hget
      rw [paseFirst_later index k hopened] at hlater
      simpa [paseRemaining, hfirst, hlater, hopened] using hlt
  next hfirst =>
    obtain ⟨hlt, hlater⟩ := paseFetch_remaining hget
    simpa [paseRemaining, hfirst, hlater] using hlt

/-- A result is reported by its tuple identifier. -/
theorem paseFetch_some {s : PaseScan Q D} (hlater : s.scanState.first = false)
    {workSpace : PaseWorkSpace Q D} (hworkSpace : s.scanState.workSpace = some workSpace)
    {item : Dᵒᵈ × UInt64} (htop : top workSpace.result = some item) :
    ∃ s', paseFetch s = Except.ok (true, s') ∧ s'.scanState.first = false ∧
      s'.scanState.workSpace = some { workSpace with result := pop workSpace.result } ∧
      s'.scan.xsHeaptid = ItemPointer.ofLabel item.2 ∧ s'.scan.xsRecheckorderby = false := by
  simp only [paseFetch, hworkSpace, htop]
  exact ⟨_, rfl, hlater, rfl, rfl, rfl⟩

end VBase.AccessMethod
