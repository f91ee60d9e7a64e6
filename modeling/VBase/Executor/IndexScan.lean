import VBase.Executor.Node
import Mathlib.Order.WithBot

/-! # The IndexScan node

`IndexNext` and `IndexNextWithReorder`. Both fetch tuples through the access
method until one passes the recheck, and copy `xs_inorder` to the execution state
for every tuple they fetch, whatever the access method. The second returns tuples
by their ORDER BY values: where the index gave a lower bound only, a tuple waits
in a queue until the index has passed its value.
-/

namespace VBase.Executor

open AccessMethod PriorityQueue

/-- An index access method as a scan with given keys uses it. `beginscan` is
`index_beginscan` followed by `index_rescan`. -/
structure IndexAm (D A : Type) where
  beginscan : Except Failure A
  gettuple : A → Except Failure (Bool × A)
  desc : A → IndexScanDesc D
  remaining : A → Nat
  gettuple_remaining : ∀ scan after, gettuple scan = Except.ok (true, after) →
    remaining after < remaining scan

/-- `index_getnext_tid`, with the descriptor as the access method leaves it. -/
def IndexAm.getnextTid {D A : Type} (am : IndexAm D A) : Source A Failure (IndexScanDesc D) where
  pull := fun scan =>
    match am.gettuple scan with
    | Except.error failure => Except.error failure
    | Except.ok (found, after) => Except.ok (if found then some (am.desc after) else none, after)
  remaining := am.remaining
  pull_remaining := by
    intro scan desc after hpull
    split at hpull
    · simp at hpull
    next found next hget =>
      cases found with
      | false => simp at hpull
      | true =>
          simp only [if_true, Except.ok.injEq, Prod.mk.injEq] at hpull
          exact hpull.2 ▸ am.gettuple_remaining scan next hget

/-- The index scan of a plan: its access method, the tuple that the query's snapshot sees
under a tuple identifier, and the original index quals and ORDER BY expression. -/
structure IndexScan (D A α : Type) where
  am : IndexAm D A
  fetchTuple : ItemPointer → Option α
  indexqualorig : α → Bool
  indexorderbyorig : α → Option D

variable {D A α : Type} [LinearOrder D]

/-- ORDER BY values are compared with nulls last. -/
def nullsLast (value : Option D) : WithTop D := value

/-- A tuple in the reorder queue. -/
structure ReorderTuple (D α : Type) where
  htup : α
  orderbyval : Option D

/-- The pairing heap has its greatest element on top, so the order is inverted. -/
def reorderqueueRank (tuple : ReorderTuple D α) : (WithTop D)ᵒᵈ :=
  OrderDual.toDual (nullsLast tuple.orderbyval)

/-- `IndexScanState`. -/
structure IndexScanState (Q : {T K : Type} → [LinearOrder K] → (T → K) → Type) (D A α : Type)
    [LinearOrder D] where
  scanDesc : Option A
  reachedEnd : Bool
  reorderQueue : Q (reorderqueueRank : ReorderTuple D α → (WithTop D)ᵒᵈ)

/-- The variables of the loop in `IndexNextWithReorder`. -/
structure Reordering (Q : {T K : Type} → [LinearOrder K] → (T → K) → Type) (D A α : Type)
    [LinearOrder D] where
  scan : A
  estate : EState
  reorderQueue : Q (reorderqueueRank : ReorderTuple D α → (WithTop D)ᵒᵈ)
  reachedEnd : Bool
  topmost : Option (Option D)
  outcome : Option (Except Failure (Option α))

variable {Q : {T K : Type} → [LinearOrder K] → (T → K) → Type} [PriorityQueue Q]

/-- An index scan that has not run. -/
def IndexScanState.init : IndexScanState Q D A α := ⟨none, false, PriorityQueue.empty⟩

namespace IndexScan

variable (plan : IndexScan D A α)

/-- `index_getnext_slot`: skip index entries whose tuple is not visible. -/
def getnextSlot : Source A Failure (α × IndexScanDesc D) :=
  plan.am.getnextTid.search fun desc => (plan.fetchTuple desc.xsHeaptid).map (·, desc)

/-- Take the flag of a fetched tuple, and drop the tuple if it fails the recheck. -/
def recheck (tuple : α × IndexScanDesc D) (_ : A)
    (acc : EState × Option (α × IndexScanDesc D)) :
    (EState × Option (α × IndexScanDesc D)) × Bool :=
  let estate := { acc.1 with isIndexInorder := tuple.2.xsInorder }
  if tuple.2.xsRecheck && !plan.indexqualorig tuple.1 then ((estate, none), false)
  else ((estate, some tuple), true)

/-- Fetch from the index until a tuple passes the recheck. -/
def nextTuple (scan : A) (estate : EState) :
    Except Failure (A × EState × Option (α × IndexScanDesc D)) :=
  plan.getnextSlot.drive plan.recheck scan (estate, none)

/-- The scan descriptor, which the first call creates. -/
def scanDesc (scan : Option A) : Except Failure A :=
  match scan with
  | some scan => Except.ok scan
  | none => plan.am.beginscan

def indexNext (node : IndexScanState Q D A α) (estate : EState) :
    Except Failure (Option α × IndexScanState Q D A α × EState) :=
  match plan.scanDesc node.scanDesc with
  | Except.error failure => Except.error failure
  | Except.ok scan =>
      match plan.nextTuple scan estate with
      | Except.error failure => Except.error failure
      | Except.ok (scan, estate, tuple) =>
          Except.ok (tuple.map Prod.fst,
            { node with scanDesc := some scan, reachedEnd := node.reachedEnd || tuple.isNone },
            estate)

/-- The ORDER BY value of a fetched tuple, and whether the index gave it exactly. -/
def lastfetched (tuple : α × IndexScanDesc D) : Bool × Option D :=
  if tuple.2.xsRecheckorderby then
    (decide (nullsLast (plan.indexorderbyorig tuple.1) = nullsLast tuple.2.xsOrderbyval),
      plan.indexorderbyorig tuple.1)
  else (true, tuple.2.xsOrderbyval)

/-- The part of a turn after `next_indextuple`. -/
def fetchTurn (state : Reordering Q D A α) : Reordering Q D A α :=
  match plan.nextTuple state.scan state.estate with
  | Except.error failure => { state with outcome := some (Except.error failure) }
  | Except.ok (scan, estate, none) =>
      { state with scan := scan, estate := estate, reachedEnd := true }
  | Except.ok (scan, estate, some tuple) =>
      let (wasExact, value) := plan.lastfetched tuple
      if !wasExact || state.topmost.any (fun top => decide (nullsLast top < nullsLast value)) then
        { state with
          scan := scan
          estate := estate
          reorderQueue := push state.reorderQueue ⟨tuple.1, value⟩ }
      else
        { state with scan := scan, estate := estate, outcome := some (Except.ok (some tuple.1)) }

/-- One turn of the loop in `IndexNextWithReorder`. -/
def reorderTurn (state : Reordering Q D A α) : Option (Reordering Q D A α) :=
  if state.outcome.isSome then none
  else
    match top state.reorderQueue with
    | some topmost =>
        if state.reachedEnd || decide (nullsLast topmost.orderbyval ≤
            nullsLast (plan.am.desc state.scan).xsOrderbyval) then
          some { state with
            reorderQueue := pop state.reorderQueue
            topmost := some topmost.orderbyval
            outcome := some (Except.ok (some topmost.htup)) }
        else some (plan.fetchTurn { state with topmost := some topmost.orderbyval })
    | none =>
        if state.reachedEnd then some { state with outcome := some (Except.ok none) }
        else some (plan.fetchTurn state)

/-- At most one turn follows the end of the index. -/
def reorderMeasure (state : Reordering Q D A α) : Nat :=
  if state.outcome.isSome then 0
  else if state.reachedEnd then 1
  else plan.am.remaining state.scan + 2

/-- The whole loop. -/
def reorder (state : Reordering Q D A α) : Reordering Q D A α :=
  Loop.run plan.reorderMeasure plan.reorderTurn state

def indexNextWithReorder (node : IndexScanState Q D A α) (estate : EState) :
    Except Failure (Option α × IndexScanState Q D A α × EState) :=
  match plan.scanDesc node.scanDesc with
  | Except.error failure => Except.error failure
  | Except.ok scan =>
      let final := plan.reorder
        ⟨scan, estate, node.reorderQueue, node.reachedEnd, none, none⟩
      (final.outcome.getD (Except.ok none)).map fun row =>
        (row, ⟨some final.scan, final.reachedEnd, final.reorderQueue⟩, final.estate)

/-! ## The nodes -/

/-- How many tuples the index may still return, at most. -/
def indexAhead (node : IndexScanState Q D A α) : Nat :=
  match plan.scanDesc node.scanDesc with
  | Except.ok scan => plan.am.remaining scan
  | Except.error _ => 0

/-- How many tuples a node may still return, at most. Without ORDER BY keys nothing is queued,
and the end of the index is not remembered. -/
def remaining (numOrderByKeys : Nat) (node : IndexScanState Q D A α) : Nat :=
  if 0 < numOrderByKeys then
    size node.reorderQueue + if node.reachedEnd then 0 else plan.indexAhead node
  else plan.indexAhead node

/-- `ExecIndexScan` of a scan without a filter and without a projection. -/
def execIndexScan (numOrderByKeys : Nat) (node : IndexScanState Q D A α) (estate : EState) :
    Except Failure (Option α × IndexScanState Q D A α × EState) :=
  if 0 < numOrderByKeys then plan.indexNextWithReorder node estate else plan.indexNext node estate

variable {plan}

omit [LinearOrder D] in
theorem recheck_found (tuple : α × IndexScanDesc D) (scan : A)
    (acc : EState × Option (α × IndexScanDesc D)) :
    (plan.recheck tuple scan acc).1.2.isSome = (plan.recheck tuple scan acc).2 := by
  unfold recheck
  split <;> rfl

omit [LinearOrder D] in
/-- A tuple that was found has been taken from the index. -/
theorem nextTuple_remaining {scan after : A} {estate estate' : EState}
    {tuple : α × IndexScanDesc D}
    (hnext : plan.nextTuple scan estate = Except.ok (after, estate', some tuple)) :
    plan.am.remaining after < plan.am.remaining scan := by
  have hdrive : plan.getnextSlot.drive plan.recheck scan (estate, none) =
    Except.ok (after, estate', some tuple) := hnext
  exact Source.drive_found (fun acc => acc.2.isSome = true)
    (fun tuple scan acc hfound => recheck_found tuple scan acc ▸ hfound) (by simp) rfl hdrive

/-- What the loop still has ahead of it: the queue, and the rest of the index. -/
def Reordering.ahead (plan : IndexScan D A α) (state : Reordering Q D A α) : Nat :=
  size state.reorderQueue + if state.reachedEnd then 0 else plan.am.remaining state.scan

/-- The loop has returned a row. -/
def Reordering.returned (state : Reordering Q D A α) : Prop :=
  ∃ row, state.outcome = some (Except.ok (some row))

/-- Fetching from the index keeps what is ahead, or takes the returned row off it. -/
theorem fetchTurn_ahead (state : Reordering Q D A α) (hend : state.reachedEnd = false)
    (hrunning : state.outcome = none) :
    Reordering.ahead plan (plan.fetchTurn state) ≤ Reordering.ahead plan state ∧
      (Reordering.returned (plan.fetchTurn state) →
        Reordering.ahead plan (plan.fetchTurn state) < Reordering.ahead plan state) ∧
      plan.reorderMeasure (plan.fetchTurn state) < plan.reorderMeasure state := by
  unfold fetchTurn
  split
  · simp [Reordering.ahead, Reordering.returned, reorderMeasure, hend, hrunning]
  · simp [Reordering.ahead, Reordering.returned, reorderMeasure, hend, hrunning]
  next scan estate tuple hnext =>
    have hlt := nextTuple_remaining hnext
    simp only
    split
    · refine ⟨?_, fun ⟨row, hrow⟩ => ?_, ?_⟩
      · simp only [Reordering.ahead, hend, size_push, Bool.false_eq_true, if_false]
        omega
      · simp [hrunning] at hrow
      · simp only [reorderMeasure, hend, hrunning, Option.isSome_none, Bool.false_eq_true, if_false]
        omega
    · refine ⟨?_, fun _ => ?_, ?_⟩
      · simp only [Reordering.ahead, hend, Bool.false_eq_true, if_false]
        omega
      · simp only [Reordering.ahead, hend, Bool.false_eq_true, if_false]
        omega
      · simp [reorderMeasure, hend, hrunning]

/-- A turn keeps what is ahead, or takes the returned row off it. -/
theorem reorderTurn_ahead {state next : Reordering Q D A α}
    (hturn : plan.reorderTurn state = some next) :
    Reordering.ahead plan next ≤ Reordering.ahead plan state ∧
      (Reordering.returned next → Reordering.ahead plan next < Reordering.ahead plan state) ∧
      plan.reorderMeasure next < plan.reorderMeasure state := by
  unfold reorderTurn at hturn
  split at hturn
  · simp at hturn
  next hrunning =>
    have hnone : state.outcome = none := by simpa using hrunning
    split at hturn
    next topmost htop =>
      split at hturn
      · obtain rfl := Option.some.inj hturn
        have hpop := size_pop htop
        have hpos : 0 < plan.reorderMeasure state := by
          unfold reorderMeasure
          rw [if_neg hrunning]
          split <;> omega
        refine ⟨?_, fun _ => ?_, by simpa [reorderMeasure] using hpos⟩ <;>
          simp only [Reordering.ahead, hpop] <;> omega
      next hwait =>
        obtain rfl := Option.some.inj hturn
        have hend : state.reachedEnd = false := by
          cases hreached : state.reachedEnd with
          | false => rfl
          | true => simp [hreached] at hwait
        exact fetchTurn_ahead { state with topmost := some topmost.orderbyval } hend hnone
    next htop =>
      split at hturn
      next hend =>
        obtain rfl := Option.some.inj hturn
        simp [Reordering.ahead, Reordering.returned, reorderMeasure, hend, hnone]
      next hend =>
        obtain rfl := Option.some.inj hturn
        exact fetchTurn_ahead state (Bool.eq_false_iff.mpr hend) hnone

theorem reorderTurn_decreases :
    Loop.Decreases plan.reorderMeasure (plan.reorderTurn : Reordering Q D A α → _) :=
  fun _ _ hturn => (reorderTurn_ahead hturn).2.2

theorem reorder_ahead (start : Reordering Q D A α) (hstart : start.outcome = none) :
    Reordering.returned (plan.reorder start) →
      Reordering.ahead plan (plan.reorder start) < Reordering.ahead plan start := by
  have hinit : ¬ Reordering.returned start := fun ⟨_, hrow⟩ => by simp [hstart] at hrow
  have hfinal := Loop.run_invariant reorderTurn_decreases
    (motive := fun state : Reordering Q D A α =>
      Reordering.ahead plan state ≤ Reordering.ahead plan start ∧
        (Reordering.returned state → Reordering.ahead plan state < Reordering.ahead plan start))
    (by
      intro state next hinv hturn
      obtain ⟨hle, hlt, _⟩ := reorderTurn_ahead hturn
      exact ⟨hle.trans hinv.1, fun hreturned => (hlt hreturned).trans_le hinv.1⟩)
    start ⟨le_rfl, fun hreturned => absurd hreturned hinit⟩
  exact hfinal.2

theorem indexNextWithReorder_ahead {node next : IndexScanState Q D A α}
    {estate after : EState} {row : α}
    (hnext : plan.indexNextWithReorder node estate = Except.ok (some row, next, after)) :
    (size next.reorderQueue + if next.reachedEnd then 0 else plan.indexAhead next) <
      size node.reorderQueue + if node.reachedEnd then 0 else plan.indexAhead node := by
  unfold indexNextWithReorder at hnext
  split at hnext
  · simp at hnext
  next scan hscan =>
    simp only at hnext
    generalize hfinal : plan.reorder
      (⟨scan, estate, node.reorderQueue, node.reachedEnd, none, none⟩ : Reordering Q D A α) =
        final at hnext
    cases houtcome : final.outcome.getD (Except.ok none) with
    | error failure => rw [houtcome] at hnext; simp [Except.map] at hnext
    | ok returned =>
        rw [houtcome] at hnext
        simp only [Except.map, Except.ok.injEq, Prod.mk.injEq] at hnext
        obtain ⟨rfl, rfl, rfl⟩ := hnext
        have hreturned : Reordering.returned final := by
          cases hsome : final.outcome with
          | none => rw [hsome] at houtcome; simp at houtcome
          | some outcome => rw [hsome] at houtcome; exact ⟨row, by rw [hsome, ← houtcome]; rfl⟩
        have hlt := reorder_ahead _ rfl (hfinal ▸ hreturned)
        rw [hfinal] at hlt
        simp only [indexAhead, hscan]
        exact hlt

omit [PriorityQueue Q] in
theorem indexNext_ahead {node next : IndexScanState Q D A α}
    {estate after : EState} {row : α}
    (hnext : plan.indexNext node estate = Except.ok (some row, next, after)) :
    plan.indexAhead next < plan.indexAhead node := by
  unfold indexNext at hnext
  split at hnext
  · simp at hnext
  next scan hscan =>
    split at hnext
    · simp at hnext
    next last estate' tuple htuple =>
      simp only [Except.ok.injEq, Prod.mk.injEq, Option.map_eq_some_iff] at hnext
      obtain ⟨⟨found, rfl, rfl⟩, rfl, rfl⟩ := hnext
      have hlt := nextTuple_remaining htuple
      simp only [indexAhead, hscan]
      exact hlt

variable (plan Q) in
/-- The IndexScan node. -/
def node (numOrderByKeys : Nat) : PlanNode (IndexScanState Q D A α) α where
  pull := fun (state, estate) => plan.execIndexScan numOrderByKeys state estate
  remaining := fun (state, _) => plan.remaining numOrderByKeys state
  pull_remaining := by
    rintro ⟨state, estate⟩ row ⟨next, after⟩ hpull
    by_cases hkeys : 0 < numOrderByKeys
    · simp only [execIndexScan, if_pos hkeys] at hpull
      simp only [remaining, if_pos hkeys]
      exact indexNextWithReorder_ahead hpull
    · simp only [execIndexScan, if_neg hkeys] at hpull
      simp only [remaining, if_neg hkeys]
      exact indexNext_ahead hpull

/-! ## Scans that need no reordering -/

/-- The tuple is visible and passes its recheck, and its ORDER BY value is exact. -/
structure Exact (plan : IndexScan D A α) (desc : IndexScanDesc D) : Prop where
  visible : ∃ row, plan.fetchTuple desc.xsHeaptid = some row ∧
    (desc.xsRecheck = true → plan.indexqualorig row = true)
  exact_value : desc.xsRecheckorderby = false

omit [LinearOrder D] in
theorem nextTuple_some {scan after : A} {desc : IndexScanDesc D} {row : α}
    (hpull : plan.am.getnextTid.pull scan = Except.ok (some desc, after))
    (hrow : plan.fetchTuple desc.xsHeaptid = some row)
    (hqual : desc.xsRecheck = true → plan.indexqualorig row = true) (estate : EState) :
    plan.nextTuple scan estate = Except.ok (after, ⟨desc.xsInorder⟩, some (row, desc)) := by
  have hslot : plan.getnextSlot.pull scan = Except.ok (some (row, desc), after) :=
    Source.search_pull_some hpull (by rw [hrow]; rfl)
  have htaken : plan.recheck (row, desc) after (estate, none) =
      ((⟨desc.xsInorder⟩, some (row, desc)), true) := by
    cases hrecheck : desc.xsRecheck with
    | false => simp [recheck, hrecheck]
    | true => simp [recheck, hqual hrecheck]
  rw [nextTuple, Source.drive_eq, hslot]
  simp only [htaken, if_true]

omit [LinearOrder D] in
theorem nextTuple_none {scan after : A}
    (hpull : plan.am.getnextTid.pull scan = Except.ok (none, after)) (estate : EState) :
    plan.nextTuple scan estate = Except.ok (after, estate, none) := by
  have hslot : plan.getnextSlot.pull scan = Except.ok (none, after) :=
    Source.search_pull_none hpull
  rw [nextTuple, Source.drive_eq, hslot]

/-- With an empty queue an exact tuple is returned at once. -/
theorem indexNextWithReorder_some {node : IndexScanState Q D A α} {scan after : A}
    {desc : IndexScanDesc D} {row : α} (hscan : plan.scanDesc node.scanDesc = Except.ok scan)
    (hend : node.reachedEnd = false) (hqueue : top node.reorderQueue = none)
    (hexact : desc.xsRecheckorderby = false) {estate estate' : EState}
    (hnext : plan.nextTuple scan estate = Except.ok (after, estate', some (row, desc))) :
    plan.indexNextWithReorder node estate =
      Except.ok (some row, ⟨some after, false, node.reorderQueue⟩, estate') := by
  have hturn : plan.reorderTurn ⟨scan, estate, node.reorderQueue, node.reachedEnd, none, none⟩ =
      some ⟨after, estate', node.reorderQueue, false, none, some (Except.ok (some row))⟩ := by
    simp [reorderTurn, hqueue, hend, fetchTurn, hnext, lastfetched, hexact]
  simp only [indexNextWithReorder, hscan, reorder, Loop.run_of_some reorderTurn_decreases hturn]
  rw [Loop.run_of_none rfl]
  rfl

theorem indexNextWithReorder_none {node : IndexScanState Q D A α} {scan after : A}
    (hscan : plan.scanDesc node.scanDesc = Except.ok scan) (hend : node.reachedEnd = false)
    (hqueue : top node.reorderQueue = none) {estate estate' : EState}
    (hnext : plan.nextTuple scan estate = Except.ok (after, estate', none)) :
    plan.indexNextWithReorder node estate =
      Except.ok (none, ⟨some after, true, node.reorderQueue⟩, estate') := by
  have hturn : plan.reorderTurn ⟨scan, estate, node.reorderQueue, node.reachedEnd, none, none⟩ =
      some ⟨after, estate', node.reorderQueue, true, none, none⟩ := by
    simp [reorderTurn, hqueue, hend, fetchTurn, hnext]
  have hdone : plan.reorderTurn ⟨after, estate', node.reorderQueue, true, none, none⟩ =
      some ⟨after, estate', node.reorderQueue, true, none, some (Except.ok none)⟩ := by
    simp [reorderTurn, hqueue]
  simp only [indexNextWithReorder, hscan, reorder, Loop.run_of_some reorderTurn_decreases hturn,
    Loop.run_of_some reorderTurn_decreases hdone]
  rw [Loop.run_of_none rfl]
  rfl

/-- A scan whose tuples are all exact returns them as the index does, each with its flag. -/
theorem node_yields {scan : A} {descs : List (IndexScanDesc D × A)}
    (hdescs : plan.am.getnextTid.Yields scan descs) (hexact : ∀ desc ∈ descs, plan.Exact desc.1)
    {numOrderByKeys : Nat} (hkeys : 0 < numOrderByKeys) {node : IndexScanState Q D A α}
    (hscan : plan.scanDesc node.scanDesc = Except.ok scan) (hend : node.reachedEnd = false)
    (hqueue : top node.reorderQueue = none) (estate : EState) :
    ∃ items, (plan.node Q numOrderByKeys).Yields (node, estate) items ∧
      items.map (fun item => (some item.1, inorderAfter item)) =
        descs.map fun desc => (plan.fetchTuple desc.1.xsHeaptid, desc.1.xsInorder) := by
  have hpull : ∀ state estate, (plan.node Q numOrderByKeys).pull (state, estate) =
      plan.indexNextWithReorder state estate := fun _ _ => if_pos hkeys
  induction hdescs generalizing node estate with
  | done hdone =>
      have hlast := (hpull node estate).trans
        (indexNextWithReorder_none hscan hend hqueue (nextTuple_none hdone estate))
      exact ⟨[], Source.Yields.done hlast, rfl⟩
  | @item scan after desc rest hitem _ ih =>
      obtain ⟨⟨row, hrow, hqual⟩, hvalue⟩ := hexact _ List.mem_cons_self
      have hfirst := (hpull node estate).trans (indexNextWithReorder_some hscan hend hqueue hvalue
        (nextTuple_some hitem hrow hqual estate))
      let next : IndexScanState Q D A α := ⟨some after, false, node.reorderQueue⟩
      have hnext : plan.scanDesc next.scanDesc = Except.ok after := rfl
      obtain ⟨items, hitems, hmap⟩ := ih
        (fun desc hmem => hexact desc (List.mem_cons_of_mem _ hmem))
        hnext rfl hqueue ⟨desc.xsInorder⟩
      refine ⟨_, Source.Yields.item hfirst hitems, ?_⟩
      rw [List.map_cons, List.map_cons, hmap, hrow]
      rfl

variable (Q) in
/-- The same from the start of a scan. -/
theorem init_yields {scan : A} (hbegin : plan.am.beginscan = Except.ok scan)
    {descs : List (IndexScanDesc D × A)} (hdescs : plan.am.getnextTid.Yields scan descs)
    (hexact : ∀ desc ∈ descs, plan.Exact desc.1) {numOrderByKeys : Nat}
    (hkeys : 0 < numOrderByKeys) (estate : EState) :
    ∃ items, (plan.node Q numOrderByKeys).Yields (IndexScanState.init, estate) items ∧
      items.map (fun item => (some item.1, inorderAfter item)) =
        descs.map fun desc => (plan.fetchTuple desc.1.xsHeaptid, desc.1.xsInorder) := by
  have hscan : plan.scanDesc (IndexScanState.init : IndexScanState Q D A α).scanDesc =
      Except.ok scan := hbegin
  exact node_yields hdescs hexact hkeys hscan rfl (top_eq_none_iff.mpr elems_empty) estate

end IndexScan

end VBase.Executor
