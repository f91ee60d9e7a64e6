import VBase.Executor.Loading
import Mathlib.Data.List.Induction

/-! # The Sort node

The first call of `ExecSort` reads the child into a tuplesort and later calls
fetch from it. Reading ends with the child, or after a row that leaves
`is_index_inorder` set while the sort holds as many tuples as its bound. A sort
without a bound has the bound zero in that test, so there a single row is enough.
-/

namespace VBase.Executor

open AccessMethod ArrayHeap

variable {S α K : Type} [LinearOrder K] {key : α → K}

/-- What the Sort node of a plan works with: its sort routines, what its memory checks will
say, and the memory its array is allocated in. -/
structure SortPlan (key : α → K) where
  routines : SortRoutines key
  memory : Nat → MemoryCheck
  uninit : Nat → α

/-- A Sort whose memory never runs out. -/
def SortPlan.inMemory (key : α → K) (fill : α) : SortPlan key :=
  ⟨SortRoutines.insertion key, fun _ => ⟨false, true⟩, fun _ => fill⟩

/-- `SortState`. The tuplesort is there once the sort is done. -/
structure SortState (S α : Type) where
  bounded : Bool
  bound : Nat
  outer : S
  tuplesortstate : Option (SortedTuples α)

/-- A Sort that has not run. -/
def SortState.init (bounded : Bool) (bound : Nat) (outer : S) : SortState S α :=
  ⟨bounded, bound, outer, none⟩

namespace SortPlan

variable (plan : SortPlan key) (child : PlanNode S α)

/-- The tuplesort before the first row. -/
def start (bounded : Bool) (bound : Nat) : Tuplesortstate α :=
  if bounded then tuplesortSetBound (tuplesortBeginHeap plan.uninit) bound
  else tuplesortBeginHeap plan.uninit

/-- The loop body: put the row, then see whether to stop. The accumulator counts the puts. -/
def takeRow (row : α) (outer : S × EState) (acc : Tuplesortstate α × Nat) :
    (Tuplesortstate α × Nat) × Bool :=
  let state := puttupleCommon plan.routines (plan.memory acc.2) acc.1 row
  ((state, acc.2 + 1), outer.2.isIndexInorder && tuplesortHeapfull state)

/-- Fetch the next tuple of a sort that is done. -/
def fetch (node : SortState S α) (sorted : SortedTuples α) (estate : EState) :
    Except Failure (Option α × SortState S α × EState) :=
  match tuplesortGettupleCommon sorted with
  | Except.error failure => Except.error failure
  | Except.ok (row, sorted) => Except.ok (row, { node with tuplesortstate := some sorted }, estate)

def execSort (node : SortState S α) (estate : EState) :
    Except Failure (Option α × SortState S α × EState) :=
  match node.tuplesortstate with
  | some sorted => fetch node sorted estate
  | none =>
      match child.drive plan.takeRow (node.outer, estate)
        (plan.start node.bounded node.bound, 0) with
      | Except.error failure => Except.error failure
      | Except.ok ((outer, estate), state, count) =>
          fetch { node with outer := outer }
            (tuplesortPerformsort plan.routines (plan.memory count) state) estate

/-- How many rows a Sort may still return, at most. -/
def remaining (node : SortState S α) (estate : EState) : Nat :=
  match node.tuplesortstate with
  | some sorted => sorted.output.length
  | none => child.remaining (node.outer, estate)

variable {plan child}

/-- A fetch that returns a row takes it off the output. -/
theorem fetch_some {node next : SortState S α} {sorted : SortedTuples α} {estate after : EState}
    {row : α} (hfetch : fetch node sorted estate = Except.ok (some row, next, after)) :
    ∃ rest, next.tuplesortstate = some rest ∧ sorted.output = row :: rest.output := by
  unfold fetch at hfetch
  split at hfetch
  · simp at hfetch
  next result rest hget =>
    simp only [Except.ok.injEq, Prod.mk.injEq] at hfetch
    obtain ⟨rfl, rfl, rfl⟩ := hfetch
    exact ⟨rest, rfl, tuplesortGettupleCommon_some hget⟩

theorem start_stored (bounded : Bool) (bound : Nat) : (plan.start bounded bound).stored = 0 := by
  unfold start tuplesortSetBound
  split_ifs <;> rfl

theorem execSort_remaining {node next : SortState S α} {estate after : EState} {row : α}
    (hexec : plan.execSort child node estate = Except.ok (some row, next, after)) :
    remaining child next after < remaining child node estate := by
  unfold execSort at hexec
  split at hexec
  next sorted hsorted =>
    obtain ⟨rest, hrest, houtput⟩ := fetch_some hexec
    simp [remaining, hrest, hsorted, houtput]
  next hnone =>
    split at hexec
    · simp at hexec
    next outer estate' state count hdrive =>
      obtain ⟨rest, hrest, houtput⟩ := fetch_some hexec
      have hlength := tuplesortPerformsort_length plan.routines (plan.memory count) state
      -- the sort holds no more rows than the child had left
      have hweight := Source.drive_weight (fun acc => acc.1.stored)
        (fun item next acc => puttupleCommon_stored plan.routines (plan.memory acc.2) acc.1 item)
        hdrive
      simp only [start_stored, zero_add] at hweight
      simp only [remaining, hrest, hnone]
      rw [houtput, List.length_cons] at hlength
      omega

variable (plan child) in
/-- The Sort node. -/
def node : PlanNode (SortState S α) α where
  pull := fun (state, estate) => plan.execSort child state estate
  remaining := fun (state, estate) => remaining child state estate
  pull_remaining := fun _ _ _ hpull => execSort_remaining hpull

/-! ## What the first call reads -/

/-- The bound that the tuplesort works with, if it accepted one. -/
def effectiveBound (bounded : Bool) (bound : Nat) : Option Nat :=
  if bounded && decide (bound ≤ intMax / 2) then some bound else none

/-- How many of the first `count` rows the sort has in memory. -/
def held (plan : SortPlan key) (limit : Option Nat) (count : Nat) : Nat :=
  (Room.after limit.isSome (limit.getD 0) plan.memory count).held

/-- The row at `index` leaves the flag set while the sort holds a bound's worth of rows. -/
def StopsAfter (plan : SortPlan key) (limit : Option Nat) (items : List (α × S × EState))
    (index : Nat) : Prop :=
  ∃ item, items[index]? = some item ∧ inorderAfter item = true ∧
    limit.getD 0 ≤ plan.held limit (index + 1)

/-- The accumulator of the loop after `rows`. -/
structure Took (plan : SortPlan key) (limit : Option Nat) (rows : List α)
    (acc : Tuplesortstate α × Nat) : Prop where
  count_eq : acc.2 = rows.length
  room_eq : acc.1.room = Room.after limit.isSome (limit.getD 0) plan.memory rows.length
  bounded_eq : acc.1.bounded = limit.isSome
  bound_eq : acc.1.bound = limit.getD 0
  loads : Loads key ↑rows acc.1

theorem start_took (bounded : Bool) (bound : Nat) :
    plan.Took (effectiveBound bounded bound) [] (plan.start bounded bound, 0) := by
  have hloads : ∀ limited count, Loads key (0 : Multiset α)
      { tuplesortBeginHeap plan.uninit with bounded := limited, bound := count } :=
    fun _ _ => Loads.array rfl rfl rfl
  cases bounded with
  | false => exact ⟨rfl, rfl, rfl, rfl, hloads false 0⟩
  | true =>
      by_cases hlarge : intMax / 2 < bound
      · simp only [effectiveBound, start, tuplesortSetBound, hlarge, not_le.mpr hlarge]
        exact ⟨rfl, rfl, rfl, rfl, hloads false 0⟩
      · simp only [effectiveBound, start, tuplesortSetBound, hlarge, not_lt.mp hlarge]
        exact ⟨rfl, rfl, rfl, rfl, hloads true bound⟩

theorem Took.takeRow {limit : Option Nat} (hlimit : ∀ bound ∈ limit, 0 < bound) {rows : List α}
    {acc : Tuplesortstate α × Nat} (htook : plan.Took limit rows acc) (row : α)
    (outer : S × EState) : plan.Took limit (rows ++ [row]) (plan.takeRow row outer acc).1 := by
  obtain ⟨state, count⟩ := acc
  have hcount : count = rows.length := htook.count_eq
  subst hcount
  have hpos : state.bounded = true → 0 < state.bound := by
    rw [htook.bounded_eq, htook.bound_eq]
    cases limit with
    | none => exact fun h => absurd h Bool.false_ne_true
    | some bound => exact fun _ => hlimit bound rfl
  obtain ⟨hbounded, hbound⟩ :=
    puttupleCommon_bound plan.routines (plan.memory rows.length) state row
  refine ⟨?_, ?_, ?_, ?_, ?_⟩
  · simp [SortPlan.takeRow]
  · rw [List.length_append, List.length_singleton, Room.after]
    refine (puttupleCommon_room plan.routines (plan.memory rows.length) state row).trans ?_
    rw [htook.room_eq, htook.bounded_eq, htook.bound_eq]
  · exact hbounded.trans htook.bounded_eq
  · exact hbound.trans htook.bound_eq
  · have hperm : (↑(rows ++ [row]) : Multiset α) = row ::ₘ ↑rows :=
      Multiset.coe_eq_coe.mpr (List.perm_append_singleton row rows)
    rw [hperm]
    exact htook.loads.put plan.routines hpos (plan.memory rows.length) row

theorem took_rows {bounded : Bool} {bound : Nat}
    (hlimit : ∀ limit ∈ effectiveBound bounded bound, 0 < limit) (items : List (α × S × EState)) :
    plan.Took (effectiveBound bounded bound) (items.map Prod.fst)
      (items.foldl (fun acc item => (plan.takeRow item.1 item.2 acc).1)
        (plan.start bounded bound, 0)) := by
  induction items using List.reverseRecOn with
  | nil => exact start_took bounded bound
  | append_singleton items item ih =>
      rw [List.map_append, List.foldl_append]
      exact ih.takeRow hlimit item.1 item.2

/-- The test of the loop depends on the flag and the room only. -/
theorem stopsAt_iff {bounded : Bool} {bound : Nat}
    (hlimit : ∀ limit ∈ effectiveBound bounded bound, 0 < limit) (items : List (α × S × EState))
    (index : Nat) :
    Source.StopsAt plan.takeRow (plan.start bounded bound, 0) items index ↔
      plan.StopsAfter (effectiveBound bounded bound) items index := by
  refine exists_congr fun item => and_congr_right fun hitem => ?_
  have hlt : index < items.length := (List.getElem?_eq_some_iff.mp hitem).1
  have htook : plan.Took _ _ (plan.takeRow item.1 item.2 _).1 :=
    (took_rows hlimit (items.take index)).takeRow hlimit item.1 item.2
  have hlength : (((items.take index).map Prod.fst) ++ [item.1]).length = index + 1 := by
    simp [hlt.le]
  have hheld := congrArg Room.held htook.room_eq
  rw [hlength] at hheld
  have hbound := htook.bound_eq
  simp only [SortPlan.takeRow, Tuplesortstate.room] at hheld hbound
  simp only [SortPlan.takeRow, tuplesortHeapfull, Bool.and_eq_true, decide_eq_true_eq, hheld,
    hbound, held, inorderAfter]

/-- How many rows the first call reads: all, or those up to the first that stops it. -/
def ReadCount (plan : SortPlan key) (limit : Option Nat) (items : List (α × S × EState))
    (count : Nat) : Prop :=
  (∀ index, index + 1 < count → ¬ plan.StopsAfter limit items index) ∧
    (count = items.length ∨ ∃ index, count = index + 1 ∧ plan.StopsAfter limit items index)

/-- The first call sorts the rows it reads, and is then like any later call. -/
theorem execSort_first (plan : SortPlan key) {outer : S} {estate : EState}
    {items : List (α × S × EState)} (hchild : child.Yields (outer, estate) items)
    (bounded : Bool) (bound : Nat)
    (hlimit : ∀ limit ∈ effectiveBound bounded bound, 0 < limit) :
    ∃ (count : Nat) (done : SortState S α) (sorted : SortedTuples α) (estate' : EState),
      plan.ReadCount (effectiveBound bounded bound) items count ∧
      (plan.node child).pull (SortState.init bounded bound outer, estate) =
        (plan.node child).pull ({ done with tuplesortstate := some sorted }, estate') ∧
      sorted.output.Pairwise (AscendingBy key) ∧
      (sorted.output.Perm ((items.take count).map Prod.fst) ∨
        ∃ limit, effectiveBound bounded bound = some limit ∧
          SmallestBy key limit ↑((items.take count).map Prod.fst) ↑sorted.output) ∧
      ∀ number, (∀ limit ∈ effectiveBound bounded bound, number ≤ limit) →
        sorted.Allows number := by
  obtain ⟨⟨last, estate'⟩, hdrive⟩ := hchild.drive plan.takeRow (plan.start bounded bound, 0)
  obtain ⟨count, hfold, hearlier, hend⟩ :=
    Source.foldUntil_eq plan.takeRow (plan.start bounded bound, 0) items
  -- what the loop leaves in the tuplesort depends only on the rows it took
  have htook : plan.Took _ _ _ := took_rows hlimit (items.take count)
  rw [← hfold] at htook
  generalize Source.foldUntil plan.takeRow (plan.start bounded bound, 0) items = acc
    at hdrive htook
  obtain ⟨hsorted, houtput⟩ :=
    tuplesortPerformsort_spec plan.routines htook.loads (plan.memory acc.2)
  refine ⟨count, ⟨bounded, bound, last, none⟩,
    tuplesortPerformsort plan.routines (plan.memory acc.2) acc.1, estate', ?_, ?_, hsorted, ?_, ?_⟩
  · refine ⟨fun index hindex hstops => hearlier index hindex ((stopsAt_iff hlimit _ _).mpr hstops),
      hend.imp_right ?_⟩
    rintro ⟨index, hcount, hstops⟩
    exact ⟨index, hcount, (stopsAt_iff hlimit _ _).mp hstops⟩
  · simp only [SortPlan.node, execSort, SortState.init, hdrive]
    rfl
  · rcases houtput with hall | ⟨hbounded, hsmallest⟩
    · exact Or.inl (Multiset.coe_eq_coe.mp hall)
    · right
      rw [htook.bounded_eq] at hbounded
      obtain ⟨limit, heq⟩ := Option.isSome_iff_exists.mp hbounded
      rw [htook.bound_eq, heq] at hsmallest
      exact ⟨limit, heq, hsmallest⟩
  · intro number hnumber
    apply tuplesortPerformsort_allows
    rw [htook.bounded_eq, htook.bound_eq]
    intro hbounded
    obtain ⟨limit, heq⟩ := Option.isSome_iff_exists.mp hbounded
    rw [heq]
    exact hnumber limit heq

/-! ## The rows a Sort returns -/

theorem pull_done (node : SortState S α) (sorted : SortedTuples α) (estate : EState) :
    (plan.node child).pull ({ node with tuplesortstate := some sorted }, estate) =
      fetch node sorted estate := rfl

/-- A sort that is done returns the front of its output. -/
theorem collect_done (node : SortState S α) {sorted : SortedTuples α} (estate : EState)
    {count : Nat} (hallows : sorted.Allows count) :
    (plan.node child).collect count ({ node with tuplesortstate := some sorted }, estate) =
      Except.ok (sorted.output.take count) := by
  induction count generalizing sorted with
  | zero => rfl
  | succ count ih =>
      rw [Source.collect, pull_done, fetch]
      cases houtput : sorted.output with
      | nil =>
          rw [tuplesortGettupleCommon_nil houtput hallows]
          rfl
      | cons row rest =>
          obtain ⟨next, hget, hrest, hnext⟩ := tuplesortGettupleCommon_cons houtput
          have htail := ih (hnext count hallows)
          rw [hrest] at htail
          rw [hget]
          simp only [htail]
          rfl

/-- A sort without a bound returns all of its output. -/
theorem yields_done (plan : SortPlan key) (child : PlanNode S α) (node : SortState S α)
    {sorted : SortedTuples α} (estate : EState) (hallows : ∀ count, sorted.Allows count) :
    ∃ output, (plan.node child).Yields ({ node with tuplesortstate := some sorted }, estate)
      output ∧ output.map Prod.fst = sorted.output := by
  generalize hrows : sorted.output = rows
  induction rows generalizing sorted with
  | nil =>
      have hpull : (plan.node child).pull ({ node with tuplesortstate := some sorted }, estate) =
          Except.ok (none, { node with tuplesortstate := some sorted }, estate) := by
        rw [pull_done, fetch, tuplesortGettupleCommon_nil hrows (hallows 1)]
      exact ⟨[], Source.Yields.done hpull, rfl⟩
  | cons row rest ih =>
      obtain ⟨next, hget, hrest, hnext⟩ := tuplesortGettupleCommon_cons hrows
      have hpull : (plan.node child).pull ({ node with tuplesortstate := some sorted }, estate) =
          Except.ok (some row, { node with tuplesortstate := some next }, estate) := by
        rw [pull_done, fetch, hget]
      obtain ⟨output, hyields, hmap⟩ := ih (fun count => hnext count (hallows (count + 1))) hrest
      exact ⟨_, Source.Yields.item hpull hyields, by rw [List.map_cons, hmap]⟩

/-- The first rows of a Sort are the smallest of what it read. -/
theorem collect_init (plan : SortPlan key) {outer : S} {estate : EState}
    {items : List (α × S × EState)} (hchild : child.Yields (outer, estate) items)
    (bounded : Bool) (bound : Nat) {number : Nat}
    (hlimit : ∀ limit ∈ effectiveBound bounded bound, 0 < limit ∧ number ≤ limit) :
    ∃ count rows, plan.ReadCount (effectiveBound bounded bound) items count ∧
      (plan.node child).collect number (SortState.init bounded bound outer, estate) =
        Except.ok rows ∧
      rows.Pairwise (AscendingBy key) ∧
      SmallestBy key number ↑((items.take count).map Prod.fst) ↑rows := by
  obtain ⟨count, done, sorted, estate', hcount, hpull, hsorted, houtput, hallows⟩ :=
    execSort_first plan hchild bounded bound fun limit hmem => (hlimit limit hmem).1
  refine ⟨count, sorted.output.take number, hcount, ?_, hsorted.take, ?_⟩
  · rw [Source.collect_congr hpull]
    exact collect_done done estate' (hallows number fun limit hmem => (hlimit limit hmem).2)
  · have htake := SmallestBy.take hsorted number
    rcases houtput with hperm | ⟨limit, heq, hsmallest⟩
    · rwa [Multiset.coe_eq_coe.mpr hperm] at htake
    · exact hsmallest.trans htake (hlimit limit heq).2

end SortPlan

/-! ## Sorts without an effective bound -/

/-- Without an effective bound the flag alone ends the reading. -/
theorem SortPlan.stopsAfter_none {plan : SortPlan key} {items : List (α × S × EState)}
    {index : Nat} :
    plan.StopsAfter none items index ↔
      ∃ item, items[index]? = some item ∧ inorderAfter item = true := by
  simp [SortPlan.StopsAfter]

/-- The whole child is read exactly when no row but the last leaves the flag set. -/
theorem SortPlan.ReadCount.complete_iff {plan : SortPlan key} {items : List (α × S × EState)}
    {count : Nat} (hcount : plan.ReadCount none items count) :
    count = items.length ↔ ∀ item ∈ items.dropLast, inorderAfter item = false := by
  obtain ⟨hearlier, hend⟩ := hcount
  simp only [SortPlan.stopsAfter_none] at hearlier hend
  constructor
  · rintro rfl item hitem
    obtain ⟨index, hindex, hget⟩ := List.getElem_of_mem hitem
    rw [List.length_dropLast] at hindex
    rw [List.getElem_dropLast] at hget
    refine Bool.eq_false_iff.mpr fun hflag => hearlier index (by omega) ⟨item, ?_, hflag⟩
    rw [List.getElem?_eq_getElem (by omega), hget]
  · intro hclear
    rcases hend with hall | ⟨index, rfl, item, hitem, hflag⟩
    · exact hall
    · by_contra hshort
      obtain ⟨hindex, hget⟩ := List.getElem?_eq_some_iff.mp hitem
      have hmem : item ∈ items.dropLast := by
        rw [← hget, ← List.getElem_dropLast (by rw [List.length_dropLast]; omega)]
        exact List.getElem_mem _
      rw [hclear item hmem] at hflag
      exact Bool.false_ne_true hflag

theorem SortPlan.ReadCount.le_length {plan : SortPlan key} {limit : Option Nat}
    {items : List (α × S × EState)} {count : Nat} (hcount : plan.ReadCount limit items count) :
    count ≤ items.length := by
  rcases hcount.2 with rfl | ⟨index, rfl, item, hitem, _⟩
  · exact le_rfl
  · exact (List.getElem?_eq_some_iff.mp hitem).1

/-- A Sort without an effective bound returns all rows of its child exactly when none but
the last leaves the flag set. -/
theorem unboundedSort_complete_iff (plan : SortPlan key) (child : PlanNode S α) {outer : S}
    {estate : EState} {items : List (α × S × EState)}
    (hchild : child.Yields (outer, estate) items) {bounded : Bool} {bound : Nat}
    (hunbounded : bounded = false ∨ intMax / 2 < bound) :
    (∃ output, (plan.node child).Yields (SortState.init bounded bound outer, estate) output ∧
        (output.map Prod.fst).Perm (items.map Prod.fst) ∧
        (output.map Prod.fst).Pairwise (AscendingBy key)) ↔
      ∀ item ∈ items.dropLast, inorderAfter item = false := by
  have hnone : SortPlan.effectiveBound bounded bound = none := by
    rcases hunbounded with rfl | hlarge
    · rfl
    · simp [SortPlan.effectiveBound, not_le.mpr hlarge]
  obtain ⟨count, done, sorted, estate', hcount, hpull, hsorted, hread, hallows⟩ :=
    SortPlan.execSort_first plan hchild bounded bound (by simp [hnone])
  rw [hnone] at hcount
  have hperm : sorted.output.Perm ((items.take count).map Prod.fst) :=
    hread.resolve_right (by simp [hnone])
  obtain ⟨output, hdone, houtput⟩ := SortPlan.yields_done plan child done estate'
    fun number => hallows number (by simp [hnone])
  have hyields := hdone.congr hpull.symm
  rw [← hcount.complete_iff]
  constructor
  · rintro ⟨other, hother, hall, _⟩
    rw [← hyields.unique hother, houtput] at hall
    have hlength := (hperm.symm.trans hall).length_eq
    simpa [hcount.le_length] using hlength
  · rintro rfl
    rw [List.take_length] at hperm
    exact ⟨output, hyields, houtput ▸ hperm, houtput ▸ hsorted⟩

/-- Two rows, neither followed by a set flag, both come out. -/
theorem unboundedSort_returns_both :
    ∃ items, (replay Nat).Yields ([(2, false), (1, false)], ⟨true⟩) items ∧
      ∃ output, ((SortPlan.inMemory id 0).node (replay Nat)).Yields
          (SortState.init false 0 [(2, false), (1, false)], ⟨true⟩) output ∧
        (output.map Prod.fst).Perm (items.map Prod.fst) ∧
        (output.map Prod.fst).Pairwise (AscendingBy id) := by
  obtain ⟨items, hitems, hmap⟩ := replay_yields [(2, false), (1, false)] ⟨true⟩
  refine ⟨items, hitems, (unboundedSort_complete_iff _ _ hitems (Or.inl rfl)).mpr ?_⟩
  intro item hitem
  have hmem : (item.1, inorderAfter item) ∈ [(2, false), (1, false)] :=
    hmap ▸ List.mem_map_of_mem (List.dropLast_subset _ hitem)
  rcases List.mem_cons.mp hmem with heq | hmem
  · exact congrArg Prod.snd heq
  · exact congrArg Prod.snd (List.mem_singleton.mp hmem)

/-- A flag that is set after the first of two rows makes the Sort lose the second. -/
theorem unboundedSort_loses_row :
    ∃ items, (replay Nat).Yields ([(2, true), (1, false)], ⟨false⟩) items ∧
      ¬ ∃ output, ((SortPlan.inMemory id 0).node (replay Nat)).Yields
          (SortState.init false 0 [(2, true), (1, false)], ⟨false⟩) output ∧
        (output.map Prod.fst).Perm (items.map Prod.fst) ∧
        (output.map Prod.fst).Pairwise (AscendingBy id) := by
  obtain ⟨items, hitems, hmap⟩ := replay_yields [(2, true), (1, false)] ⟨false⟩
  refine ⟨items, hitems, ?_⟩
  rintro ⟨output, houtput, hperm, _⟩
  have hone : ((SortPlan.inMemory id 0).node (replay Nat)).collect 2
      (SortState.init false 0 [(2, true), (1, false)], ⟨false⟩) = Except.ok [2] := rfl
  have houtput := houtput.map_fst_of_collect hone (by decide)
  have hlength : items.length = 2 := by simpa using congrArg List.length hmap
  have hequal := hperm.length_eq
  rw [houtput, List.length_map, hlength] at hequal
  exact absurd hequal (by decide)

end VBase.Executor
