import VBase.Executor.Node
import VBase.Foundation.ArrayHeap

/-! # Sorting tuples

`tuplesort.c` as the Sort node uses it, for a forward scan. Tuples are loaded
into an array, which becomes a bounded heap when a bound was set and the array
has outgrown it, or is written out in sorted runs when memory runs out. What
`LACKMEM` and `memtupsize` say depends on the sizes of tuples and is an input.
The loading phase and the sorted phase are different types, so a state that the
routines would reject as invalid cannot be built.
-/

namespace VBase.Executor

open AccessMethod ArrayHeap

def intMax : Nat := 2147483647

/-- The status of a sort that is being loaded. -/
inductive SortStatus
  | initial
  | bounded
  | buildRuns
  deriving DecidableEq

/-- What a call finds when it asks about memory: `LACKMEM(state)`, and
`memtupcount < memtupsize`. -/
structure MemoryCheck where
  lackMem : Bool
  hasSlot : Bool

/-- Still within the allowed memory, and with array slots. -/
def MemoryCheck.fits (check : MemoryCheck) : Bool := check.hasSlot && !check.lackMem

/-- `Tuplesortstate` while tuples are loaded. `bound` is zero unless one was set. -/
structure Tuplesortstate (α : Type) where
  status : SortStatus
  bounded : Bool
  bound : Nat
  memtupcount : Nat
  memtuples : Nat → α
  runs : List (List α)

/-- `Tuplesortstate` once sorted: an array and the next position in it, or what is left
on the result tape. -/
inductive SortedTuples (α : Type)
  | inMem (bounded : Bool) (bound memtupcount : Nat) (memtuples : Nat → α) (current : Nat)
  | onTape (resultTape : List α)

variable {α : Type} {K : Type} [LinearOrder K]

/-- The specialised quicksort and the merge of runs. -/
structure SortRoutines (key : α → K) where
  qsort : List α → List α
  qsort_perm : ∀ tuples, (qsort tuples).Perm tuples
  qsort_sorted : ∀ tuples, (qsort tuples).Pairwise (AscendingBy key)
  mergeruns : List (List α) → List α
  mergeruns_perm : ∀ runs, (mergeruns runs).Perm runs.flatten
  mergeruns_sorted : ∀ runs, (∀ run ∈ runs, run.Pairwise (AscendingBy key)) →
    (mergeruns runs).Pairwise (AscendingBy key)

/-- Insertion sort, for whole arrays and for merging. -/
def SortRoutines.insertion (key : α → K) : SortRoutines key where
  qsort := fun tuples => tuples.insertionSort (AscendingBy key)
  qsort_perm := fun tuples => List.perm_insertionSort _ tuples
  qsort_sorted := fun tuples => List.pairwise_insertionSort _ tuples
  mergeruns := fun runs => runs.flatten.insertionSort (AscendingBy key)
  mergeruns_perm := fun runs => List.perm_insertionSort _ runs.flatten
  mergeruns_sorted := fun runs _ => List.pairwise_insertionSort _ runs.flatten

/-- `tuplesort_begin_heap`; the array is allocated uninitialised. -/
def tuplesortBeginHeap (uninit : Nat → α) : Tuplesortstate α :=
  ⟨SortStatus.initial, false, 0, 0, uninit, []⟩

/-- `tuplesort_set_bound`, which ignores a bound that could not be doubled. -/
def tuplesortSetBound (state : Tuplesortstate α) (bound : Nat) : Tuplesortstate α :=
  if intMax / 2 < bound then state else { state with bounded := true, bound := bound }

def tuplesortHeapfull (state : Tuplesortstate α) : Bool := decide (state.bound ≤ state.memtupcount)

/-- The array as a list. -/
def loaded (count : Nat) (memtuples : Nat → α) : List α := (List.range count).map memtuples

/-- Write a list over the front of the array. -/
def overwrite (tuples : List α) (memtuples : Nat → α) : Nat → α :=
  fun index => tuples[index]?.getD (memtuples index)

section Heap

variable (key : α → K)

/-- The sort key after `reversedirection`, which puts the largest entry at the root. -/
def reversed (tuple : α) : Kᵒᵈ := OrderDual.toDual (key tuple)

def tuplesortHeapInsert (state : Tuplesortstate α) (tuple : α) : Tuplesortstate α :=
  { state with
    memtupcount := state.memtupcount + 1
    memtuples := insert (reversed key) state.memtupcount state.memtuples tuple }

def tuplesortHeapReplaceTop (state : Tuplesortstate α) (tuple : α) : Tuplesortstate α :=
  { state with memtuples := replaceTop (reversed key) state.memtupcount state.memtuples tuple }

def tuplesortHeapDeleteTop (state : Tuplesortstate α) : Tuplesortstate α :=
  let state := { state with memtupcount := state.memtupcount - 1 }
  if state.memtupcount = 0 then state
  else tuplesortHeapReplaceTop key state (state.memtuples state.memtupcount)

/-- Discard the tuple, or let it replace the largest entry. -/
def boundedPut (state : Tuplesortstate α) (tuple : α) : Tuplesortstate α :=
  if reversed key tuple ≤ reversed key (state.memtuples 0) then state
  else tuplesortHeapReplaceTop key state tuple

/-- One round of `make_bounded_heap`, for the array entry `i`. -/
def boundedHeapRound (state : Tuplesortstate α) (i : Nat) : Tuplesortstate α :=
  if state.memtupcount < state.bound then tuplesortHeapInsert key state (state.memtuples i)
  else boundedPut key state (state.memtuples i)

def makeBoundedHeap (state : Tuplesortstate α) : Tuplesortstate α :=
  { (List.range state.memtupcount).foldl (boundedHeapRound key) { state with memtupcount := 0 } with
    status := SortStatus.bounded }

/-- One round of `sort_bounded_heap`: the largest entry goes to the end of the heap. -/
def unheapifyRound (state : Tuplesortstate α) : Option (Tuplesortstate α) :=
  if 1 < state.memtupcount then
    let stup := state.memtuples 0
    let state := tuplesortHeapDeleteTop key state
    some { state with memtuples := Function.update state.memtuples state.memtupcount stup }
  else none

def sortBoundedHeap (state : Tuplesortstate α) : Tuplesortstate α :=
  let tupcount := state.memtupcount
  { Loop.run Tuplesortstate.memtupcount (unheapifyRound key) state with memtupcount := tupcount }

end Heap

variable {key : α → K} (routines : SortRoutines key)

def tuplesortSortMemtuples (state : Tuplesortstate α) : Tuplesortstate α :=
  if 1 < state.memtupcount then
    { state with
      memtuples := overwrite (routines.qsort (loaded state.memtupcount state.memtuples))
        state.memtuples }
  else state

/-- Sort what is in memory and write it out as a run. -/
def writeRun (state : Tuplesortstate α) : Tuplesortstate α :=
  let state := tuplesortSortMemtuples routines state
  { state with
    memtupcount := 0
    runs := state.runs ++ [loaded state.memtupcount state.memtuples] }

/-- `dumptuples`, which has nothing to do while tuples fit, except in its final call. -/
def dumptuples (check : MemoryCheck) (alltuples : Bool) (state : Tuplesortstate α) :
    Tuplesortstate α :=
  if check.fits && !alltuples then state else writeRun routines state

/-- Save a tuple into the unsorted array. -/
def Tuplesortstate.save (state : Tuplesortstate α) (tuple : α) : Tuplesortstate α :=
  { state with
    memtupcount := state.memtupcount + 1
    memtuples := Function.update state.memtuples state.memtupcount tuple }

/-- `inittapes`: switch to tape-based operation. -/
def inittapes (state : Tuplesortstate α) : Tuplesortstate α :=
  { state with status := SortStatus.buildRuns }

/-- Time to switch over to a bounded heapsort. -/
def switchToHeap (bounded : Bool) (bound memtupcount : Nat) (check : MemoryCheck) : Bool :=
  bounded && (decide (bound * 2 < memtupcount) || (decide (bound < memtupcount) && check.lackMem))

def puttupleCommon (check : MemoryCheck) (state : Tuplesortstate α) (tuple : α) :
    Tuplesortstate α :=
  match state.status with
  | SortStatus.initial =>
      let state := state.save tuple
      if switchToHeap state.bounded state.bound state.memtupcount check then
        makeBoundedHeap key state
      else if check.fits then state
      else dumptuples routines check false (inittapes state)
  | SortStatus.bounded => boundedPut key state tuple
  | SortStatus.buildRuns => dumptuples routines check false (state.save tuple)

def tuplesortPerformsort (check : MemoryCheck) (state : Tuplesortstate α) : SortedTuples α :=
  match state.status with
  | SortStatus.initial =>
      let state := tuplesortSortMemtuples routines state
      SortedTuples.inMem state.bounded state.bound state.memtupcount state.memtuples 0
  | SortStatus.bounded =>
      let state := sortBoundedHeap key state
      SortedTuples.inMem state.bounded state.bound state.memtupcount state.memtuples 0
  | SortStatus.buildRuns =>
      SortedTuples.onTape (routines.mergeruns (dumptuples routines check true state).runs)

/-- `tuplesort_gettuple_common`, forward. -/
def tuplesortGettupleCommon : SortedTuples α → Except Failure (Option α × SortedTuples α)
  | SortedTuples.inMem bounded bound memtupcount memtuples current =>
      if current < memtupcount then
        Except.ok (some (memtuples current),
          SortedTuples.inMem bounded bound memtupcount memtuples (current + 1))
      else if bounded && decide (bound ≤ current) then
        Except.error (Failure.elog "retrieved too many tuples in a bounded sort")
      else Except.ok (none, SortedTuples.inMem bounded bound memtupcount memtuples current)
  | SortedTuples.onTape [] => Except.ok (none, SortedTuples.onTape [])
  | SortedTuples.onTape (tuple :: rest) => Except.ok (some tuple, SortedTuples.onTape rest)

/-! ## The bounded heap -/

section Heap

omit [LinearOrder K] in
@[simp] theorem length_loaded (count : Nat) (memtuples : Nat → α) :
    (loaded count memtuples).length = count := by
  simp [loaded]

theorem loaded_overwrite {count : Nat} {tuples : List α} (hlength : tuples.length = count)
    (memtuples : Nat → α) : loaded count (overwrite tuples memtuples) = tuples := by
  apply List.ext_getElem
  · rw [length_loaded, hlength]
  · intro index _ hindex
    simp [loaded, overwrite, hindex]

/-- The entries are a heap, largest first, of the smallest of `rows`. -/
structure KeepsSmallest (key : α → K) (count : Nat) (rows : Multiset α) (state : Tuplesortstate α) :
    Prop where
  heap : Heap (reversed key) state.memtupcount state.memtuples
  smallest : SmallestBy key count rows (contents state.memtupcount state.memtuples)

theorem KeepsSmallest.root {count : Nat} {rows : Multiset α} {state : Tuplesortstate α}
    (hkeeps : KeepsSmallest key count rows state) {tuple : α}
    (htuple : tuple ∈ contents state.memtupcount state.memtuples) :
    key tuple ≤ key (state.memtuples 0) :=
  hkeeps.heap.root_le htuple

theorem KeepsSmallest.insert {count : Nat} {rows : Multiset α} {state : Tuplesortstate α}
    (hkeeps : KeepsSmallest key count rows state) (hroom : state.memtupcount < count) (tuple : α) :
    KeepsSmallest key count (tuple ::ₘ rows) (tuplesortHeapInsert key state tuple) := by
  obtain ⟨hheap, hcontents, _⟩ := insert_spec hkeeps.heap tuple
  refine ⟨hheap, ?_⟩
  simp only [tuplesortHeapInsert, hcontents]
  exact hkeeps.smallest.cons_of_room (by rwa [card_contents]) tuple

theorem KeepsSmallest.boundedPut {count : Nat} {rows : Multiset α} {state : Tuplesortstate α}
    (hkeeps : KeepsSmallest key count rows state) (hpos : 0 < count)
    (hfull : state.memtupcount = count) (tuple : α) :
    KeepsSmallest key count (tuple ::ₘ rows) (boundedPut key state tuple) := by
  subst hfull
  have hcard := card_contents state.memtupcount state.memtuples
  unfold Executor.boundedPut
  split
  next hlarge =>
    -- the root is the largest entry kept, and the tuple is no smaller
    refine ⟨hkeeps.heap, hkeeps.smallest.cons_of_le hcard ?_⟩
    intro low hlow
    exact (hkeeps.root hlow).trans hlarge
  next hsmall =>
    obtain ⟨hheap, hcontents, _⟩ := replaceTop_spec hkeeps.heap hpos tuple
    refine ⟨hheap, ?_⟩
    have hroot : state.memtuples 0 ∈ contents state.memtupcount state.memtuples :=
      mem_contents.mpr ⟨0, hpos, rfl⟩
    obtain ⟨rest, hrest⟩ := Multiset.exists_cons_of_mem hroot
    have hreplaced : contents state.memtupcount
        (replaceTop (reversed key) state.memtupcount state.memtuples tuple) = tuple ::ₘ rest := by
      rw [hrest, Multiset.cons_swap] at hcontents
      exact (Multiset.cons_inj_right _).mp hcontents
    simp only [tuplesortHeapReplaceTop, hreplaced]
    have hsmallest := hkeeps.smallest
    rw [hrest] at hsmallest hcard
    refine hsmallest.cons_replace (by rw [← hcard, Multiset.card_cons]) ?_ ?_
    · intro low hlow
      exact hkeeps.root (hrest ▸ Multiset.mem_cons_of_mem hlow)
    · exact (not_le.mp hsmall).le

theorem boundedPut_memtupcount (state : Tuplesortstate α) (tuple : α) :
    (boundedPut key state tuple).memtupcount = state.memtupcount := by
  unfold boundedPut
  split <;> rfl

theorem boundedPut_ahead {state : Tuplesortstate α} (hpos : 0 < state.memtupcount)
    (hheap : Heap (reversed key) state.memtupcount state.memtuples) (tuple : α) {index : Nat}
    (hindex : state.memtupcount ≤ index) :
    (boundedPut key state tuple).memtuples index = state.memtuples index := by
  unfold boundedPut
  split
  · rfl
  · exact (replaceTop_spec hheap hpos tuple).2.2 index hindex

/-- The heap routines change the array, and neither the bound nor the runs. -/
structure Tuplesortstate.Outside (start state : Tuplesortstate α) : Prop where
  status_eq : state.status = start.status
  bounded_eq : state.bounded = start.bounded
  bound_eq : state.bound = start.bound
  runs_eq : state.runs = start.runs

theorem boundedPut_outside {start state : Tuplesortstate α} (houtside : start.Outside state)
    (tuple : α) : start.Outside (boundedPut key state tuple) := by
  obtain ⟨hstatus, hbounded, hbound, hruns⟩ := houtside
  unfold boundedPut
  split <;> exact ⟨hstatus, hbounded, hbound, hruns⟩

theorem boundedHeapRounds_outside (start : Tuplesortstate α) (done : Nat) :
    start.Outside ((List.range done).foldl (boundedHeapRound key)
      { start with memtupcount := 0 }) := by
  induction done with
  | zero => exact ⟨rfl, rfl, rfl, rfl⟩
  | succ done ih =>
      rw [List.range_succ, List.foldl_append, List.foldl_cons, List.foldl_nil, boundedHeapRound]
      split
      · exact ⟨ih.status_eq, ih.bounded_eq, ih.bound_eq, ih.runs_eq⟩
      · exact boundedPut_outside ih _

/-- The heap fills up to the bound and no further. -/
theorem boundedHeapRounds_memtupcount (start : Tuplesortstate α) (done : Nat) :
    ((List.range done).foldl (boundedHeapRound key)
      { start with memtupcount := 0 }).memtupcount = min done start.bound := by
  induction done with
  | zero => exact (Nat.zero_min _).symm
  | succ done ih =>
      have houtside : start.Outside ((List.range done).foldl (boundedHeapRound key) _) :=
        boundedHeapRounds_outside start done
      rw [List.range_succ, List.foldl_append, List.foldl_cons, List.foldl_nil, boundedHeapRound,
        houtside.bound_eq]
      split
      · simp only [tuplesortHeapInsert]
        omega
      · rw [boundedPut_memtupcount]
        omega

theorem makeBoundedHeap_memtupcount (state : Tuplesortstate α) :
    (makeBoundedHeap key state).memtupcount = min state.memtupcount state.bound :=
  boundedHeapRounds_memtupcount state state.memtupcount

theorem makeBoundedHeap_outside (state : Tuplesortstate α) :
    { state with status := SortStatus.bounded }.Outside (makeBoundedHeap key state) :=
  have houtside : state.Outside ((List.range state.memtupcount).foldl (boundedHeapRound key) _) :=
    boundedHeapRounds_outside state state.memtupcount
  ⟨rfl, houtside.bounded_eq, houtside.bound_eq, houtside.runs_eq⟩

/-- What `make_bounded_heap` has made of the first `done` entries of the array. -/
structure Heaped (key : α → K) (start state : Tuplesortstate α) (done : Nat) : Prop where
  keeps : KeepsSmallest key start.bound (contents done start.memtuples) state
  ahead : ∀ index, done ≤ index → state.memtuples index = start.memtuples index

theorem Heaped.round {start state : Tuplesortstate α} {done : Nat} (hpos : 0 < start.bound)
    (hbound : state.bound = start.bound) (hcount : state.memtupcount = min done start.bound)
    (hheaped : Heaped key start state done) :
    Heaped key start (boundedHeapRound key state done) (done + 1) := by
  have hentry : state.memtuples done = start.memtuples done := hheaped.ahead done le_rfl
  unfold boundedHeapRound
  rw [hentry, hbound]
  split
  next hroom =>
    refine ⟨?_, ?_⟩
    · rw [contents_succ]
      exact hheaped.keeps.insert hroom _
    · intro index hindex
      exact ((insert_spec hheaped.keeps.heap _).2.2 index (by omega)).trans
        (hheaped.ahead index (by omega))
  next hfull =>
    refine ⟨?_, ?_⟩
    · rw [contents_succ]
      exact hheaped.keeps.boundedPut hpos (by omega) _
    · intro index hindex
      rw [boundedPut_ahead (by omega) hheaped.keeps.heap _ (by omega)]
      exact hheaped.ahead index (by omega)

theorem Heaped.rounds {start : Tuplesortstate α} (hpos : 0 < start.bound) (done : Nat) :
    Heaped key start ((List.range done).foldl (boundedHeapRound key)
      { start with memtupcount := 0 }) done := by
  induction done with
  | zero =>
      refine ⟨⟨fun index _ hlt => absurd hlt (Nat.not_lt_zero index), ?_⟩, fun _ _ => rfl⟩
      exact SmallestBy.self (Nat.zero_le _)
  | succ done ih =>
      rw [List.range_succ, List.foldl_append]
      exact ih.round hpos (boundedHeapRounds_outside start done).bound_eq
        (boundedHeapRounds_memtupcount start done)

/-- The bounded heap holds the smallest entries of the array it was made of. -/
theorem makeBoundedHeap_keeps {state : Tuplesortstate α} (hpos : 0 < state.bound) :
    KeepsSmallest key state.bound (contents state.memtupcount state.memtuples)
      (makeBoundedHeap key state) :=
  have hheaped : Heaped key state _ state.memtupcount := Heaped.rounds hpos state.memtupcount
  ⟨hheaped.keeps.heap, hheaped.keeps.smallest⟩

/-- A round shortens the heap by its root, which takes the freed place. -/
theorem unheapifyRound_some {state next : Tuplesortstate α}
    (hround : unheapifyRound key state = some next) :
    1 < state.memtupcount ∧ next = { state with
      memtupcount := state.memtupcount - 1
      memtuples := Function.update
        (replaceTop (reversed key) (state.memtupcount - 1) state.memtuples
          (state.memtuples (state.memtupcount - 1)))
        (state.memtupcount - 1) (state.memtuples 0) } := by
  unfold unheapifyRound at hround
  split at hround
  next hmany =>
    refine ⟨hmany, ?_⟩
    have hpos : state.memtupcount - 1 ≠ 0 := by omega
    obtain rfl := Option.some.inj hround
    simp [tuplesortHeapDeleteTop, tuplesortHeapReplaceTop, hpos]
  next => simp at hround

theorem unheapifyRound_decreases :
    Loop.Decreases Tuplesortstate.memtupcount (unheapifyRound key : Tuplesortstate α → _) := by
  intro state next hround
  obtain ⟨hmany, rfl⟩ := unheapifyRound_some hround
  exact Nat.sub_lt (by omega) Nat.one_pos

theorem sortBoundedHeap_spec {state : Tuplesortstate α}
    (hheap : Heap (reversed key) state.memtupcount state.memtuples) :
    (loaded state.memtupcount (sortBoundedHeap key state).memtuples).Pairwise (AscendingBy key) ∧
      contents state.memtupcount (sortBoundedHeap key state).memtuples =
        contents state.memtupcount state.memtuples := by
  let final := Loop.run Tuplesortstate.memtupcount (unheapifyRound key) state
  have hfinal : Unheaping (reversed key) state.memtupcount
      (contents state.memtupcount state.memtuples) final.memtupcount final.memtuples :=
    Loop.run_invariant unheapifyRound_decreases
      (motive := fun reached => Unheaping (reversed key) state.memtupcount
        (contents state.memtupcount state.memtuples) reached.memtupcount reached.memtuples)
      (by
        intro reached next hunheaping hround
        obtain ⟨hmany, rfl⟩ := unheapifyRound_some hround
        exact hunheaping.round hmany)
      state (Unheaping.start hheap)
  have hstop : unheapifyRound key final = none := Loop.run_done unheapifyRound_decreases state
  have hleft : final.memtupcount ≤ 1 := by simpa [unheapifyRound] using hstop
  refine ⟨?_, hfinal.contents_eq⟩
  rw [loaded, List.pairwise_map]
  refine List.pairwise_lt_range.imp_of_mem ?_
  intro first second _ hsecond hlt
  exact hfinal.behind first second hlt.le (by omega) (List.mem_range.mp hsecond)

end Heap

end VBase.Executor
