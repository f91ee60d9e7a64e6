import VBase.Executor.Tuplesort

/-! # What a sort has loaded

Whatever the sort has done with its array, its heap and its runs, it can still
deliver the rows put into it: all of them, or the smallest ones up to the bound.
How many rows it holds in memory depends on the bound and the memory checks only.
-/

namespace VBase.Executor

open ArrayHeap

variable {α : Type} {K : Type} [LinearOrder K] {key : α → K} (routines : SortRoutines key)

/-- Everything that a put can do. -/
theorem puttupleCommon_cases {motive : Tuplesortstate α → Prop} (check : MemoryCheck)
    (state : Tuplesortstate α) (tuple : α)
    (heap : state.status = SortStatus.initial →
      switchToHeap state.bounded state.bound (state.memtupcount + 1) check = true →
      motive (makeBoundedHeap key (state.save tuple)))
    (array : state.status = SortStatus.initial →
      switchToHeap state.bounded state.bound (state.memtupcount + 1) check = false →
      check.fits = true → motive (state.save tuple))
    (tapes : state.status = SortStatus.initial →
      switchToHeap state.bounded state.bound (state.memtupcount + 1) check = false →
      check.fits = false →
      motive (writeRun routines (inittapes (state.save tuple))))
    (keep : state.status = SortStatus.bounded → motive (boundedPut key state tuple))
    (run : state.status = SortStatus.buildRuns → check.fits = true → motive (state.save tuple))
    (dump : state.status = SortStatus.buildRuns → check.fits = false →
      motive (writeRun routines (state.save tuple))) :
    motive (puttupleCommon routines check state tuple) := by
  unfold puttupleCommon
  cases hstatus : state.status with
  | initial =>
      simp only
      split
      next hswitch => exact heap hstatus hswitch
      next hswitch =>
        have hno := Bool.eq_false_iff.mpr hswitch
        split
        next hfits => exact array hstatus hno hfits
        next hfits =>
          have hfull := Bool.eq_false_iff.mpr hfits
          simp only [dumptuples, hfull]
          exact tapes hstatus hno hfull
  | bounded => exact keep hstatus
  | buildRuns =>
      simp only [dumptuples]
      cases hfits : check.fits with
      | true => exact run hstatus hfits
      | false => exact dump hstatus hfits

/-! ## Memory accounting -/

/-- The status of a sort and the number of tuples it holds in memory. -/
structure Room where
  status : SortStatus
  held : Nat
  deriving DecidableEq

/-- How one more tuple changes the room, given what the memory checks say. -/
def Room.put (bounded : Bool) (bound : Nat) (room : Room) (check : MemoryCheck) : Room :=
  match room.status with
  | SortStatus.initial =>
      if switchToHeap bounded bound (room.held + 1) check then ⟨SortStatus.bounded, bound⟩
      else if check.fits then ⟨SortStatus.initial, room.held + 1⟩
      else ⟨SortStatus.buildRuns, 0⟩
  | SortStatus.bounded => room
  | SortStatus.buildRuns => ⟨SortStatus.buildRuns, if check.fits then room.held + 1 else 0⟩

/-- The room after `count` tuples. -/
def Room.after (bounded : Bool) (bound : Nat) (memory : Nat → MemoryCheck) : Nat → Room
  | 0 => ⟨SortStatus.initial, 0⟩
  | count + 1 => (Room.after bounded bound memory count).put bounded bound (memory count)

/-- A sort that stays in memory holds every tuple, or has a full heap. -/
theorem Room.after_of_fits (bounded : Bool) (bound : Nat) {memory : Nat → MemoryCheck}
    (hmemory : ∀ read, (memory read).fits = true) (count : Nat) :
    Room.after bounded bound memory count = ⟨SortStatus.initial, count⟩ ∨
      Room.after bounded bound memory count = ⟨SortStatus.bounded, bound⟩ := by
  induction count with
  | zero => exact Or.inl rfl
  | succ count ih =>
      rw [Room.after]
      rcases ih with heq | heq
      · rw [heq, Room.put, hmemory count]
        simp only [if_true]
        split
        · exact Or.inr rfl
        · exact Or.inl rfl
      · rw [heq]
        exact Or.inr rfl

/-- The room that a state takes up. -/
def Tuplesortstate.room (state : Tuplesortstate α) : Room := ⟨state.status, state.memtupcount⟩

theorem writeRun_outside (state : Tuplesortstate α) :
    (writeRun routines state).status = state.status ∧
      (writeRun routines state).bounded = state.bounded ∧
      (writeRun routines state).bound = state.bound := by
  unfold writeRun tuplesortSortMemtuples
  split <;> exact ⟨rfl, rfl, rfl⟩

/-- A put leaves the bound alone. -/
theorem puttupleCommon_bound (check : MemoryCheck) (state : Tuplesortstate α) (tuple : α) :
    (puttupleCommon routines check state tuple).bounded = state.bounded ∧
      (puttupleCommon routines check state tuple).bound = state.bound := by
  apply puttupleCommon_cases routines check state tuple
    (motive := fun after => after.bounded = state.bounded ∧ after.bound = state.bound)
  case heap =>
    intro _ _
    have houtside : Tuplesortstate.Outside _ (makeBoundedHeap key (state.save tuple)) :=
      makeBoundedHeap_outside (state.save tuple)
    exact ⟨houtside.bounded_eq, houtside.bound_eq⟩
  case keep =>
    intro _
    have houtside : state.Outside (boundedPut key state tuple) :=
      boundedPut_outside ⟨rfl, rfl, rfl, rfl⟩ tuple
    exact ⟨houtside.bounded_eq, houtside.bound_eq⟩
  case array => exact fun _ _ _ => ⟨rfl, rfl⟩
  case tapes => exact fun _ _ _ => (writeRun_outside routines _).2
  case run => exact fun _ _ => ⟨rfl, rfl⟩
  case dump => exact fun _ _ => (writeRun_outside routines _).2

/-- A put follows the accounting. -/
theorem puttupleCommon_room (check : MemoryCheck) (state : Tuplesortstate α) (tuple : α) :
    (puttupleCommon routines check state tuple).room =
      state.room.put state.bounded state.bound check := by
  apply puttupleCommon_cases routines check state tuple
    (motive := fun after => after.room = state.room.put state.bounded state.bound check)
  case heap =>
    intro hstatus hswitch
    have hcount : (makeBoundedHeap key (state.save tuple)).memtupcount =
        min (state.memtupcount + 1) state.bound :=
      makeBoundedHeap_memtupcount (state.save tuple)
    have hle : state.bound ≤ state.memtupcount + 1 := by
      simp only [switchToHeap, Bool.and_eq_true, Bool.or_eq_true, decide_eq_true_eq] at hswitch
      omega
    simp only [Tuplesortstate.room, Room.put, hstatus, hswitch, if_true, hcount, min_eq_right hle]
    rfl
  case array =>
    intro hstatus hswitch hfits
    simp [Tuplesortstate.room, Room.put, Tuplesortstate.save, hstatus, hswitch, hfits]
  case tapes =>
    intro hstatus hswitch hfits
    have hout := (writeRun_outside routines (inittapes (state.save tuple))).1
    simp only [Tuplesortstate.room, Room.put, hstatus, hswitch, hfits, hout]
    rfl
  case keep =>
    intro hstatus
    have houtside : state.Outside (boundedPut key state tuple) :=
      boundedPut_outside ⟨rfl, rfl, rfl, rfl⟩ tuple
    simp [Tuplesortstate.room, Room.put, hstatus, houtside.status_eq, boundedPut_memtupcount]
  case run =>
    intro hstatus hfits
    simp [Tuplesortstate.room, Room.put, Tuplesortstate.save, hstatus, hfits]
  case dump =>
    intro hstatus hfits
    have hout := (writeRun_outside routines (state.save tuple)).1
    simp only [Tuplesortstate.room, Room.put, hstatus, hfits, hout]
    simp [Tuplesortstate.save, hstatus, writeRun]

/-- The tuples that a state holds, in memory and in its runs. -/
def Tuplesortstate.stored (state : Tuplesortstate α) : Nat :=
  state.memtupcount + state.runs.flatten.length

/-- Sorting the array moves tuples about in it. -/
theorem tuplesortSortMemtuples_spec (state : Tuplesortstate α) :
    (loaded state.memtupcount (tuplesortSortMemtuples routines state).memtuples).Pairwise
        (AscendingBy key) ∧
      contents state.memtupcount (tuplesortSortMemtuples routines state).memtuples =
        contents state.memtupcount state.memtuples ∧
      state.Outside (tuplesortSortMemtuples routines state) ∧
      (tuplesortSortMemtuples routines state).memtupcount = state.memtupcount := by
  unfold tuplesortSortMemtuples
  split
  next =>
    have hperm := routines.qsort_perm (loaded state.memtupcount state.memtuples)
    have hlength := hperm.length_eq
    rw [length_loaded] at hlength
    have hsorted := loaded_overwrite hlength state.memtuples
    refine ⟨?_, ?_, ⟨rfl, rfl, rfl, rfl⟩, rfl⟩
    · rw [hsorted]
      exact routines.qsort_sorted _
    · change ((loaded state.memtupcount _ : List α) : Multiset α) = _
      rw [hsorted]
      exact Multiset.coe_eq_coe.mpr hperm
  next hfew =>
    refine ⟨?_, rfl, ⟨rfl, rfl, rfl, rfl⟩, rfl⟩
    rw [loaded, List.pairwise_map]
    refine List.pairwise_lt_range.imp_of_mem ?_
    intro first second _ hsecond hlt
    have hsecond := List.mem_range.mp hsecond
    omega

/-- Writing a run moves the tuples in memory to the end of the runs, in order. -/
theorem writeRun_spec (state : Tuplesortstate α) :
    ∃ run : List α, (writeRun routines state).runs = state.runs ++ [run] ∧
      (run : Multiset α) = contents state.memtupcount state.memtuples ∧
      run.Pairwise (AscendingBy key) ∧ (writeRun routines state).memtupcount = 0 := by
  obtain ⟨hsorted, hcontents, houtside, hcount⟩ := tuplesortSortMemtuples_spec routines state
  refine ⟨loaded state.memtupcount (tuplesortSortMemtuples routines state).memtuples, ?_,
    hcontents, hsorted, rfl⟩
  simp only [writeRun, houtside.runs_eq, hcount]

theorem contents_save (state : Tuplesortstate α) (tuple : α) :
    contents (state.save tuple).memtupcount (state.save tuple).memtuples =
      tuple ::ₘ contents state.memtupcount state.memtuples := by
  simp only [Tuplesortstate.save, contents_succ, Function.update_self]
  congr 1
  exact contents_congr fun index hindex => Function.update_of_ne hindex.ne _ _

theorem writeRun_stored (state : Tuplesortstate α) :
    (writeRun routines state).stored = state.stored := by
  obtain ⟨run, hruns, hrun, _, hcount⟩ := writeRun_spec routines state
  have hlength : run.length = state.memtupcount := by
    rw [← Multiset.coe_card, hrun, card_contents]
  simp only [Tuplesortstate.stored, hruns, hcount, List.flatten_append, List.length_append,
    List.flatten_singleton, hlength]
  omega

/-- A sort never holds more tuples than were put into it. -/
theorem puttupleCommon_stored (check : MemoryCheck) (state : Tuplesortstate α) (tuple : α) :
    (puttupleCommon routines check state tuple).stored ≤ state.stored + 1 := by
  have hsave : (state.save tuple).stored = state.stored + 1 := by
    simp only [Tuplesortstate.stored, Tuplesortstate.save]
    omega
  apply puttupleCommon_cases routines check state tuple
    (motive := fun after => after.stored ≤ state.stored + 1)
  case heap =>
    intro _ _
    have houtside : Tuplesortstate.Outside _ (makeBoundedHeap key (state.save tuple)) :=
      makeBoundedHeap_outside (state.save tuple)
    rw [← hsave, Tuplesortstate.stored, makeBoundedHeap_memtupcount, houtside.runs_eq]
    simp only [Tuplesortstate.stored]
    omega
  case array => exact fun _ _ _ => hsave.le
  case tapes =>
    exact fun _ _ _ => ((writeRun_stored routines (inittapes (state.save tuple))).trans hsave).le
  case keep =>
    intro _
    have houtside : state.Outside (boundedPut key state tuple) :=
      boundedPut_outside ⟨rfl, rfl, rfl, rfl⟩ tuple
    simp only [Tuplesortstate.stored, boundedPut_memtupcount, houtside.runs_eq]
    omega
  case run => exact fun _ _ => hsave.le
  case dump => exact fun _ _ => ((writeRun_stored routines (state.save tuple)).trans hsave).le

/-! ## The rows of a sort -/

/-- How a state holds `rows`. A heap keeps only the smallest, up to the bound. -/
inductive Loads (key : α → K) (rows : Multiset α) (state : Tuplesortstate α) : Prop
  | array (hstatus : state.status = SortStatus.initial) (hruns : state.runs = [])
      (hall : contents state.memtupcount state.memtuples = rows)
  | heap (hstatus : state.status = SortStatus.bounded) (hbounded : state.bounded = true)
      (hfull : state.memtupcount = state.bound) (hkeeps : KeepsSmallest key state.bound rows state)
  | tapes (hstatus : state.status = SortStatus.buildRuns)
      (hall : ↑state.runs.flatten + contents state.memtupcount state.memtuples = rows)
      (hsorted : ∀ run ∈ state.runs, run.Pairwise (AscendingBy key))

/-- Writing a run keeps the rows, whether the sort was on tape before or not. -/
theorem Loads.writeRun {rows : Multiset α} {state : Tuplesortstate α}
    (hstatus : state.status = SortStatus.buildRuns)
    (hall : ↑state.runs.flatten + contents state.memtupcount state.memtuples = rows)
    (hsorted : ∀ run ∈ state.runs, run.Pairwise (AscendingBy key)) :
    Loads key rows (writeRun routines state) := by
  obtain ⟨run, hruns, hrun, horder, hcount⟩ := writeRun_spec routines state
  refine Loads.tapes ((writeRun_outside routines state).1.trans hstatus) ?_ ?_
  · rw [hruns, hcount, ← hall, ← hrun, List.flatten_append, List.flatten_singleton,
      ← Multiset.coe_add]
    exact add_zero _
  · intro other hother
    rw [hruns] at hother
    rcases List.mem_append.mp hother with hmem | hmem
    · exact hsorted other hmem
    · rw [List.mem_singleton.mp hmem]
      exact horder

/-- The switch to a bounded heap keeps the smallest of what the array held. -/
theorem Loads.switch {rows : Multiset α} {state : Tuplesortstate α}
    (hall : contents state.memtupcount state.memtuples = rows) (hbounded : state.bounded = true)
    (hpos : 0 < state.bound) (hfull : state.bound ≤ state.memtupcount) :
    Loads key rows (makeBoundedHeap key state) := by
  have houtside : Tuplesortstate.Outside _ (makeBoundedHeap key state) :=
    makeBoundedHeap_outside state
  refine Loads.heap rfl (houtside.bounded_eq.trans hbounded) ?_ ?_
  · rw [makeBoundedHeap_memtupcount, houtside.bound_eq]
    exact min_eq_right hfull
  · rw [houtside.bound_eq, ← hall]
    exact makeBoundedHeap_keeps hpos

theorem Loads.put {rows : Multiset α} {state : Tuplesortstate α} (hloads : Loads key rows state)
    (hbound : state.bounded = true → 0 < state.bound) (check : MemoryCheck) (tuple : α) :
    Loads key (tuple ::ₘ rows) (puttupleCommon routines check state tuple) := by
  have hsave := contents_save state tuple
  cases hloads with
  | array hstatus hruns hall =>
      rw [hall] at hsave
      apply puttupleCommon_cases routines check state tuple (motive := Loads key (tuple ::ₘ rows))
      case heap =>
        intro _ hswitch
        simp only [switchToHeap, Bool.and_eq_true, Bool.or_eq_true, decide_eq_true_eq] at hswitch
        refine Loads.switch hsave hswitch.1 (hbound hswitch.1) ?_
        simp only [Tuplesortstate.save] at hswitch ⊢
        omega
      case array => exact fun _ _ _ => Loads.array hstatus hruns hsave
      case tapes =>
        intro _ _ _
        refine Loads.writeRun routines rfl ?_ ?_
        · simp only [inittapes, Tuplesortstate.save, hruns, List.flatten_nil, Multiset.coe_nil,
            zero_add]
          exact hsave
        · intro run hrun
          simp [inittapes, Tuplesortstate.save, hruns] at hrun
      all_goals simp [hstatus]
  | heap hstatus hbounded hfull hkeeps =>
      have houtside : state.Outside (boundedPut key state tuple) :=
        boundedPut_outside ⟨rfl, rfl, rfl, rfl⟩ tuple
      have hput : puttupleCommon routines check state tuple = boundedPut key state tuple := by
        simp only [puttupleCommon, hstatus]
      rw [hput]
      refine Loads.heap (houtside.status_eq.trans hstatus)
        (houtside.bounded_eq.trans hbounded) ?_ ?_
      · rw [boundedPut_memtupcount, houtside.bound_eq, hfull]
      · rw [houtside.bound_eq]
        exact hkeeps.boundedPut (hbound hbounded) hfull tuple
  | tapes hstatus hall hsorted =>
      have hmore : ↑(state.save tuple).runs.flatten +
          contents (state.save tuple).memtupcount (state.save tuple).memtuples =
            tuple ::ₘ rows := by
        rw [hsave, ← hall, Multiset.add_cons]
        rfl
      apply puttupleCommon_cases routines check state tuple (motive := Loads key (tuple ::ₘ rows))
      case run => exact fun _ _ => Loads.tapes hstatus hmore hsorted
      case dump => exact fun _ _ => Loads.writeRun routines hstatus hmore hsorted
      all_goals simp [hstatus]

/-! ## What comes out -/

/-- The tuples still to be delivered. -/
def SortedTuples.output : SortedTuples α → List α
  | SortedTuples.inMem _ _ memtupcount memtuples current =>
      (loaded memtupcount memtuples).drop current
  | SortedTuples.onTape resultTape => resultTape

/-- `count` more tuples may be asked for without exceeding the bound. -/
def SortedTuples.Allows (count : Nat) : SortedTuples α → Prop
  | SortedTuples.inMem bounded bound _ _ current => bounded = true → current + count ≤ bound
  | SortedTuples.onTape _ => True

theorem sortBoundedHeap_outside (state : Tuplesortstate α) :
    state.Outside (sortBoundedHeap key state) := by
  have hrun : state.Outside (Loop.run Tuplesortstate.memtupcount (unheapifyRound key) state) :=
    Loop.run_invariant unheapifyRound_decreases (motive := state.Outside)
      (by
        intro reached next houtside hround
        obtain ⟨_, rfl⟩ := unheapifyRound_some hround
        exact ⟨houtside.status_eq, houtside.bounded_eq, houtside.bound_eq, houtside.runs_eq⟩)
      state ⟨rfl, rfl, rfl, rfl⟩
  exact ⟨hrun.status_eq, hrun.bounded_eq, hrun.bound_eq, hrun.runs_eq⟩

/-- The sort delivers its rows in order: all of them, or the smallest up to the bound. -/
theorem tuplesortPerformsort_spec {rows : Multiset α} {state : Tuplesortstate α}
    (hloads : Loads key rows state) (check : MemoryCheck) :
    (tuplesortPerformsort routines check state).output.Pairwise (AscendingBy key) ∧
      (↑(tuplesortPerformsort routines check state).output = rows ∨
        state.bounded = true ∧ SmallestBy key state.bound rows
          ↑(tuplesortPerformsort routines check state).output) := by
  cases hloads with
  | array hstatus hruns hall =>
      obtain ⟨hsorted, hcontents, _, hcount⟩ := tuplesortSortMemtuples_spec routines state
      simp only [tuplesortPerformsort, hstatus, SortedTuples.output, List.drop_zero, hcount]
      exact ⟨hsorted, Or.inl (hcontents.trans hall)⟩
  | heap hstatus hbounded hfull hkeeps =>
      obtain ⟨hsorted, hcontents⟩ := sortBoundedHeap_spec hkeeps.heap
      simp only [tuplesortPerformsort, hstatus, SortedTuples.output, List.drop_zero]
      refine ⟨hsorted, Or.inr ⟨hbounded, ?_⟩⟩
      have hsmallest := hkeeps.smallest
      rw [← hcontents] at hsmallest
      exact hsmallest
  | tapes hstatus hall hsorted =>
      have hwritten := Loads.writeRun routines hstatus hall hsorted
      simp only [tuplesortPerformsort, hstatus, SortedTuples.output, dumptuples, Bool.not_true,
        Bool.and_false, Bool.false_eq_true, if_false]
      cases hwritten with
      | array h => rw [(writeRun_outside routines state).1, hstatus] at h; simp at h
      | heap h => rw [(writeRun_outside routines state).1, hstatus] at h; simp at h
      | tapes _ hall' hsorted' =>
          have hperm := routines.mergeruns_perm (writeRun routines state).runs
          refine ⟨routines.mergeruns_sorted _ hsorted', Or.inl ?_⟩
          rw [← hall', Multiset.coe_eq_coe.mpr hperm]
          exact (add_zero _).symm

theorem tuplesortPerformsort_length (check : MemoryCheck) (state : Tuplesortstate α) :
    (tuplesortPerformsort routines check state).output.length ≤ state.stored := by
  unfold tuplesortPerformsort
  cases state.status with
  | initial =>
      obtain ⟨_, _, _, hcount⟩ := tuplesortSortMemtuples_spec routines state
      simp only [SortedTuples.output, List.drop_zero, length_loaded, hcount, Tuplesortstate.stored]
      omega
  | bounded =>
      simp only [SortedTuples.output, List.drop_zero, length_loaded, sortBoundedHeap,
        Tuplesortstate.stored]
      omega
  | buildRuns =>
      have hstored := writeRun_stored routines state
      obtain ⟨_, _, _, _, hcount⟩ := writeRun_spec routines state
      simp only [SortedTuples.output, dumptuples, Bool.not_true, Bool.and_false,
        Bool.false_eq_true, if_false, (routines.mergeruns_perm _).length_eq]
      simp only [Tuplesortstate.stored, hcount] at hstored ⊢
      omega

theorem tuplesortPerformsort_allows (check : MemoryCheck) {state : Tuplesortstate α} {count : Nat}
    (hcount : state.bounded = true → count ≤ state.bound) :
    (tuplesortPerformsort routines check state).Allows count := by
  unfold tuplesortPerformsort
  cases state.status with
  | initial =>
      obtain ⟨_, _, houtside, _⟩ := tuplesortSortMemtuples_spec routines state
      simp only [SortedTuples.Allows, houtside.bounded_eq, houtside.bound_eq, zero_add]
      exact hcount
  | bounded =>
      have houtside : state.Outside (sortBoundedHeap key state) := sortBoundedHeap_outside state
      simp only [SortedTuples.Allows, houtside.bounded_eq, houtside.bound_eq, zero_add]
      exact hcount
  | buildRuns => trivial

/-- While tuples are left, a call delivers the first. -/
theorem tuplesortGettupleCommon_cons {sorted : SortedTuples α} {tuple : α} {rest : List α}
    (houtput : sorted.output = tuple :: rest) :
    ∃ next, tuplesortGettupleCommon sorted = Except.ok (some tuple, next) ∧ next.output = rest ∧
      ∀ count, sorted.Allows (count + 1) → next.Allows count := by
  cases sorted with
  | inMem bounded bound memtupcount memtuples current =>
      simp only [SortedTuples.output] at houtput
      have hlt : current < (loaded memtupcount memtuples).length := by
        by_contra hge
        rw [List.drop_eq_nil_of_le (not_lt.mp hge)] at houtput
        simp at houtput
      rw [List.drop_eq_getElem_cons hlt] at houtput
      obtain ⟨rfl, rfl⟩ := List.cons.inj houtput
      rw [length_loaded] at hlt
      refine ⟨SortedTuples.inMem bounded bound memtupcount memtuples (current + 1), ?_, rfl, ?_⟩
      · simp [tuplesortGettupleCommon, hlt, loaded]
      · intro count hallows hbounded
        have := hallows hbounded
        omega
  | onTape resultTape =>
      simp only [SortedTuples.output] at houtput
      subst houtput
      exact ⟨_, rfl, rfl, fun _ _ => trivial⟩

/-- When none is left, a call says so unless it is one too many. -/
theorem tuplesortGettupleCommon_nil {sorted : SortedTuples α} (houtput : sorted.output = [])
    {count : Nat} (hallows : sorted.Allows (count + 1)) :
    tuplesortGettupleCommon sorted = Except.ok (none, sorted) := by
  cases sorted with
  | inMem bounded bound memtupcount memtuples current =>
      have hge : memtupcount ≤ current := by
        simpa [SortedTuples.output] using houtput
      have hwithin : ¬ (bounded = true ∧ bound ≤ current) := by
        rintro ⟨hbounded, hle⟩
        have := hallows hbounded
        omega
      simp [tuplesortGettupleCommon, not_lt.mpr hge, hwithin]
  | onTape resultTape =>
      simp only [SortedTuples.output] at houtput
      subst houtput
      rfl

/-- A call returns a tuple only by taking it off the output. -/
theorem tuplesortGettupleCommon_some {sorted next : SortedTuples α} {tuple : α}
    (hget : tuplesortGettupleCommon sorted = Except.ok (some tuple, next)) :
    sorted.output = tuple :: next.output := by
  cases houtput : sorted.output with
  | cons first rest =>
      obtain ⟨after, hfirst, hrest, _⟩ := tuplesortGettupleCommon_cons houtput
      rw [hfirst] at hget
      simp only [Except.ok.injEq, Prod.mk.injEq, Option.some.injEq] at hget
      obtain ⟨rfl, rfl⟩ := hget
      rw [hrest]
  | nil =>
      cases sorted with
      | inMem bounded bound memtupcount memtuples current =>
          have hge : memtupcount ≤ current := by
            simpa [SortedTuples.output] using houtput
          simp only [tuplesortGettupleCommon, not_lt.mpr hge, if_false] at hget
          split at hget <;> simp at hget
      | onTape resultTape =>
          simp only [SortedTuples.output] at houtput
          subst houtput
          simp [tuplesortGettupleCommon] at hget

end VBase.Executor
