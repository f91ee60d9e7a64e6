import VBase.AccessMethod.LifeCycle
import Mathlib.Data.List.ReduceOption

/-! # Scans of a stream of results

An iterator delivers a stream of results and then none, however often it is asked.
What the calls of `gettuple` return depends on the stream only. A call goes through the
stream up to a result that it emits or gives up at, and the next call starts at the
result after that one, with what the filter keeps between calls.
-/

namespace VBase.AccessMethod

open PriorityQueue

variable {D I W F : Type}

/-! ## Streams -/

/-- The iterator delivers the results of a stream, and then none. -/
def IteratorLibrary.Streams (lib : IteratorLibrary D I W) (iter : I) (world : W)
    (stream : List (UInt64 × D)) : Prop :=
  ∀ count, lib.results count iter world =
    (stream.map some ++ List.replicate count none).take count

section Streams

variable {lib : IteratorLibrary D I W} {iter : I} {world : W}

/-- What follows the end of a stream does not depend on how much of it is written out. -/
theorem take_ended (stream : List (Option (UInt64 × D))) (count : Nat) :
    (stream ++ List.replicate (count + 1) none).take count =
      (stream ++ List.replicate count none).take count := by
  rw [List.replicate_succ', ← List.append_assoc, List.take_append_of_le_length (by simp)]

theorem IteratorLibrary.Streams.nil (hstream : lib.Streams iter world []) :
    (lib.next iter world).1 = none ∧
      lib.Streams (lib.next iter world).2.1 (lib.next iter world).2.2 [] := by
  have hnext (count : Nat) := hstream (count + 1)
  simp only [results, List.map_nil, List.nil_append, List.replicate_succ, List.take_succ_cons,
    List.cons.injEq] at hnext
  exact ⟨(hnext 0).1, fun count => (hnext count).2⟩

theorem IteratorLibrary.Streams.cons {result : UInt64 × D} {rest : List (UInt64 × D)}
    (hstream : lib.Streams iter world (result :: rest)) :
    (lib.next iter world).1 = some result ∧
      lib.Streams (lib.next iter world).2.1 (lib.next iter world).2.2 rest := by
  have hnext (count : Nat) := hstream (count + 1)
  simp only [results, List.map_cons, List.cons_append, List.take_succ_cons,
    List.cons.injEq] at hnext
  exact ⟨(hnext 0).1, fun count => (hnext count).2.trans (take_ended _ count)⟩

theorem resultList_streams (results : List D → List (UInt64 × D)) (stream : List (UInt64 × D))
    (world : Unit) : (resultList results).Streams stream world stream := by
  intro count
  induction count generalizing stream with
  | zero => rfl
  | succ count ih =>
      rw [IteratorLibrary.results]
      cases stream with
      | nil => exact congrArg (List.cons none) (ih [])
      | cons result rest =>
          exact congrArg (List.cons (some result)) ((ih rest).trans (take_ended _ count).symm)

end Streams

/-! ## Calls -/

section Calls

variable (turn : D → F → Turn × F) (reset : F → F)

/-- One call of `gettuple` on a stream: its outcome, and the filter and the stream after it. -/
def fetchFrom : F → List (UInt64 × D) → Option (UInt64 × D) × F × List (UInt64 × D)
  | filter, [] => (none, filter, [])
  | filter, result :: rest =>
      match turn result.2 filter with
      | (Turn.stop, after) => (none, after, rest)
      | (Turn.skip, after) => fetchFrom after rest
      | (Turn.emit, after) => (some result, after, rest)

/-- Successive calls on a stream. `reset` says what the filter keeps between two calls. -/
def callsFrom : Nat → F → List (UInt64 × D) →
    List (Option (UInt64 × D)) × F × List (UInt64 × D)
  | 0, filter, stream => ([], filter, stream)
  | count + 1, filter, stream =>
      let (found, after, rest) := fetchFrom turn filter stream
      let (later, last, left) := callsFrom count (reset after) rest
      (found :: later, last, left)

/-- The calls up to the first that returns false: what they emit, and the filter and the stream
after them. -/
def sessionFrom : F → List (UInt64 × D) → List (UInt64 × D) × F × List (UInt64 × D)
  | filter, [] => ([], reset filter, [])
  | filter, result :: rest =>
      match turn result.2 filter with
      | (Turn.stop, after) => ([], reset after, rest)
      | (Turn.skip, after) => sessionFrom after rest
      | (Turn.emit, after) =>
          let (rows, last, left) := sessionFrom (reset after) rest
          (result :: rows, last, left)

variable {reset}

/-- The loop of `gettuple` sees its iterator only through the stream. -/
theorem Fetching.run_streams {lib : IteratorLibrary D I W} {iter : I} {world : W}
    {stream : List (UInt64 × D)} (hstream : lib.Streams iter world stream) (filter : F) :
    let ran := Fetching.run lib turn iter world filter
    ran.outcome = some (fetchFrom turn filter stream).1 ∧
      ran.filter = (fetchFrom turn filter stream).2.1 ∧
      lib.Streams ran.iter ran.world (fetchFrom turn filter stream).2.2 := by
  have hunroll {state : Fetching D I W F}
      (hstep : step lib turn ⟨iter, world, filter, none⟩ = some state) :
      run lib turn iter world filter = Loop.run (measure lib) (step lib turn) state :=
    Loop.run_of_some (step_decreases lib turn) hstep
  induction stream generalizing iter world filter with
  | nil =>
      obtain ⟨hnext, hrest⟩ := hstream.nil
      rcases hafter : lib.next iter world with ⟨result, iter', world'⟩
      rw [hafter] at hnext hrest
      obtain rfl : result = none := hnext
      have hstep : step lib turn ⟨iter, world, filter, none⟩ =
          some ⟨iter', world', filter, some none⟩ := by
        simp [step, hafter]
      rw [hunroll hstep, Loop.run_of_none rfl]
      exact ⟨rfl, rfl, hrest⟩
  | cons result rest ih =>
      obtain ⟨hnext, hrest⟩ := hstream.cons
      rcases hafter : lib.next iter world with ⟨found, iter', world'⟩
      rw [hafter] at hnext hrest
      obtain rfl : found = some result := hnext
      rw [fetchFrom]
      rcases hturn : turn result.2 filter with ⟨_ | _ | _, after⟩
      · have hstep : step lib turn ⟨iter, world, filter, none⟩ =
            some ⟨iter', world', after, some none⟩ := by
          simp [step, hafter, hturn]
        rw [hunroll hstep, Loop.run_of_none rfl]
        exact ⟨rfl, rfl, hrest⟩
      · have hstep : step lib turn ⟨iter, world, filter, none⟩ =
            some ⟨iter', world', after, none⟩ := by
          simp [step, hafter, hturn]
        rw [hunroll hstep]
        exact ih hrest after fun hnext =>
          Loop.run_of_some (step_decreases lib turn) hnext
      · have hstep : step lib turn ⟨iter, world, filter, none⟩ =
            some ⟨iter', world', after, some (some result)⟩ := by
          simp [step, hafter, hturn]
        rw [hunroll hstep, Loop.run_of_none rfl]
        exact ⟨rfl, rfl, hrest⟩

variable {turn}

/-- A session is what its calls return, and the calls after it go on with what it leaves. -/
theorem callsFrom_session (filter : F) (stream : List (UInt64 × D)) (more : Nat) :
    let session := sessionFrom turn reset filter stream
    (callsFrom turn reset (session.1.length + 1 + more) filter stream).1 =
      session.1.map some ++ none :: (callsFrom turn reset more session.2.1 session.2.2).1 := by
  induction stream generalizing filter with
  | nil =>
      simp only [sessionFrom, List.length_nil]
      rw [Nat.zero_add, Nat.add_comm, callsFrom, fetchFrom]
      rfl
  | cons result rest ih =>
      rw [sessionFrom]
      rcases hturn : turn result.2 filter with ⟨_ | _ | _, after⟩
      · simp only [List.length_nil]
        rw [Nat.zero_add, Nat.add_comm, callsFrom, fetchFrom, hturn]
        rfl
      · have hskip (count : Nat) : (callsFrom turn reset (count + 1) filter (result :: rest)).1 =
            (callsFrom turn reset (count + 1) after rest).1 := by
          rw [callsFrom, callsFrom, fetchFrom, hturn]
        simp only
        rw [Nat.add_right_comm, hskip, ← Nat.add_right_comm]
        exact ih after
      · simp only [List.length_cons, List.map_cons, List.cons_append]
        rw [Nat.add_right_comm, Nat.add_right_comm _ 1 more, callsFrom, fetchFrom, hturn]
        simp only [List.cons.injEq, true_and]
        rw [Nat.add_right_comm]
        exact ih (reset after)

/-- A filter that emits the results within a range, and no others, as long as `keeps` holds. -/
structure Accepts (turn : D → F → Turn × F) (reset : F → F) (within : D → Bool)
    (keeps : F → Prop) : Prop where
  emit_iff : ∀ dist {filter}, keeps filter →
    ((turn dist filter).1 = Turn.emit ↔ within dist = true)
  turn_keeps : ∀ dist {filter}, keeps filter → keeps (turn dist filter).2
  reset_keeps : ∀ {filter}, keeps filter → keeps (reset filter)

variable {within : D → Bool} {keeps : F → Prop}

/-- A call goes through the front of the stream and emits at most its last result. -/
theorem Accepts.fetchFrom_eq (haccepts : Accepts turn reset within keeps) {filter : F}
    (hkeeps : keeps filter) (stream : List (UInt64 × D)) :
    ∃ examined, stream = examined ++ (fetchFrom turn filter stream).2.2 ∧
      (fetchFrom turn filter stream).1.toList =
        examined.filter (fun result => within result.2) ∧
      (examined = [] → stream = []) ∧ keeps (fetchFrom turn filter stream).2.1 := by
  induction stream generalizing filter with
  | nil => exact ⟨[], rfl, rfl, fun _ => rfl, hkeeps⟩
  | cons result rest ih =>
      have hemit := haccepts.emit_iff result.2 hkeeps
      have hafter := haccepts.turn_keeps result.2 hkeeps
      rw [fetchFrom]
      rcases hturn : turn result.2 filter with ⟨kind, after⟩
      rw [hturn] at hemit hafter
      cases kind with
      | stop =>
          have hout : within result.2 = false := by simpa using hemit
          exact ⟨[result], rfl, by simp [hout], by simp, hafter⟩
      | skip =>
          have hout : within result.2 = false := by simpa using hemit
          obtain ⟨examined, hstream, hfound, -, hlast⟩ := ih hafter
          refine ⟨result :: examined, ?_, ?_, by simp, hlast⟩
          · rw [List.cons_append, ← hstream]
          · rw [List.filter_cons_of_neg (by simp [hout]), ← hfound]
      | emit =>
          have hin : within result.2 = true := by simpa using hemit
          exact ⟨[result], rfl, by simp [hin], by simp, hafter⟩

/-- The calls go through the front of the stream and emit the results within the range. Every
call examines a result, until there is none left. -/
theorem Accepts.callsFrom_eq (haccepts : Accepts turn reset within keeps) (count : Nat)
    {filter : F} (hkeeps : keeps filter) (stream : List (UInt64 × D)) :
    ∃ examined, stream = examined ++ (callsFrom turn reset count filter stream).2.2 ∧
      (callsFrom turn reset count filter stream).1.reduceOption =
        examined.filter (fun result => within result.2) ∧
      (stream.length ≤ count → (callsFrom turn reset count filter stream).2.2 = []) := by
  induction count generalizing filter stream with
  | zero => exact ⟨[], rfl, rfl, fun hlength => List.length_eq_zero_iff.mp (Nat.le_zero.mp hlength)⟩
  | succ count ih =>
      obtain ⟨first, hfirst, hfound, hprogress, hlast⟩ := haccepts.fetchFrom_eq hkeeps stream
      rcases hfetch : fetchFrom turn filter stream with ⟨found, after, rest⟩
      rw [hfetch] at hfirst hfound hlast
      obtain ⟨examined, hrest, hlater, hall⟩ := ih (haccepts.reset_keeps hlast) rest
      simp only [callsFrom, hfetch]
      refine ⟨first ++ examined, ?_, ?_, fun hlength => hall ?_⟩
      · rw [List.append_assoc, ← hrest]
        exact hfirst
      · rw [List.filter_append, ← hlater, ← hfound]
        cases found <;> simp
      · cases first with
        | nil =>
            have hnil : rest = [] := hfirst.symm.trans (hprogress rfl)
            simp [hnil]
        | cons result others =>
            have hsplit := congrArg List.length hfirst
            rw [List.length_append, List.length_cons] at hsplit
            dsimp only at hsplit
            omega

end Calls

/-! ## Access methods -/

/-- The calls of an access method on scans that stand at a stream with a filter. -/
structure ReadsStream {S α : Type} (gettuple : S → Except Fault (Bool × S)) (observe : S → α)
    (tuple : UInt64 × D → α) (turn : D → F → Turn × F) (reset : F → F)
    (stands : F → List (UInt64 × D) → S → Prop) : Prop where
  call : ∀ {filter stream s}, stands filter stream s →
    ∃ s', gettuple s = Except.ok ((fetchFrom turn filter stream).1.isSome, s') ∧
      stands (reset (fetchFrom turn filter stream).2.1) (fetchFrom turn filter stream).2.2 s' ∧
      ∀ result ∈ (fetchFrom turn filter stream).1, observe s' = tuple result

/-- The calls return what calls on the stream return. -/
theorem ReadsStream.returned_eq {S α : Type} {gettuple : S → Except Fault (Bool × S)}
    {observe : S → α} {tuple : UInt64 × D → α} {turn : D → F → Turn × F} {reset : F → F}
    {stands : F → List (UInt64 × D) → S → Prop}
    (hreads : ReadsStream gettuple observe tuple turn reset stands) (count : Nat) {filter : F}
    {stream : List (UInt64 × D)} {s : S} (hstands : stands filter stream s) :
    ∃ last, returned gettuple observe count s =
        Except.ok ((callsFrom turn reset count filter stream).1.map (Option.map tuple), last) ∧
      stands (callsFrom turn reset count filter stream).2.1
        (callsFrom turn reset count filter stream).2.2 last := by
  induction count generalizing filter stream s with
  | zero => exact ⟨s, rfl, hstands⟩
  | succ count ih =>
      obtain ⟨s', hget, hstands', hobserve⟩ := hreads.call hstands
      obtain ⟨last, hrest, hlast⟩ := ih hstands'
      refine ⟨last, ?_, hlast⟩
      rw [returned, hget]
      simp only [bind, Except.bind, hrest, pure, Except.pure, callsFrom, List.map_cons]
      cases hfound : (fetchFrom turn filter stream).1 with
      | none => rfl
      | some result => simp [hobserve result hfound]

/-- Up to the first false, the calls return the rows of the session. -/
theorem ReadsStream.session {S α : Type} {gettuple : S → Except Fault (Bool × S)} {observe : S → α}
    {tuple : UInt64 × D → α} {turn : D → F → Turn × F} {reset : F → F}
    {stands : F → List (UInt64 × D) → S → Prop}
    (hreads : ReadsStream gettuple observe tuple turn reset stands) {filter : F}
    {stream : List (UInt64 × D)} {s : S} (hstands : stands filter stream s) :
    let rows := (sessionFrom turn reset filter stream).1
    ∃ last, returned gettuple observe (rows.length + 1) s =
      Except.ok (rows.map (fun row => some (tuple row)) ++ [none], last) := by
  intro rows
  obtain ⟨last, hreturned, -⟩ := hreads.returned_eq (rows.length + 1) hstands
  have hcalls : (callsFrom turn reset (rows.length + 1) filter stream).1 =
      rows.map some ++ [none] := callsFrom_session filter stream 0
  rw [hcalls, List.map_append, List.map_map] at hreturned
  exact ⟨last, hreturned⟩

end VBase.AccessMethod
