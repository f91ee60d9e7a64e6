import VBase.AccessMethod.SptagScan

/-! # The life cycle of a scan

Between `begin_scan` and `endscan` a scan descriptor goes through sessions, each
a `rescan` and the `gettuple` calls after it. Seen by its pointers a scan is idle,
bare (a workspace without an iterator) or ready. Both access methods move between
these phases in the same way, and a bare scan can neither be rescanned nor ended.
What differs is which keys let a search begin.
-/

namespace VBase.AccessMethod

/-- The operations of an access method on a scan that has begun. -/
structure AmRoutine (D S W : Type) where
  keys : S → ScanKeys D
  rescan : S → Option (ScanKey D) → Option (ScanKey D) → Except Fault S
  gettuple : S → Except Fault (Bool × S)
  endscan : S → Except Fault W

inductive ScanCall (D : Type)
  | rescan (keys orderbys : Option (ScanKey D))
  | gettuple

namespace AmRoutine

variable {D S W : Type} (am : AmRoutine D S W)

def call (s : S) : ScanCall D → Except Fault S
  | ScanCall.rescan keys orderbys => am.rescan s keys orderbys
  | ScanCall.gettuple => (am.gettuple s).map Prod.snd

/-- The calls between `begin_scan` and `endscan`, and `endscan`. -/
def lifeCycle : List (ScanCall D) → S → Except Fault W
  | [], s => am.endscan s
  | event :: rest, s => do
      let s ← am.call s event
      lifeCycle rest s

end AmRoutine

/-! ## Phases -/

/-- What the key in force leads to: no search, a search that reads through a null pointer, or
one that begins. -/
inductive KeyState
  | missing
  | broken
  | usable
  deriving DecidableEq

/-- The state of the keys, for an access method whose search begins as `begins` says. -/
def ScanKeys.state {D : Type} (begins : Query D → Except Fault Unit) (scan : ScanKeys D) :
    KeyState :=
  match scan.ask with
  | none => KeyState.missing
  | some asked =>
      match asked.bind begins with
      | Except.error _ => KeyState.broken
      | Except.ok _ => KeyState.usable

/-- Keys that hnsw can search with: the key in force is there, not null, and has an array that is
not empty if it is read. -/
def ScanKeys.HnswUsable {D : Type} (readsQuery : Bool) (scan : ScanKeys D) : Prop :=
  ∃ query, scan.ask = some (Except.ok query) ∧ (readsQuery = true → query.array ≠ [])

/-- Keys that sptag can search with. The index has to be ready, and the query of a range key is
what follows the radius. -/
def ScanKeys.SptagUsable {D : Type} (entry : VectorIndexEntry) (scan : ScanKeys D) : Prop :=
  ∃ readsQuery query, entry = VectorIndexEntry.ready readsQuery ∧
    scan.ask = some (Except.ok query) ∧ (readsQuery = true → query.target ≠ [])

theorem ScanKeys.state_eq_usable {D : Type} {begins : Query D → Except Fault Unit}
    {scan : ScanKeys D} :
    scan.state begins = KeyState.usable ↔
      ∃ query, scan.ask = some (Except.ok query) ∧ begins query = Except.ok () := by
  unfold ScanKeys.state
  rcases scan.ask with _ | (fault | query)
  · simp
  · simp [Except.bind]
  · cases hbegins : begins query <;> simp [Except.bind, hbegins]

theorem hnswReadQuery_eq_ok {D : Type} {readsQuery : Bool} {array : List D} :
    hnswReadQuery readsQuery array = Except.ok () ↔ (readsQuery = true → array ≠ []) := by
  unfold hnswReadQuery
  cases readsQuery <;> cases array <;> simp

theorem beginScan_eq_ok {D : Type} {entry : VectorIndexEntry} {target : List D} :
    entry.beginScan target = Except.ok () ↔
      ∃ readsQuery, entry = VectorIndexEntry.ready readsQuery ∧
        (readsQuery = true → target ≠ []) := by
  unfold VectorIndexEntry.beginScan
  cases entry with
  | null => simp
  | notReady => simp
  | ready readsQuery => cases readsQuery <;> cases target <;> simp

theorem ScanKeys.hnswUsable_iff {D : Type} {readsQuery : Bool} {scan : ScanKeys D} :
    scan.HnswUsable readsQuery ↔
      scan.state (fun query => hnswReadQuery readsQuery query.array) = KeyState.usable := by
  simp only [ScanKeys.HnswUsable, ScanKeys.state_eq_usable, hnswReadQuery_eq_ok]

theorem ScanKeys.sptagUsable_iff {D : Type} {entry : VectorIndexEntry} {scan : ScanKeys D} :
    scan.SptagUsable entry ↔
      scan.state (fun query => entry.beginScan query.target) = KeyState.usable := by
  simp only [ScanKeys.SptagUsable, ScanKeys.state_eq_usable, beginScan_eq_ok]
  constructor
  · rintro ⟨readsQuery, query, hentry, hask, hread⟩
    exact ⟨query, hask, readsQuery, hentry, hread⟩
  · rintro ⟨query, hask, readsQuery, hentry, hread⟩
    exact ⟨readsQuery, query, hentry, hask, hread⟩

inductive Phase
  | idle
  | bare
  | ready
  deriving DecidableEq

namespace Phase

/-- A rescan closes the iterator of the workspace it finds. -/
def rescan : Phase → Option Phase
  | idle => some idle
  | bare => none
  | ready => some idle

/-- The key matters until a search has begun. -/
def gettuple : Phase → KeyState → Option Phase
  | ready, _ => some ready
  | _, KeyState.usable => some ready
  | _, KeyState.missing => some bare
  | _, KeyState.broken => none

end Phase

/-- A scan moves through the phases: `inPhase` says which one its pointers are in, and `begins`
what happens when a search begins. -/
structure AmRoutine.Follows {D S W : Type} (am : AmRoutine D S W)
    (begins : Query D → Except Fault Unit) (inPhase : S → Phase → Prop) : Prop where
  rescan : ∀ {s phase}, inPhase s phase → ∀ keys orderbys,
    match phase.rescan with
    | none => ∃ fault, am.rescan s keys orderbys = Except.error fault
    | some after => ∃ s', am.rescan s keys orderbys = Except.ok s' ∧ inPhase s' after ∧
        am.keys s' = (am.keys s).set keys orderbys
  gettuple : ∀ {s phase}, inPhase s phase →
    match phase.gettuple ((am.keys s).state begins) with
    | none => ∃ fault, am.gettuple s = Except.error fault
    | some after => ∃ returned s', am.gettuple s = Except.ok (returned, s') ∧ inPhase s' after ∧
        am.keys s' = am.keys s
  endscan : ∀ {s phase}, inPhase s phase →
    ((am.endscan s).isOk ↔ phase = Phase.ready)

/-! ## Sessions -/

/-- The keys in force from a rescan to the next, and the `gettuple` calls in between. -/
structure Session (D : Type) where
  keys : ScanKeys D
  calls : Nat

/-- The sessions of a call sequence; `calls` have been made under `keys` so far. -/
def sessions {D : Type} (keys : ScanKeys D) (calls : Nat) : List (ScanCall D) → List (Session D)
  | [] => [⟨keys, calls⟩]
  | ScanCall.gettuple :: rest => sessions keys (calls + 1) rest
  | ScanCall.rescan given orderbys :: rest =>
      ⟨keys, calls⟩ :: sessions (keys.set given orderbys) 0 rest

/-- Every session that fetches has a usable key, and the last session fetches. -/
def WellUsed {D : Type} (usable : ScanKeys D → Prop) (list : List (Session D)) : Prop :=
  (∀ session ∈ list, 0 < session.calls → usable session.keys) ∧
    ∀ session ∈ list.getLast?, 0 < session.calls

theorem wellUsed_congr {D : Type} {usable usable' : ScanKeys D → Prop}
    (husable : ∀ keys, usable keys ↔ usable' keys) (list : List (Session D)) :
    WellUsed usable list ↔ WellUsed usable' list := by
  simp only [WellUsed, husable]

/-- The phase that `calls` calls under `keys` lead to. -/
def Phase.After (phase : Phase) (state : KeyState) (calls : Nat) : Prop :=
  match phase with
  | idle => calls = 0
  | bare => 0 < calls ∧ state = KeyState.missing
  | ready => 0 < calls ∧ state = KeyState.usable

/-- The key in force decides what a further call does, also after a search has begun. -/
theorem Phase.After.gettuple {phase : Phase} {state : KeyState} {calls : Nat}
    (hafter : phase.After state calls) : phase.gettuple state = Phase.idle.gettuple state := by
  cases phase with
  | idle => rfl
  | bare => cases state <;> rfl
  | ready =>
      rw [hafter.2]
      rfl

namespace AmRoutine

variable {D S W : Type} {am : AmRoutine D S W} {begins : Query D → Except Fault Unit}
  {inPhase : S → Phase → Prop} {usable : ScanKeys D → Prop}

theorem sessions_ne_nil (keys : ScanKeys D) (calls : Nat) (rest : List (ScanCall D)) :
    sessions keys calls rest ≠ [] := by
  induction rest generalizing calls with
  | nil => simp [sessions]
  | cons event rest ih =>
      cases event with
      | rescan given orderbys => simp [sessions]
      | gettuple => exact ih (calls + 1)

/-- The current session only gets longer. -/
theorem mem_sessions (keys : ScanKeys D) (calls : Nat) (rest : List (ScanCall D)) :
    ∃ total, calls ≤ total ∧ ⟨keys, total⟩ ∈ sessions keys calls rest := by
  induction rest generalizing calls with
  | nil => exact ⟨calls, le_rfl, by simp [sessions]⟩
  | cons event rest ih =>
      cases event with
      | rescan given orderbys => exact ⟨calls, le_rfl, by simp [sessions]⟩
      | gettuple =>
          obtain ⟨total, hle, hmem⟩ := ih (calls + 1)
          exact ⟨total, by omega, hmem⟩

theorem not_wellUsed {keys : ScanKeys D} {calls : Nat} (hcalls : 0 < calls)
    (hkeys : ¬ usable keys) (rest : List (ScanCall D)) :
    ¬ WellUsed usable (sessions keys calls rest) := by
  obtain ⟨total, hle, hmem⟩ := mem_sessions keys calls rest
  intro hused
  exact hkeys (hused.1 _ hmem (by simp only; omega))

theorem wellUsed_cons {session : Session D} {list : List (Session D)} (hlist : list ≠ []) :
    WellUsed usable (session :: list) ↔
      (0 < session.calls → usable session.keys) ∧ WellUsed usable list := by
  unfold WellUsed
  rw [List.getLast?_cons_of_ne_nil hlist]
  simp only [List.forall_mem_cons]
  exact and_assoc

theorem lifeCycle_of_ok {s after : S} {event : ScanCall D}
    (hcall : am.call s event = Except.ok after) (rest : List (ScanCall D)) :
    am.lifeCycle (event :: rest) s = am.lifeCycle rest after := by
  rw [lifeCycle, hcall]
  rfl

theorem lifeCycle_of_error {s : S} {event : ScanCall D} {fault : Fault}
    (hcall : am.call s event = Except.error fault) (rest : List (ScanCall D)) :
    (am.lifeCycle (event :: rest) s).isOk = false := by
  rw [lifeCycle, hcall]
  rfl

/-- From every phase, the calls in `rest` are free of faults exactly when the sessions are well
used. -/
def Settles (am : AmRoutine D S W) (begins : Query D → Except Fault Unit)
    (inPhase : S → Phase → Prop) (rest : List (ScanCall D)) : Prop :=
  ∀ ⦃s phase calls⦄, inPhase s phase → phase.After ((am.keys s).state begins) calls →
    ((am.lifeCycle rest s).isOk ↔
      WellUsed (fun keys => keys.state begins = KeyState.usable)
        (sessions (am.keys s) calls rest))

namespace Follows

theorem settles_nil (hfollows : am.Follows begins inPhase) : am.Settles begins inPhase [] := by
  intro s phase calls hphase hafter
  rw [AmRoutine.lifeCycle, hfollows.endscan hphase]
  simp only [sessions, WellUsed, List.mem_singleton, forall_eq, List.getLast?_singleton,
    Option.mem_def, Option.some.injEq, forall_eq']
  cases phase with
  | idle =>
      simp only [Phase.After] at hafter
      simp [hafter]
  | bare => simp [hafter.1, hafter.2]
  | ready => simp [hafter.1, hafter.2]

theorem settles_rescan (hfollows : am.Follows begins inPhase) {rest : List (ScanCall D)}
    (hrest : am.Settles begins inPhase rest) (given orderbys : Option (ScanKey D)) :
    am.Settles begins inPhase (ScanCall.rescan given orderbys :: rest) := by
  intro s phase calls hphase hafter
  have hstep := hfollows.rescan hphase given orderbys
  -- without a fault the next session begins idle, with the new keys
  have hnext : ∀ s', am.rescan s given orderbys = Except.ok s' → inPhase s' Phase.idle →
      am.keys s' = (am.keys s).set given orderbys →
      ((am.lifeCycle (ScanCall.rescan given orderbys :: rest) s).isOk ↔
        WellUsed (fun keys => keys.state begins = KeyState.usable)
          (sessions ((am.keys s).set given orderbys) 0 rest)) := by
    intro s' hrescan hidle hkeys
    have hcall : am.call s (ScanCall.rescan given orderbys) = Except.ok s' := hrescan
    rw [lifeCycle_of_ok hcall, ← hkeys]
    exact hrest hidle rfl
  rw [sessions, wellUsed_cons (sessions_ne_nil _ _ _)]
  cases phase with
  | idle =>
      obtain ⟨s', hrescan, hidle, hkeys⟩ := hstep
      have hcalls : calls = 0 := hafter
      rw [hnext s' hrescan hidle hkeys]
      simp [hcalls]
  | bare =>
      obtain ⟨fault, hrescan⟩ := hstep
      have hcall : am.call s (ScanCall.rescan given orderbys) = Except.error fault := hrescan
      rw [lifeCycle_of_error hcall]
      simp [hafter.1, hafter.2]
  | ready =>
      obtain ⟨s', hrescan, hidle, hkeys⟩ := hstep
      rw [hnext s' hrescan hidle hkeys]
      simp [hafter.2]

theorem settles_gettuple (hfollows : am.Follows begins inPhase) {rest : List (ScanCall D)}
    (hrest : am.Settles begins inPhase rest) :
    am.Settles begins inPhase (ScanCall.gettuple :: rest) := by
  intro s phase calls hphase hafter
  have hstep := hfollows.gettuple hphase
  have hnext : ∀ returned s' after, am.gettuple s = Except.ok (returned, s') →
      inPhase s' after → am.keys s' = am.keys s →
      after.After ((am.keys s).state begins) (calls + 1) →
      ((am.lifeCycle (ScanCall.gettuple :: rest) s).isOk ↔
        WellUsed (fun keys => keys.state begins = KeyState.usable)
          (sessions (am.keys s) (calls + 1) rest)) := by
    intro returned s' after hgettuple hphase' hkeys hafter'
    have hcall : am.call s ScanCall.gettuple = Except.ok s' := by
      simp only [AmRoutine.call, hgettuple]
      rfl
    rw [lifeCycle_of_ok hcall, ← hkeys]
    exact hrest hphase' (hkeys ▸ hafter')
  rw [sessions]
  rw [hafter.gettuple] at hstep
  cases hstate : ((am.keys s).state begins) with
  | usable =>
      rw [hstate] at hstep
      obtain ⟨returned, s', hgettuple, hphase', hkeys⟩ := hstep
      exact hnext returned s' Phase.ready hgettuple hphase' hkeys ⟨Nat.succ_pos _, hstate⟩
  | missing =>
      rw [hstate] at hstep
      obtain ⟨returned, s', hgettuple, hphase', hkeys⟩ := hstep
      exact hnext returned s' Phase.bare hgettuple hphase' hkeys ⟨Nat.succ_pos _, hstate⟩
  | broken =>
      rw [hstate] at hstep
      obtain ⟨fault, hgettuple⟩ := hstep
      have hcall : am.call s ScanCall.gettuple = Except.error fault := by
        simp only [AmRoutine.call, hgettuple]
        rfl
      have hunused : ¬ WellUsed (fun keys => keys.state begins = KeyState.usable)
          (sessions (am.keys s) (calls + 1) rest) :=
        not_wellUsed (Nat.succ_pos calls) (by rw [hstate]; decide) rest
      rw [lifeCycle_of_error hcall]
      simpa using hunused

/-- A life cycle is free of faults exactly when its sessions are well used. -/
theorem settles (hfollows : am.Follows begins inPhase) (rest : List (ScanCall D)) :
    am.Settles begins inPhase rest := by
  induction rest with
  | nil => exact hfollows.settles_nil
  | cons event rest ih =>
      cases event with
      | rescan given orderbys => exact hfollows.settles_rescan ih given orderbys
      | gettuple => exact hfollows.settles_gettuple ih

end Follows

end AmRoutine

/-- Until a search has begun, the key decides what a call does. -/
theorem gettuple_of_first {D S W : Type} {am : AmRoutine D S W}
    {begins : Query D → Except Fault Unit} {inPhase : S → Phase → Prop} {s : S} {phase : Phase}
    {bare : S} {fetch : Query D → Except Fault (Bool × S)} (hphase : phase ≠ Phase.ready)
    (hcall : am.gettuple s =
      match (am.keys s).ask with
      | none => Except.ok (false, bare)
      | some asked => asked.bind fun query => (begins query).bind fun _ => fetch query)
    (hbare : inPhase bare Phase.bare ∧ am.keys bare = am.keys s)
    (hfetch : ∀ query, ∃ returned s', fetch query = Except.ok (returned, s') ∧
      inPhase s' Phase.ready ∧ am.keys s' = am.keys s) :
    match phase.gettuple ((am.keys s).state begins) with
    | none => ∃ fault, am.gettuple s = Except.error fault
    | some after => ∃ returned s', am.gettuple s = Except.ok (returned, s') ∧ inPhase s' after ∧
        am.keys s' = am.keys s := by
  have hidle : ∀ state, phase.gettuple state = Phase.idle.gettuple state := by
    cases phase with
    | idle => exact fun _ => rfl
    | bare => exact fun state => by cases state <;> rfl
    | ready => exact absurd rfl hphase
  rw [hidle, hcall]
  unfold ScanKeys.state
  rcases (am.keys s).ask with _ | (fault | query)
  · exact ⟨false, bare, rfl, hbare⟩
  · exact ⟨fault, rfl⟩
  · obtain ⟨returned, s', hreturned, hready, hkeys⟩ := hfetch query
    simp only [Except.bind]
    cases begins query with
    | error fault => exact ⟨fault, rfl⟩
    | ok _ => exact ⟨returned, s', hreturned, hready, hkeys⟩

/-! ## The two access methods -/

section

variable {Q : {T K : Type} → [LinearOrder K] → (T → K) → Type} [PriorityQueue Q]
variable {D I W : Type} [LinearOrder D] (lib : IteratorLibrary D I W)

def hnswRoutineOver (readsQuery : Bool) (width : Nat) : AmRoutine D (HNSWScan Q D I W) W where
  keys := fun s => s.scan.toScanKeys
  rescan := hnswRescan lib
  gettuple := hnswGettupleOver lib readsQuery width
  endscan := hnswEndscan lib

def hnswRoutine (width : Nat) : AmRoutine D (HNSWScan Q D I W) W :=
  hnswRoutineOver lib false width

def HNSWScan.InPhase (s : HNSWScan Q D I W) : Phase → Prop
  | Phase.idle => s.scanState.first = true ∧ s.scanState.workSpace = none
  | Phase.bare => s.scanState.first = true ∧
      ∃ workSpace, s.scanState.workSpace = some workSpace ∧ workSpace.resultIterator = none
  | Phase.ready => s.scanState.first = false ∧ ∃ workSpace iter,
      s.scanState.workSpace = some workSpace ∧ workSpace.resultIterator = some iter

omit [PriorityQueue Q] in
theorem HNSWScan.InPhase.first {s : HNSWScan Q D I W} {phase : Phase} (hphase : s.InPhase phase)
    (hne : phase ≠ Phase.ready) : s.scanState.first = true := by
  cases phase with
  | idle => exact hphase.1
  | bare => exact hphase.1
  | ready => exact absurd rfl hne

/-- With an iterator in place the loop runs, and leaves one in place. -/
theorem hnswFetch_ready {s : HNSWScan Q D I W} (hready : s.InPhase Phase.ready) :
    ∃ returned s', hnswFetch lib s = Except.ok (returned, s') ∧ s'.InPhase Phase.ready ∧
      s'.scan.toScanKeys = s.scan.toScanKeys := by
  obtain ⟨hfirst, workSpace, iter, hworkSpace, hiter⟩ := hready
  simp only [hnswFetch, hworkSpace, hiter]
  refine ⟨_, _, rfl, ⟨hfirst, _, _, rfl, rfl⟩, ?_⟩
  unfold HNSWScan.store
  simp only
  split <;> rfl

theorem hnswRoutineOver_follows (readsQuery : Bool) (width : Nat) :
    (hnswRoutineOver lib readsQuery width : AmRoutine D (HNSWScan Q D I W) W).Follows
      (fun query => hnswReadQuery readsQuery query.array) HNSWScan.InPhase where
  rescan := by
    intro s phase hphase keys orderbys
    cases phase with
    | idle =>
        obtain ⟨-, hworkSpace⟩ := hphase
        simp only [hnswRoutineOver, hnswRescan, hworkSpace]
        exact ⟨_, rfl, ⟨rfl, rfl⟩, rfl⟩
    | bare =>
        obtain ⟨-, workSpace, hworkSpace, hiter⟩ := hphase
        simp only [hnswRoutineOver, hnswRescan, hworkSpace, hiter]
        exact ⟨_, rfl⟩
    | ready =>
        obtain ⟨-, workSpace, iter, hworkSpace, hiter⟩ := hphase
        simp only [hnswRoutineOver, hnswRescan, hworkSpace, hiter]
        exact ⟨_, rfl, ⟨rfl, rfl⟩, rfl⟩
  gettuple := by
    intro s phase hphase
    by_cases hready : phase = Phase.ready
    · subst hready
      obtain ⟨returned, s', hfetch, hphase', hkeys⟩ := hnswFetch_ready lib hphase
      exact ⟨returned, s', (hnswGettupleOver_later lib readsQuery hphase.1).trans hfetch, hphase',
        hkeys⟩
    have hfirst := hphase.first hready
    apply gettuple_of_first hready (hnswGettupleOver_first lib readsQuery hfirst)
    · exact ⟨⟨hfirst, _, rfl, rfl⟩, rfl⟩
    · intro query
      have hstarted : (s.started lib width query).InPhase Phase.ready := by
        cases query <;> exact ⟨rfl, _, _, rfl, rfl⟩
      obtain ⟨returned, s', hfetch, hphase', hkeys⟩ := hnswFetch_ready lib hstarted
      exact ⟨returned, s', hfetch, hphase', hkeys.trans (by cases query <;> rfl)⟩
  endscan := by
    intro s phase hphase
    cases phase with
    | idle => simp [hnswRoutineOver, hnswEndscan, hphase.2, Except.isOk, Except.toBool]
    | bare =>
        obtain ⟨-, workSpace, hworkSpace, hiter⟩ := hphase
        simp [hnswRoutineOver, hnswEndscan, hworkSpace, hiter, endScan, Except.isOk, Except.toBool]
    | ready =>
        obtain ⟨-, workSpace, iter, hworkSpace, hiter⟩ := hphase
        simp [hnswRoutineOver, hnswEndscan, hworkSpace, hiter, endScan, Except.isOk, Except.toBool]

def sptagRoutineOver (entry : VectorIndexEntry) : AmRoutine D (SPTAGScan D I W) W where
  keys := fun s => s.scan.toScanKeys
  rescan := sptagRescan lib
  gettuple := sptagGettupleOver lib entry
  endscan := sptagEndscan lib

def sptagRoutine : AmRoutine D (SPTAGScan D I W) W :=
  sptagRoutineOver lib (VectorIndexEntry.ready false)

def SPTAGScan.InPhase (s : SPTAGScan D I W) : Phase → Prop
  | Phase.idle => s.scanState.first = true ∧ s.scanState.workSpace = none
  | Phase.bare => s.scanState.first = true ∧ s.scanState.workSpace = some none
  | Phase.ready => s.scanState.first = false ∧ s.scanState.data.isSome ∧
      ∃ iter, s.scanState.workSpace = some (some iter)

omit [LinearOrder D] in
theorem SPTAGScan.InPhase.first {s : SPTAGScan D I W} {phase : Phase} (hphase : s.InPhase phase)
    (hne : phase ≠ Phase.ready) : s.scanState.first = true := by
  cases phase with
  | idle => exact hphase.1
  | bare => exact hphase.1
  | ready => exact absurd rfl hne

/-- The state in which `sptag_gettuple` begins its search. -/
def SPTAGScan.started (s : SPTAGScan D I W) : Query D → SPTAGScan D I W
  | Query.order target => s.start lib { s.scanState with hasRangeFilter := false } target
  | Query.range radius target =>
      s.start lib { s.scanState with
        hasRangeFilter := true, inRange := false, range := Range.radius radius } target

omit [LinearOrder D] in
theorem sptagFirst_eq (entry : VectorIndexEntry) (s : SPTAGScan D I W) :
    sptagFirst lib entry s =
      match s.scan.toScanKeys.ask with
      | none => Except.ok (false, s.bare)
      | some asked => asked.bind fun query =>
          (entry.beginScan query.target).map fun _ => (true, s.started lib query) := by
  unfold ScanKeys.ask sptagFirst
  cases s.scan.orderByData with
  | some key =>
      obtain ⟨isNull, argument⟩ := key
      cases isNull <;> rfl
  | none =>
      cases s.scan.keyData with
      | none => rfl
      | some key =>
          obtain ⟨isNull, argument⟩ := key
          cases isNull with
          | true => rfl
          | false => cases argument <;> rfl

/-- Before the first row of a session, the key decides what `sptag_gettuple` does. -/
theorem sptagGettupleOver_first (entry : VectorIndexEntry) {s : SPTAGScan D I W}
    (hfirst : s.scanState.first = true) :
    sptagGettupleOver lib entry s =
      match s.scan.toScanKeys.ask with
      | none => Except.ok (false, s.bare)
      | some asked => asked.bind fun query =>
          (entry.beginScan query.target).bind fun _ => sptagFetch lib (s.started lib query) := by
  simp only [sptagGettupleOver, hfirst, if_pos, sptagFirst_eq]
  rcases s.scan.toScanKeys.ask with _ | (fault | query)
  · rfl
  · rfl
  · change Except.bind (Except.map _ (entry.beginScan query.target)) _ =
      Except.bind (entry.beginScan query.target) _
    cases entry.beginScan query.target <;> rfl

theorem sptagGettupleOver_later (entry : VectorIndexEntry) {s : SPTAGScan D I W}
    (hfirst : s.scanState.first = false) : sptagGettupleOver lib entry s = sptagFetch lib s := by
  simp only [sptagGettupleOver, hfirst]
  rfl

theorem sptagGettuple_first {s : SPTAGScan D I W} (hfirst : s.scanState.first = true) :
    sptagGettuple lib s =
      match s.scan.toScanKeys.ask with
      | none => Except.ok (false, s.bare)
      | some asked => asked.bind fun query => sptagFetch lib (s.started lib query) := by
  rw [sptagGettuple, sptagGettupleOver_first lib _ hfirst]
  rfl

theorem sptagGettuple_later {s : SPTAGScan D I W} (hfirst : s.scanState.first = false) :
    sptagGettuple lib s = sptagFetch lib s :=
  sptagGettupleOver_later lib _ hfirst

theorem sptagGettuple_started {s : SPTAGScan D I W} {query : Query D}
    (hfirst : s.scanState.first = true)
    (hask : s.scan.toScanKeys.ask = some (Except.ok query)) :
    sptagGettuple lib s = sptagGettuple lib (s.started lib query) := by
  have hstarted : (s.started lib query).scanState.first = false := by
    cases query <;> rfl
  rw [sptagGettuple_first lib hfirst, hask, sptagGettuple_later lib hstarted]
  rfl

theorem sptagFetch_ready {s : SPTAGScan D I W} (hready : s.InPhase Phase.ready) :
    ∃ returned s', sptagFetch lib s = Except.ok (returned, s') ∧ s'.InPhase Phase.ready ∧
      s'.scan.toScanKeys = s.scan.toScanKeys := by
  obtain ⟨hfirst, hdata, iter, hworkSpace⟩ := hready
  simp only [sptagFetch, hworkSpace]
  refine ⟨_, _, rfl, ⟨hfirst, hdata, _, rfl⟩, ?_⟩
  unfold SPTAGScan.store
  simp only
  split <;> rfl

theorem sptagRoutineOver_follows (entry : VectorIndexEntry) :
    (sptagRoutineOver lib entry : AmRoutine D (SPTAGScan D I W) W).Follows
      (fun query => entry.beginScan query.target) SPTAGScan.InPhase where
  rescan := by
    intro s phase hphase keys orderbys
    cases phase with
    | idle =>
        obtain ⟨-, hworkSpace⟩ := hphase
        simp only [sptagRoutineOver, sptagRescan, hworkSpace]
        exact ⟨_, rfl, ⟨rfl, rfl⟩, rfl⟩
    | bare =>
        obtain ⟨-, hworkSpace⟩ := hphase
        simp only [sptagRoutineOver, sptagRescan, hworkSpace]
        exact ⟨_, rfl⟩
    | ready =>
        obtain ⟨-, hdata, iter, hworkSpace⟩ := hphase
        obtain ⟨data, hdata⟩ := Option.isSome_iff_exists.mp hdata
        simp only [sptagRoutineOver, sptagRescan, hworkSpace, hdata]
        exact ⟨_, rfl, ⟨rfl, rfl⟩, rfl⟩
  gettuple := by
    intro s phase hphase
    by_cases hready : phase = Phase.ready
    · subst hready
      obtain ⟨returned, s', hfetch, hphase', hkeys⟩ := sptagFetch_ready lib hphase
      exact ⟨returned, s', (sptagGettupleOver_later lib entry hphase.1).trans hfetch, hphase',
        hkeys⟩
    have hfirst := hphase.first hready
    apply gettuple_of_first hready (sptagGettupleOver_first lib entry hfirst)
    · exact ⟨⟨hfirst, rfl⟩, rfl⟩
    · intro query
      have hstarted : (s.started lib query).InPhase Phase.ready := by
        cases query <;> exact ⟨rfl, rfl, _, rfl⟩
      obtain ⟨returned, s', hfetch, hphase', hkeys⟩ := sptagFetch_ready lib hstarted
      exact ⟨returned, s', hfetch, hphase', hkeys.trans (by cases query <;> rfl)⟩
  endscan := by
    intro s phase hphase
    cases phase with
    | idle => simp [sptagRoutineOver, sptagEndscan, hphase.2, Except.isOk, Except.toBool]
    | bare =>
        simp only [sptagRoutineOver, sptagEndscan, hphase.2]
        exact iff_of_false Bool.false_ne_true (by decide)
    | ready =>
        obtain ⟨-, hdata, iter, hworkSpace⟩ := hphase
        obtain ⟨data, hdata⟩ := Option.isSome_iff_exists.mp hdata
        simp only [sptagRoutineOver, sptagEndscan, hworkSpace, hdata]
        exact iff_of_true rfl trivial

/-- A scan that has begun, run through `calls` and ended. -/
def hnswLifeCycle (readsQuery : Bool) (width : Nat) (uninit : IndexScanDesc D)
    (junk : ScanKey D × ScanKey D) (state : HNSWScanOpaque Q D I) (nkeys norderbys : Nat)
    (world : W) (calls : List (ScanCall D)) : Except Fault W :=
  (hnswRoutineOver lib readsQuery width).lifeCycle calls
    (hnswBeginScan uninit junk state nkeys norderbys world)

def sptagLifeCycle (entry : VectorIndexEntry) (uninit : IndexScanDesc D)
    (junk : ScanKey D × ScanKey D) (state : SPTAGScanOpaque D I) (nkeys norderbys : Nat) (world : W)
    (calls : List (ScanCall D)) : Except Fault W :=
  (sptagRoutineOver lib entry).lifeCycle calls
    (sptagBeginScan uninit junk state nkeys norderbys world)

end

/-- Neither access method is safe for every call sequence. Both are safe for exactly those
in which every session that calls `gettuple` has a key that a search can begin with, and
the last session calls `gettuple`. -/
theorem lifeCycle_safe_iff {Q : {T K : Type} → [LinearOrder K] → (T → K) → Type}
    [PriorityQueue Q] {D I W : Type} [LinearOrder D] (lib : IteratorLibrary D I W)
    (readsQuery : Bool) (entry : VectorIndexEntry) (width : Nat)
    (uninit : IndexScanDesc D) (junk : ScanKey D × ScanKey D) (state : HNSWScanOpaque Q D I)
    (state' : SPTAGScanOpaque D I) (nkeys norderbys : Nat) (world : W)
    (calls : List (ScanCall D)) :
    ((hnswLifeCycle lib readsQuery width uninit junk state nkeys norderbys world calls).isOk ↔
      WellUsed (ScanKeys.HnswUsable readsQuery)
        (sessions (relationGetIndexScan uninit junk nkeys norderbys).toScanKeys 0 calls)) ∧
    ((sptagLifeCycle lib entry uninit junk state' nkeys norderbys world calls).isOk ↔
      WellUsed (ScanKeys.SptagUsable entry)
        (sessions (relationGetIndexScan uninit junk nkeys norderbys).toScanKeys 0 calls)) := by
  have hidle : (hnswBeginScan uninit junk state nkeys norderbys world).InPhase Phase.idle :=
    ⟨rfl, rfl⟩
  have hidle' : (sptagBeginScan uninit junk state' nkeys norderbys world).InPhase Phase.idle :=
    ⟨rfl, rfl⟩
  rw [wellUsed_congr fun _ => ScanKeys.hnswUsable_iff,
    wellUsed_congr fun _ => ScanKeys.sptagUsable_iff]
  constructor
  · exact (hnswRoutineOver_follows lib readsQuery width).settles calls hidle rfl
  · exact (sptagRoutineOver_follows lib entry).settles calls hidle' rfl

/-- Ending a scan right after its rescan reads a null workspace, also with a good key, and
ending it after a call with a null key reads a null iterator. An empty array is read through a
null pointer, and so is the iterator of an index that is not ready. -/
theorem endscan_faults :
    let uninit : IndexScanDesc Int := ⟨⟨0, 0, none, none⟩, ⟨0, 0⟩, false, false, none, false⟩
    let junk : ScanKey Int × ScanKey Int := (⟨false, []⟩, ⟨false, []⟩)
    let lib := resultList (fun _ : List Int => [(1, 5)])
    let entry := VectorIndexEntry.ready true
    let state : HNSWScanOpaque @SortedQueue Int _ := ⟨false, false, false, Range.width 0, none⟩
    let state' : SPTAGScanOpaque Int _ := ⟨false, false, false, Range.width 0, none, none⟩
    (hnswLifeCycle lib true distanceQueueWidth uninit junk state 0 1 ()
        [ScanCall.rescan none (some ⟨false, [3]⟩)] = Except.error Fault.workSpace ∧
      sptagLifeCycle lib entry uninit junk state' 0 1 ()
        [ScanCall.rescan none (some ⟨false, [3]⟩)] = Except.error Fault.workSpace) ∧
    (hnswLifeCycle lib true distanceQueueWidth uninit junk state 0 1 ()
        [ScanCall.rescan none (some ⟨true, []⟩), ScanCall.gettuple] =
          Except.error Fault.resultIterator ∧
      sptagLifeCycle lib entry uninit junk state' 0 1 ()
        [ScanCall.rescan none (some ⟨true, []⟩), ScanCall.gettuple] =
          Except.error Fault.resultIterator) ∧
    (hnswLifeCycle lib true distanceQueueWidth uninit junk state 0 1 ()
        [ScanCall.rescan none (some ⟨false, []⟩), ScanCall.gettuple] =
          Except.error Fault.array ∧
      sptagLifeCycle lib entry uninit junk state' 0 1 ()
        [ScanCall.rescan none (some ⟨false, []⟩), ScanCall.gettuple] =
          Except.error Fault.data ∧
      sptagLifeCycle lib VectorIndexEntry.notReady uninit junk state' 0 1 ()
        [ScanCall.rescan none (some ⟨false, [3]⟩), ScanCall.gettuple] =
          Except.error Fault.resultIterator) :=
  ⟨⟨rfl, rfl⟩, ⟨rfl, rfl⟩, ⟨rfl, rfl, rfl⟩⟩

end VBase.AccessMethod
