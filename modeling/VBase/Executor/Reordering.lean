import VBase.Executor.IndexScan

/-! # Reordering

What `IndexNextWithReorder` returns for any sequence of index entries, whatever values the
index reports and in whatever order. Every turn of its loop moves one row: from the index
to the queue, from the queue to the caller, or from the index to the caller.
-/

namespace VBase.Executor

open AccessMethod PriorityQueue

variable {Q : {T K : Type} → [LinearOrder K] → (T → K) → Type} [PriorityQueue Q]
variable {D A α : Type} [LinearOrder D]

namespace IndexScan

/-! ## Fetching -/

section Fetching

omit [LinearOrder D]

variable (plan : IndexScan D A α)

/-- The row of an index entry, if it is visible and passes its recheck. -/
def passes (desc : IndexScanDesc D) : Option α :=
  (plan.fetchTuple desc.xsHeaptid).filter fun row => !desc.xsRecheck || plan.indexqualorig row

/-- The rows of a sequence of index entries. -/
def rows (entries : List (IndexScanDesc D × A)) : List α :=
  entries.filterMap fun entry => plan.passes entry.1

variable {plan}

@[simp] theorem rows_nil : plan.rows ([] : List (IndexScanDesc D × A)) = [] := rfl

theorem rows_of_split {skipped rest : List (IndexScanDesc D × A)} {desc : IndexScanDesc D}
    {after : A} {row : α} (hskipped : plan.rows skipped = []) (hrow : plan.passes desc = some row) :
    plan.rows (skipped ++ (desc, after) :: rest) = row :: plan.rows rest := by
  rw [rows] at hskipped ⊢
  rw [List.filterMap_append, hskipped, List.nil_append, List.filterMap_cons_some (by exact hrow),
    rows]

/-- An entry without a row is passed over. -/
theorem nextTuple_skip {scan next : A} {desc : IndexScanDesc D}
    (hpull : plan.am.getnextTid.pull scan = Except.ok (some desc, next))
    (hskip : plan.passes desc = none) (estate : EState) :
    ∃ estate', plan.nextTuple scan estate = plan.nextTuple next estate' := by
  cases hrow : plan.fetchTuple desc.xsHeaptid with
  | none =>
      have hslot : plan.getnextSlot.pull scan = plan.getnextSlot.pull next :=
        Source.search_pull_skip hpull (by rw [hrow]; rfl)
      refine ⟨estate, ?_⟩
      rw [nextTuple, nextTuple, Source.drive_eq, hslot, ← Source.drive_eq]
  | some row =>
      have hslot : plan.getnextSlot.pull scan = Except.ok (some (row, desc), next) :=
        Source.search_pull_some hpull (by rw [hrow]; rfl)
      rw [passes, hrow] at hskip
      have hdropped : plan.recheck (row, desc) next (estate, none) =
          ((⟨desc.xsInorder⟩, none), false) := by
        cases hrecheck : desc.xsRecheck <;> cases hqual : plan.indexqualorig row <;>
          simp_all [recheck, Option.filter]
      refine ⟨⟨desc.xsInorder⟩, ?_⟩
      rw [nextTuple, Source.drive_eq, hslot]
      simp only [hdropped, Bool.false_eq_true, if_false]
      rfl

theorem nextTuple_passes {scan after : A} {desc : IndexScanDesc D} {row : α}
    (hpull : plan.am.getnextTid.pull scan = Except.ok (some desc, after))
    (hrow : plan.passes desc = some row) (estate : EState) :
    plan.nextTuple scan estate = Except.ok (after, ⟨desc.xsInorder⟩, some (row, desc)) := by
  obtain ⟨hfetch, hqual⟩ := Option.filter_eq_some_iff.mp hrow
  exact nextTuple_some hpull hfetch (fun hrecheck => by simpa [hrecheck] using hqual) estate

/-- What the node fetches next: the first entry with a row, or the end of the index. -/
theorem nextTuple_cases {scan : A} {entries : List (IndexScanDesc D × A)}
    (hentries : plan.am.getnextTid.Yields scan entries) (estate : EState) :
    (∃ skipped desc after rest row estate', entries = skipped ++ (desc, after) :: rest ∧
      plan.rows skipped = [] ∧ plan.passes desc = some row ∧
      plan.am.getnextTid.Yields after rest ∧
      plan.nextTuple scan estate = Except.ok (after, estate', some (row, desc))) ∨
    (∃ before last estate', plan.rows entries = [] ∧
      (before = scan ∨ ∃ entry ∈ entries, before = entry.2) ∧
      plan.am.getnextTid.pull before = Except.ok (none, last) ∧
      plan.nextTuple scan estate = Except.ok (last, estate', none)) := by
  induction hentries generalizing estate with
  | @done scan last hdone =>
      exact Or.inr ⟨scan, last, estate, rfl, Or.inl rfl, hdone, nextTuple_none hdone estate⟩
  | @item scan next desc rest hitem hrest ih =>
      cases hrow : plan.passes desc with
      | some row =>
          exact Or.inl ⟨[], desc, next, rest, row, _, rfl, rfl, hrow, hrest,
            nextTuple_passes hitem hrow estate⟩
      | none =>
          obtain ⟨estate', hskip⟩ := nextTuple_skip hitem hrow estate
          have hrows (entries : List (IndexScanDesc D × A)) :
              plan.rows ((desc, next) :: entries) = plan.rows entries :=
            List.filterMap_cons_none hrow
          rw [hskip]
          rcases ih estate' with ⟨skipped, found, after, left, row, final, rfl, hskipped, hfound⟩ |
            ⟨before, last, final, hnone, hbefore, hlast⟩
          · exact Or.inl ⟨(desc, next) :: skipped, found, after, left, row, final, rfl,
              (hrows skipped).trans hskipped, hfound⟩
          · refine Or.inr ⟨before, last, final, (hrows rest).trans hnone, Or.inr ?_, hlast⟩
            rcases hbefore with rfl | ⟨entry, hentry, rfl⟩
            · exact ⟨_, List.mem_cons_self, rfl⟩
            · exact ⟨entry, List.mem_cons_of_mem _ hentry, rfl⟩

end Fetching

/-! ## Turns -/

/-- `topmost` after a turn has looked at the queue. -/
def latestTop (state : Reordering Q D A α) : Option (Option D) :=
  match top state.reorderQueue with
  | some topmost => some topmost.orderbyval
  | none => state.topmost

/-- What the queue and the entries that are left still hold. -/
def outstanding (plan : IndexScan D A α)
    (queue : Q (reorderqueueRank : ReorderTuple D α → (WithTop D)ᵒᵈ))
    (entries : List (IndexScanDesc D × A)) : Multiset α :=
  (elems queue).map ReorderTuple.htup + ↑(plan.rows entries)

/-- The index has `entries` left. -/
structure Stands (plan : IndexScan D A α) (scan : A) (reachedEnd : Bool)
    (entries : List (IndexScanDesc D × A)) : Prop where
  yields : reachedEnd = false → plan.am.getnextTid.Yields scan entries
  ended : reachedEnd = true → entries = []

/-- What a turn of the loop can do while the index has `entries` left. -/
inductive Turns (plan : IndexScan D A α) (state : Reordering Q D A α)
    (entries : List (IndexScanDesc D × A)) :
    Reordering Q D A α → List (IndexScanDesc D × A) → Prop
  | popped {topmost : ReorderTuple D α} (htop : top state.reorderQueue = some topmost) :
      Turns plan state entries { state with
        reorderQueue := pop state.reorderQueue
        topmost := some topmost.orderbyval
        outcome := some (Except.ok (some topmost.htup)) } entries
  | queued {skipped rest : List (IndexScanDesc D × A)} {desc : IndexScanDesc D} {after : A}
      {row : α} (estate : EState) (hentries : entries = skipped ++ (desc, after) :: rest)
      (hskipped : plan.rows skipped = []) (hrow : plan.passes desc = some row)
      (hwaits : (plan.lastfetched (row, desc)).1 = false ∨ (latestTop state).any (fun top =>
        decide (nullsLast top < nullsLast (plan.lastfetched (row, desc)).2)) = true) :
      Turns plan state entries { state with
        scan := after
        estate := estate
        topmost := latestTop state
        reorderQueue := push state.reorderQueue ⟨row, (plan.lastfetched (row, desc)).2⟩ } rest
  | returned {skipped rest : List (IndexScanDesc D × A)} {desc : IndexScanDesc D} {after : A}
      {row : α} (estate : EState) (hentries : entries = skipped ++ (desc, after) :: rest)
      (hskipped : plan.rows skipped = []) (hrow : plan.passes desc = some row) :
      Turns plan state entries { state with
        scan := after
        estate := estate
        topmost := latestTop state
        outcome := some (Except.ok (some row)) } rest
  | ended {before last : A} (estate : EState) (hnone : plan.rows entries = [])
      (hbefore : before = state.scan ∨ ∃ entry ∈ entries, before = entry.2)
      (hlast : plan.am.getnextTid.pull before = Except.ok (none, last)) :
      Turns plan state entries { state with
        scan := last
        estate := estate
        topmost := latestTop state
        reachedEnd := true } []
  | finished (htop : top state.reorderQueue = none) (hend : state.reachedEnd = true) :
      Turns plan state entries { state with outcome := some (Except.ok none) } entries

variable {plan : IndexScan D A α}

/-- The part of a turn after `next_indextuple`. -/
theorem fetchTurn_turns {state : Reordering Q D A α} {entries : List (IndexScanDesc D × A)}
    (hstands : plan.Stands state.scan state.reachedEnd entries)
    (hend : state.reachedEnd = false) :
    ∃ rest, Turns plan state entries (plan.fetchTurn { state with topmost := latestTop state })
        rest ∧
      plan.Stands (plan.fetchTurn { state with topmost := latestTop state }).scan
        (plan.fetchTurn { state with topmost := latestTop state }).reachedEnd rest := by
  unfold fetchTurn
  rcases nextTuple_cases (hstands.yields hend) state.estate with
    ⟨skipped, desc, after, rest, row, estate, hentries, hskipped, hrow, hrest, hnext⟩ |
    ⟨before, last, estate, hnone, hbefore, hlast, hnext⟩
  · have hafter : plan.Stands after state.reachedEnd rest :=
      ⟨fun _ => hrest, fun hreached => by rw [hend] at hreached; cases hreached⟩
    simp only [hnext]
    split
    next hwaits =>
      simp only [Bool.or_eq_true, Bool.not_eq_true'] at hwaits
      exact ⟨rest, Turns.queued estate hentries hskipped hrow hwaits, hafter⟩
    next =>
      exact ⟨rest, Turns.returned estate hentries hskipped hrow, hafter⟩
  · simp only [hnext]
    exact ⟨[], Turns.ended estate hnone hbefore hlast,
      ⟨nofun, fun _ => rfl⟩⟩

/-- A turn of the loop, while it runs. -/
theorem reorderTurn_turns {state next : Reordering Q D A α}
    {entries : List (IndexScanDesc D × A)}
    (hstands : plan.Stands state.scan state.reachedEnd entries)
    (hturn : plan.reorderTurn state = some next) :
    state.outcome = none ∧ ∃ rest, Turns plan state entries next rest ∧
      plan.Stands next.scan next.reachedEnd rest := by
  unfold reorderTurn at hturn
  split at hturn
  · cases hturn
  next hrunning =>
    refine ⟨by simpa using hrunning, ?_⟩
    split at hturn
    next topmost htop =>
      have hlatest : latestTop state = some topmost.orderbyval := by rw [latestTop, htop]
      split at hturn
      · obtain rfl := Option.some.inj hturn
        exact ⟨entries, Turns.popped htop, hstands⟩
      next hwait =>
        obtain rfl := Option.some.inj hturn
        rw [← hlatest]
        exact fetchTurn_turns hstands (by
          rw [Bool.or_eq_true, not_or] at hwait
          simpa using hwait.1)
    next htop =>
      have hlatest : latestTop state = state.topmost := by rw [latestTop, htop]
      split at hturn
      next hend =>
        obtain rfl := Option.some.inj hturn
        exact ⟨entries, Turns.finished htop hend, hstands⟩
      next hend =>
        obtain rfl := Option.some.inj hturn
        have hfetch := fetchTurn_turns hstands (by simpa using hend)
        rwa [hlatest] at hfetch

/-! ## What turns keep -/

/-- The row that an outcome hands to the caller. -/
def emitted : Option (Except Failure (Option α)) → List α
  | some (Except.ok (some row)) => [row]
  | _ => []

section Turns

variable {state next : Reordering Q D A α} {entries rest : List (IndexScanDesc D × A)}

theorem Turns.suffix (hturns : Turns plan state entries next rest) : rest <:+ entries := by
  cases hturns with
  | popped => exact List.suffix_rfl
  | queued _ hentries =>
      rw [hentries]
      exact (List.suffix_cons _ _).trans (List.suffix_append _ _)
  | returned _ hentries =>
      rw [hentries]
      exact (List.suffix_cons _ _).trans (List.suffix_append _ _)
  | ended => exact List.nil_suffix
  | finished => exact List.suffix_rfl

/-- No turn loses or duplicates a row. -/
theorem Turns.balance (hturns : Turns plan state entries next rest)
    (hrunning : state.outcome = none) :
    ↑(emitted next.outcome) + plan.outstanding next.reorderQueue rest =
      plan.outstanding state.reorderQueue entries := by
  cases hturns with
  | popped htop =>
      simp only [emitted, outstanding, elems_of_top_some _ _ htop, Multiset.map_cons,
        Multiset.cons_add, Multiset.coe_singleton, Multiset.singleton_add]
  | queued _ hentries hskipped hrow =>
      simp only [hrunning, emitted, outstanding, elems_push, Multiset.map_cons, Multiset.cons_add,
        Multiset.coe_nil, zero_add, hentries, rows_of_split hskipped hrow, ← Multiset.cons_coe,
        Multiset.add_cons]
  | returned _ hentries hskipped hrow =>
      simp only [emitted, outstanding, hentries, rows_of_split hskipped hrow,
        ← Multiset.cons_coe, Multiset.add_cons, Multiset.coe_nil, Multiset.cons_add, zero_add]
  | ended _ hnone => simp [hrunning, emitted, outstanding, hnone]
  | finished => simp [emitted]

/-- The loop does not fail, and it ends with nothing outstanding. -/
theorem Turns.sound (hturns : Turns plan state entries next rest)
    (hstands : plan.Stands state.scan state.reachedEnd entries)
    (hrunning : state.outcome = none) :
    (∀ failure, next.outcome ≠ some (Except.error failure)) ∧
      (next.outcome = some (Except.ok none) →
        plan.outstanding next.reorderQueue rest = 0) := by
  cases hturns with
  | popped => simp
  | queued => simp [hrunning]
  | returned => simp
  | ended => simp [hrunning]
  | finished htop hend =>
      refine ⟨by simp, fun _ => ?_⟩
      rw [outstanding, elems_of_top_none _ htop, hstands.ended hend]
      rfl

/-- Every entry with a row has an exact value. -/
def ExactValues (plan : IndexScan D A α) (entries : List (IndexScanDesc D × A)) : Prop :=
  ∀ entry ∈ entries, ∀ row, plan.passes entry.1 = some row →
    (plan.lastfetched (row, entry.1)).1 = true

/-- With exact values nothing is put into an empty queue, and a row is returned when it is
fetched. -/
theorem Turns.idle (hturns : Turns plan state entries next rest) (hrunning : state.outcome = none)
    (hqueue : elems state.reorderQueue = 0) (htopmost : state.topmost = none)
    (hexact : plan.ExactValues entries) :
    elems next.reorderQueue = 0 ∧ next.topmost = none ∧
      emitted next.outcome ++ plan.rows rest = plan.rows entries ∧
      ∀ row ∈ emitted next.outcome, ∃ entry ∈ entries, plan.passes entry.1 = some row ∧
        next.scan = entry.2 := by
  have hlatest : latestTop state = none := by
    rw [latestTop, top_eq_none_iff.mpr hqueue]
    exact htopmost
  cases hturns with
  | popped htop =>
      rw [top_eq_none_iff.mpr hqueue] at htop
      cases htop
  | queued _ hentries hskipped hrow hwaits =>
      have hmem := hexact _ (hentries ▸ List.mem_append_right _ List.mem_cons_self) _ hrow
      rw [hlatest, hmem] at hwaits
      simp at hwaits
  | returned _ hentries hskipped hrow =>
      refine ⟨hqueue, hlatest, ?_, ?_⟩
      · rw [hentries, rows_of_split hskipped hrow]
        rfl
      · intro row hemitted
        rw [List.mem_singleton.mp hemitted]
        exact ⟨_, hentries ▸ List.mem_append_right _ List.mem_cons_self, hrow, rfl⟩
  | ended _ hnone =>
      refine ⟨hqueue, hlatest, ?_, ?_⟩
      · rw [hnone, hrunning]
        rfl
      · simp [hrunning, emitted]
  | finished => exact ⟨hqueue, htopmost, rfl, by simp [emitted]⟩

/-- While rows are queued, and when a row is returned, the index scan stands at an entry that it
has fetched. -/
theorem Turns.fetched {property : A → Prop} (hturns : Turns plan state entries next rest)
    (hrunning : state.outcome = none) (hentries : ∀ entry ∈ entries, property entry.2)
    (hend : ∀ before last, plan.am.getnextTid.pull before = Except.ok (none, last) →
      property before → property last)
    (hstate : elems state.reorderQueue = 0 ∨ property state.scan) :
    (elems next.reorderQueue = 0 ∧ emitted next.outcome = []) ∨ property next.scan := by
  cases hturns with
  | popped htop =>
      refine Or.inr (hstate.resolve_left fun hempty => ?_)
      rw [top_eq_none_iff.mpr hempty] at htop
      cases htop
  | queued _ hsplit =>
      exact Or.inr (hentries _ (hsplit ▸ List.mem_append_right _ List.mem_cons_self))
  | returned _ hsplit =>
      exact Or.inr (hentries _ (hsplit ▸ List.mem_append_right _ List.mem_cons_self))
  | ended _ _ hbefore hlast =>
      rcases hbefore with rfl | ⟨entry, hentry, rfl⟩
      · rcases hstate with hempty | hscan
        · exact Or.inl ⟨hempty, by simp [hrunning, emitted]⟩
        · exact Or.inr (hend _ _ hlast hscan)
      · exact Or.inr (hend _ _ hlast (hentries entry hentry))
  | finished htop =>
      rcases hstate with hempty | hscan
      · exact Or.inl ⟨hempty, rfl⟩
      · exact Or.inr hscan

end Turns

/-! ## Calls -/

/-- The loop of one call, from `start` with `entries` left to `state` with `rest` left. -/
structure Reached (plan : IndexScan D A α) (start : Reordering Q D A α)
    (entries : List (IndexScanDesc D × A)) (state : Reordering Q D A α)
    (rest : List (IndexScanDesc D × A)) : Prop where
  stands : plan.Stands state.scan state.reachedEnd rest
  suffix : rest <:+ entries
  balance : ↑(emitted state.outcome) + plan.outstanding state.reorderQueue rest =
    plan.outstanding start.reorderQueue entries
  sound : (∀ failure, state.outcome ≠ some (Except.error failure)) ∧
    (state.outcome = some (Except.ok none) → plan.outstanding state.reorderQueue rest = 0)
  idle : elems start.reorderQueue = 0 → plan.ExactValues entries →
    elems state.reorderQueue = 0 ∧ state.topmost = none ∧
      emitted state.outcome ++ plan.rows rest = plan.rows entries ∧
      ∀ row ∈ emitted state.outcome, ∃ entry ∈ entries, plan.passes entry.1 = some row ∧
        state.scan = entry.2
  fetched : ∀ property : A → Prop, (∀ entry ∈ entries, property entry.2) →
    (∀ before last, plan.am.getnextTid.pull before = Except.ok (none, last) →
      property before → property last) →
    elems start.reorderQueue = 0 ∨ property start.scan →
    (elems state.reorderQueue = 0 ∧ emitted state.outcome = []) ∨ property state.scan

section Calls

variable {start state next : Reordering Q D A α} {entries rest : List (IndexScanDesc D × A)}

theorem Reached.refl (hstands : plan.Stands start.scan start.reachedEnd entries)
    (hrunning : start.outcome = none) (htopmost : start.topmost = none) :
    plan.Reached start entries start entries where
  stands := hstands
  suffix := List.suffix_rfl
  balance := by simp [hrunning, emitted]
  sound := by simp [hrunning]
  idle := fun hqueue _ => ⟨hqueue, htopmost, by simp [hrunning, emitted],
    by simp [hrunning, emitted]⟩
  fetched := by
    rintro property - - (hempty | hscan)
    · exact Or.inl ⟨hempty, by simp [hrunning, emitted]⟩
    · exact Or.inr hscan

theorem Reached.turn (hreached : plan.Reached start entries state rest)
    (hturn : plan.reorderTurn state = some next) :
    ∃ left, plan.Reached start entries next left := by
  obtain ⟨hrunning, left, hturns, hstands⟩ := reorderTurn_turns hreached.stands hturn
  have hnone : emitted state.outcome = [] := by rw [hrunning]; rfl
  refine ⟨left, hstands, hturns.suffix.trans hreached.suffix, ?_,
    hturns.sound hreached.stands hrunning, ?_, ?_⟩
  · rw [hturns.balance hrunning, ← hreached.balance, hnone, Multiset.coe_nil, zero_add]
  · intro hqueue hexact
    obtain ⟨hqueue', htopmost, hrows, -⟩ := hreached.idle hqueue hexact
    have hrest : plan.ExactValues rest := fun entry hentry =>
      hexact entry (hreached.suffix.subset hentry)
    obtain ⟨hqueue', htopmost, hrows', hlast⟩ := hturns.idle hrunning hqueue' htopmost hrest
    rw [hnone, List.nil_append] at hrows
    refine ⟨hqueue', htopmost, hrows'.trans hrows, ?_⟩
    intro row hrow
    obtain ⟨entry, hentry, hpasses, hscan⟩ := hlast row hrow
    exact ⟨entry, hreached.suffix.subset hentry, hpasses, hscan⟩
  · intro property hentries hend hstart
    refine hturns.fetched hrunning
      (fun entry hentry => hentries entry (hreached.suffix.subset hentry)) hend ?_
    exact (hreached.fetched property hentries hend hstart).imp_left And.left

/-- The loop of a call, after any number of turns. -/
theorem iterate_reached (start : Reordering Q D A α)
    (hstands : plan.Stands start.scan start.reachedEnd entries)
    (hrunning : start.outcome = none) (htopmost : start.topmost = none) (rounds : Nat) :
    ∃ rest, plan.Reached start entries (Loop.iterate plan.reorderTurn rounds start) rest :=
  Loop.iterate_invariant (motive := fun state => ∃ rest, plan.Reached start entries state rest)
    (fun _ _ ⟨_, hreached⟩ hturn => hreached.turn hturn) rounds
    ⟨entries, Reached.refl hstands hrunning htopmost⟩

theorem reorder_outcome (plan : IndexScan D A α) (start : Reordering Q D A α) :
    (plan.reorder start).outcome.isSome = true := by
  have hdone : plan.reorderTurn (plan.reorder start) = none :=
    Loop.run_done reorderTurn_decreases start
  unfold reorderTurn at hdone
  split at hdone
  next hsome => exact hsome
  · split at hdone <;> split at hdone <;> cases hdone

end Calls

/-- The state of the node when the loop starts. -/
def callStart (node : IndexScanState Q D A α) (scan : A) (estate : EState) : Reordering Q D A α :=
  ⟨scan, estate, node.reorderQueue, node.reachedEnd, none, none⟩

/-- Draining a node call by call: each call returns a row, and what it has done is recorded. -/
inductive Drains (plan : IndexScan D A α) : IndexScanState Q D A α →
    List (IndexScanDesc D × A) → List (α × IndexScanState Q D A α × EState) → Prop
  | done {node : IndexScanState Q D A α} {entries : List (IndexScanDesc D × A)}
      (hempty : plan.outstanding node.reorderQueue entries = 0) : Drains plan node entries []
  | item {node : IndexScanState Q D A α} {entries rest : List (IndexScanDesc D × A)} {scan : A}
      {estate : EState} {final : Reordering Q D A α} {row : α}
      {items : List (α × IndexScanState Q D A α × EState)}
      (hscan : plan.scanDesc node.scanDesc = Except.ok scan)
      (hreached : plan.Reached (callStart node scan estate) entries final rest)
      (hrow : final.outcome = some (Except.ok (some row)))
      (hrest : Drains plan ⟨some final.scan, final.reachedEnd, final.reorderQueue⟩ rest items) :
      Drains plan node entries
        ((row, ⟨some final.scan, final.reachedEnd, final.reorderQueue⟩, final.estate) :: items)

/-- What a call returns, and the state of its loop when it ends. -/
theorem indexNextWithReorder_reached {node : IndexScanState Q D A α} {scan : A}
    (hscan : plan.scanDesc node.scanDesc = Except.ok scan)
    {entries : List (IndexScanDesc D × A)} (hstands : plan.Stands scan node.reachedEnd entries)
    (estate : EState) :
    ∃ final rest outcome, plan.Reached (callStart node scan estate) entries final rest ∧
      final.outcome = some outcome ∧
      plan.indexNextWithReorder node estate = outcome.map fun row =>
        (row, ⟨some final.scan, final.reachedEnd, final.reorderQueue⟩, final.estate) := by
  obtain ⟨rest, hreached⟩ := iterate_reached (callStart node scan estate) hstands rfl rfl
    (plan.reorderMeasure (callStart node scan estate))
  obtain ⟨outcome, houtcome⟩ :=
    Option.isSome_iff_exists.mp (plan.reorder_outcome (callStart node scan estate))
  refine ⟨plan.reorder (callStart node scan estate), rest, outcome, hreached, houtcome, ?_⟩
  rw [← Option.getD_some (a := outcome) (b := Except.ok none), ← houtcome, indexNextWithReorder,
    hscan]
  rfl

/-- A node can be drained. -/
theorem exists_drains {numOrderByKeys : Nat} (hkeys : 0 < numOrderByKeys)
    {node : IndexScanState Q D A α} {scan : A}
    (hscan : plan.scanDesc node.scanDesc = Except.ok scan)
    {entries : List (IndexScanDesc D × A)} (hstands : plan.Stands scan node.reachedEnd entries)
    (estate : EState) :
    ∃ items, (plan.node Q numOrderByKeys).Yields (node, estate) items ∧
      Drains plan node entries items := by
  have hpull (node : IndexScanState Q D A α) (estate : EState) :
      (plan.node Q numOrderByKeys).pull (node, estate) = plan.indexNextWithReorder node estate :=
    if_pos hkeys
  -- every call takes one row off what is outstanding
  induction hcount : (plan.outstanding node.reorderQueue entries).card using Nat.strongRecOn
    generalizing node scan entries estate with
  | ind count ih =>
      obtain ⟨final, rest, outcome, hreached, houtcome, hcall⟩ :=
        indexNextWithReorder_reached hscan hstands estate
      have hbalance := hreached.balance
      rcases outcome with failure | (_ | row)
      · exact absurd houtcome (hreached.sound.1 failure)
      · refine ⟨[], Source.Yields.done ((hpull node estate).trans hcall), Drains.done ?_⟩
        rw [houtcome, hreached.sound.2 houtcome] at hbalance
        exact hbalance.symm
      · rw [houtcome] at hbalance
        have hcard : 1 + (plan.outstanding final.reorderQueue rest).card =
            (plan.outstanding node.reorderQueue entries).card :=
          (Multiset.card_add _ _).symm.trans (congrArg Multiset.card hbalance)
        have hnext : plan.scanDesc (⟨some final.scan, final.reachedEnd, final.reorderQueue⟩ :
            IndexScanState Q D A α).scanDesc = Except.ok final.scan := rfl
        have hfewer : (plan.outstanding final.reorderQueue rest).card < count := by omega
        obtain ⟨items, hitems, hdrains⟩ := ih _ hfewer hnext hreached.stands final.estate rfl
        exact ⟨_, Source.Yields.item ((hpull node estate).trans hcall) hitems,
          Drains.item hscan hreached houtcome hdrains⟩

/-- Draining returns what is outstanding. -/
theorem Drains.rows_eq {node : IndexScanState Q D A α} {entries : List (IndexScanDesc D × A)}
    {items : List (α × IndexScanState Q D A α × EState)}
    (hdrains : Drains plan node entries items) :
    (↑(items.map Prod.fst) : Multiset α) = plan.outstanding node.reorderQueue entries := by
  induction hdrains with
  | done hempty => rw [hempty]; rfl
  | item _ hreached hrow _ ih =>
      have hbalance := hreached.balance
      rw [hrow] at hbalance
      rw [List.map_cons, ← Multiset.cons_coe, ih]
      exact (Multiset.singleton_add _ _).symm.trans hbalance

/-- With exact values the rows come as the index has them. -/
theorem Drains.exact {node : IndexScanState Q D A α} {entries : List (IndexScanDesc D × A)}
    {items : List (α × IndexScanState Q D A α × EState)} (hdrains : Drains plan node entries items)
    (hqueue : elems node.reorderQueue = 0) (hexact : plan.ExactValues entries) :
    items.map Prod.fst = plan.rows entries := by
  induction hdrains with
  | done hempty =>
      rw [outstanding, hqueue, Multiset.map_zero, zero_add, Multiset.coe_eq_zero] at hempty
      exact hempty.symm
  | item _ hreached hrow _ ih =>
      obtain ⟨hqueue', -, hrows, -⟩ := hreached.idle hqueue hexact
      rw [hrow] at hrows
      rw [List.map_cons, ih hqueue' fun entry hentry =>
        hexact entry (hreached.suffix.subset hentry)]
      exact hrows

/-- The queue is empty after every turn of every call on a node. -/
def QueueUnused (plan : IndexScan D A α) (node : IndexScanState Q D A α) : Prop :=
  ∀ scan estate rounds, plan.scanDesc node.scanDesc = Except.ok scan →
    elems (Loop.iterate plan.reorderTurn rounds (callStart node scan estate)).reorderQueue = 0

theorem queueUnused_of_exact {node : IndexScanState Q D A α} {scan : A}
    (hscan : plan.scanDesc node.scanDesc = Except.ok scan)
    {entries : List (IndexScanDesc D × A)} (hstands : plan.Stands scan node.reachedEnd entries)
    (hqueue : elems node.reorderQueue = 0) (hexact : plan.ExactValues entries) :
    plan.QueueUnused node := by
  intro scan' estate rounds hscan'
  obtain rfl : scan = scan' := Except.ok.inj (hscan.symm.trans hscan')
  obtain ⟨rest, hreached⟩ := iterate_reached (callStart node scan estate) hstands rfl rfl rounds
  exact (hreached.idle hqueue hexact).1

/-- With exact values nothing is ever queued. -/
theorem Drains.queueUnused {node : IndexScanState Q D A α} {entries : List (IndexScanDesc D × A)}
    {items : List (α × IndexScanState Q D A α × EState)} (hdrains : Drains plan node entries items)
    (hqueue : elems node.reorderQueue = 0) (hexact : plan.ExactValues entries) :
    ∀ item ∈ items, plan.QueueUnused item.2.1 := by
  induction hdrains with
  | done => simp
  | item _ hreached _ _ ih =>
      obtain ⟨hqueue', -⟩ := hreached.idle hqueue hexact
      have hrest : plan.ExactValues _ := fun entry hentry =>
        hexact entry (hreached.suffix.subset hentry)
      exact List.forall_mem_cons.mpr
        ⟨queueUnused_of_exact rfl hreached.stands hqueue' hrest, ih hqueue' hrest⟩

/-- Draining a scan with ORDER BY keys returns the row of every entry that is visible and passes
its recheck, once, whatever values the index reports. If all values are exact, the rows come in
the order of the index and nothing is ever queued. -/
theorem reorder_drains (plan : IndexScan D A α) {scan : A}
    (hbegin : plan.am.beginscan = Except.ok scan) {entries : List (IndexScanDesc D × A)}
    (hentries : plan.am.getnextTid.Yields scan entries) {numOrderByKeys : Nat}
    (hkeys : 0 < numOrderByKeys) (estate : EState) :
    ∃ items, (plan.node Q numOrderByKeys).Yields (IndexScanState.init, estate) items ∧
      (↑(items.map Prod.fst) : Multiset α) = ↑(plan.rows entries) ∧
      ((∀ entry ∈ entries, entry.1.xsRecheckorderby = false) →
        items.map Prod.fst = plan.rows entries ∧
          plan.QueueUnused (IndexScanState.init : IndexScanState Q D A α) ∧
          ∀ item ∈ items, plan.QueueUnused item.2.1) := by
  have hscan : plan.scanDesc (IndexScanState.init : IndexScanState Q D A α).scanDesc =
      Except.ok scan := hbegin
  have hstands : plan.Stands scan false entries := ⟨fun _ => hentries, nofun⟩
  have hqueue : elems (IndexScanState.init : IndexScanState Q D A α).reorderQueue = 0 := elems_empty
  obtain ⟨items, hitems, hdrains⟩ := exists_drains hkeys hscan hstands estate
  refine ⟨items, hitems, ?_, ?_⟩
  · rw [hdrains.rows_eq, outstanding, hqueue, Multiset.map_zero, zero_add]
  · intro hrecheck
    have hexact : plan.ExactValues entries := by
      intro entry hentry row _
      rw [lastfetched, hrecheck entry hentry]
      rfl
    exact ⟨hdrains.exact hqueue hexact, queueUnused_of_exact hscan hstands hqueue hexact,
      hdrains.queueUnused hqueue hexact⟩

end IndexScan

/-! ## Given entries -/

/-- An access method that reports given entries. -/
def entryAm (uninit : IndexScanDesc D) (descs : List (IndexScanDesc D)) :
    IndexAm D (IndexScanDesc D × List (IndexScanDesc D)) where
  beginscan := Except.ok (uninit, descs)
  gettuple := fun (desc, rest) =>
    match rest with
    | [] => Except.ok (false, desc, [])
    | next :: rest => Except.ok (true, next, rest)
  desc := Prod.fst
  remaining := fun scan => scan.2.length
  gettuple_remaining := by
    rintro ⟨desc, _ | ⟨next, rest⟩⟩ after hget
    · simp at hget
    · obtain rfl := (Prod.mk.inj (Except.ok.inj hget)).2
      exact Nat.lt_succ_self _

omit [LinearOrder D] in
theorem entryAm_yields (uninit desc : IndexScanDesc D) (descs rest : List (IndexScanDesc D)) :
    ∃ entries, (entryAm uninit descs).getnextTid.Yields (desc, rest) entries ∧
      entries.map Prod.fst = rest := by
  induction rest generalizing desc with
  | nil => exact ⟨[], Source.Yields.done rfl, rfl⟩
  | cons next rest ih =>
      obtain ⟨entries, hentries, hmap⟩ := ih next
      exact ⟨_, Source.Yields.item rfl hentries, congrArg (List.cons next) hmap⟩

/-- The index reports 5 for a row whose value is 9, then 3 for one whose value is 3, then an entry
that fails its recheck. -/
theorem reorder_drains_three_entries :
    let desc (offset : UInt16) (value : Int) : IndexScanDesc Int :=
      ⟨⟨0, 1, none, none⟩, ⟨0, offset⟩, true, false, some value, true⟩
    let plan : IndexScan Int _ UInt16 :=
      ⟨entryAm (desc 0 0) [desc 1 5, desc 2 3, desc 3 4], fun tid => some tid.offset,
        fun row => row != 3, fun row => some (if row = 1 then 9 else 3)⟩
    ∃ items, (plan.node @SortedQueue 1).Yields (IndexScanState.init, ⟨false⟩) items ∧
      (↑(items.map Prod.fst) : Multiset UInt16) = {1, 2} := by
  intro desc plan
  obtain ⟨entries, hentries, hmap⟩ := entryAm_yields (desc 0 0) (desc 0 0)
    [desc 1 5, desc 2 3, desc 3 4] [desc 1 5, desc 2 3, desc 3 4]
  obtain ⟨items, hitems, hrows, -⟩ := plan.reorder_drains (Q := @SortedQueue) rfl hentries
    Nat.one_pos ⟨false⟩
  refine ⟨items, hitems, hrows.trans ?_⟩
  have hfilter : plan.rows entries = (entries.map Prod.fst).filterMap plan.passes := by
    rw [List.filterMap_map]
    rfl
  rw [hfilter, hmap]
  rfl

end VBase.Executor
