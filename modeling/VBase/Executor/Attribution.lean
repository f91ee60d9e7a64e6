import VBase.Executor.Reordering

/-! # Side fields of the scan descriptor

A caller of an IndexScan node may look at the scan descriptor after a row was returned:
`topk` takes the TID from `xs_heaptid_orig` and the distance from `xs_orderbyvals`. Both
describe the entry that was fetched last. A row that waited in the reorder queue was fetched
earlier.
-/

namespace VBase.Executor

open AccessMethod PriorityQueue

variable {D A α : Type}

/-! ## xs_heaptid_orig -/

/-- An access method with `xs_heaptid_orig`, which `index_getnext_slot` sets for every entry. -/
def IndexAm.withOrig (am : IndexAm D A) (uninit : ItemPointer) : IndexAm D (A × ItemPointer) where
  beginscan := am.beginscan.map fun scan => (scan, uninit)
  gettuple := fun (scan, xsHeaptidOrig) =>
    (am.gettuple scan).map fun (found, after) =>
      (found, after, if found then (am.desc after).xsHeaptid else xsHeaptidOrig)
  desc := fun scan => am.desc scan.1
  remaining := fun scan => am.remaining scan.1
  gettuple_remaining := by
    rintro ⟨scan, orig⟩ ⟨after, orig'⟩ hget
    cases hcall : am.gettuple scan with
    | error failure => simp [hcall, Except.map] at hget
    | ok call =>
        obtain ⟨found, next⟩ := call
        simp only [hcall, Except.map, Except.ok.injEq, Prod.mk.injEq] at hget
        obtain ⟨rfl, rfl, -⟩ := hget
        exact am.gettuple_remaining scan next hcall

def IndexScan.withOrig (plan : IndexScan D A α) (uninit : ItemPointer) :
    IndexScan D (A × ItemPointer) α :=
  { plan with am := plan.am.withOrig uninit }

theorem withOrig_pull_some {am : IndexAm D A} (uninit : ItemPointer) {scan after : A}
    {desc : IndexScanDesc D} (hpull : am.getnextTid.pull scan = Except.ok (some desc, after))
    (orig : ItemPointer) :
    am.desc after = desc ∧ (am.withOrig uninit).getnextTid.pull (scan, orig) =
      Except.ok (some desc, after, desc.xsHeaptid) := by
  cases hcall : am.gettuple scan with
  | error failure => simp [IndexAm.getnextTid, hcall] at hpull
  | ok call =>
      obtain ⟨found, next⟩ := call
      simp only [IndexAm.getnextTid, hcall, Except.ok.injEq, Prod.mk.injEq] at hpull
      obtain ⟨hfound, rfl⟩ := hpull
      cases found with
      | false => cases hfound
      | true =>
          obtain rfl := Option.some.inj hfound
          exact ⟨rfl, by simp [IndexAm.getnextTid, IndexAm.withOrig, hcall, Except.map]⟩

theorem withOrig_pull_none {am : IndexAm D A} {uninit : ItemPointer} {scan after : A}
    {orig orig' : ItemPointer}
    (hpull : (am.withOrig uninit).getnextTid.pull (scan, orig) =
      Except.ok (none, after, orig')) :
    am.gettuple scan = Except.ok (false, after) ∧ orig' = orig := by
  cases hcall : am.gettuple scan with
  | error failure => simp [IndexAm.getnextTid, IndexAm.withOrig, hcall, Except.map] at hpull
  | ok call =>
      obtain ⟨found, next⟩ := call
      cases found <;> simp [IndexAm.getnextTid, IndexAm.withOrig, hcall, Except.map] at hpull
      obtain ⟨rfl, rfl⟩ := hpull
      exact ⟨rfl, rfl⟩

/-- An entry with `xs_heaptid_orig` as it is after the fetch. -/
def recordOrig (entry : IndexScanDesc D × A) : IndexScanDesc D × A × ItemPointer :=
  (entry.1, entry.2, entry.1.xsHeaptid)

/-- The entries of an access method, with the descriptor that each leaves. -/
theorem withOrig_yields {am : IndexAm D A} (uninit : ItemPointer) {scan : A}
    {entries : List (IndexScanDesc D × A)} (hentries : am.getnextTid.Yields scan entries)
    (orig : ItemPointer) :
    (am.withOrig uninit).getnextTid.Yields (scan, orig) (entries.map recordOrig) ∧
      ∀ entry ∈ entries, am.desc entry.2 = entry.1 := by
  induction hentries generalizing orig with
  | @done scan last hdone =>
      have hnone : (am.withOrig uninit).getnextTid.pull (scan, orig) =
          Except.ok (none, last, orig) := by
        cases hcall : am.gettuple scan with
        | error failure => simp [IndexAm.getnextTid, hcall] at hdone
        | ok call =>
            obtain ⟨found, next⟩ := call
            cases found <;> simp [IndexAm.getnextTid, hcall] at hdone
            simp [IndexAm.getnextTid, IndexAm.withOrig, hcall, Except.map, hdone]
      exact ⟨Source.Yields.done hnone, by simp⟩
  | @item scan next desc rest hitem _ ih =>
      obtain ⟨hdesc, hpull⟩ := withOrig_pull_some uninit hitem orig
      obtain ⟨hrest, hdescs⟩ := ih desc.xsHeaptid
      exact ⟨Source.Yields.item hpull hrest, List.forall_mem_cons.mpr ⟨hdesc, hdescs⟩⟩

variable {Q : {T K : Type} → [LinearOrder K] → (T → K) → Type} [PriorityQueue Q] [LinearOrder D]

/-! ## What the caller of a node sees -/

/-- `xs_heaptid_orig` and `xs_orderbyvals` after a call. -/
def sideFields (am : IndexAm D A) (node : IndexScanState Q D (A × ItemPointer) α) :
    Option (ItemPointer × Option D) :=
  node.scanDesc.map fun scan => (scan.2, (am.desc scan.1).xsOrderbyval)

/-- After every call the side fields are those of the returned row, so that two rows look the same
exactly when they are the same. -/
structure Attributed (plan : IndexScan D A α) (tidOf : α → ItemPointer)
    (items : List (α × IndexScanState Q D (A × ItemPointer) α × EState)) : Prop where
  fields : ∀ item ∈ items,
    sideFields plan.am item.2.1 = some (tidOf item.1, plan.indexorderbyorig item.1)
  seen : ∀ first ∈ items, ∀ second ∈ items,
    ((sideFields plan.am first.2.1).map Prod.fst = (sideFields plan.am second.2.1).map Prod.fst ↔
      first.1 = second.1)

namespace IndexScan

variable {plan : IndexScan D A α} {node : IndexScanState Q D A α}
variable {entries : List (IndexScanDesc D × A)}
variable {items : List (α × IndexScanState Q D A α × EState)}

/-- With exact values, a row is returned when its entry has just been fetched. -/
theorem Drains.fresh (hdrains : Drains plan node entries items)
    (hqueue : elems node.reorderQueue = 0) (hexact : plan.ExactValues entries) :
    ∀ item ∈ items, ∃ entry ∈ entries, plan.passes entry.1 = some item.1 ∧
      item.2.1.scanDesc = some entry.2 := by
  induction hdrains with
  | done => simp
  | @item node entries rest scan estate final row items hscan hreached hrow hrest ih =>
      obtain ⟨hqueue', -, -, hlast⟩ := hreached.idle hqueue hexact
      rw [hrow] at hlast
      obtain ⟨entry, hentry, hpasses, hfinal⟩ := hlast row (List.mem_singleton_self row)
      refine List.forall_mem_cons.mpr ⟨⟨entry, hentry, hpasses, congrArg some hfinal⟩, ?_⟩
      intro item hitem
      obtain ⟨entry, hentry, hitem⟩ := ih hqueue'
        (fun entry hentry => hexact entry (hreached.suffix.subset hentry)) item hitem
      exact ⟨entry, hreached.suffix.subset hentry, hitem⟩

/-- When a row is returned, the index scan stands at an entry that it has fetched. -/
theorem Drains.fetched {motive : A → Prop} (hdrains : Drains plan node entries items)
    (hentries : ∀ entry ∈ entries, motive entry.2)
    (hend : ∀ before last, plan.am.getnextTid.pull before = Except.ok (none, last) →
      motive before → motive last)
    (hnode : elems node.reorderQueue = 0 ∨
      ∀ scan, plan.scanDesc node.scanDesc = Except.ok scan → motive scan) :
    ∀ item ∈ items, ∃ scan, item.2.1.scanDesc = some scan ∧ motive scan := by
  induction hdrains with
  | done => simp
  | @item node entries rest scan estate final row items hscan hreached hrow hrest ih =>
      have hfinal : motive final.scan := by
        rcases hreached.fetched motive hentries hend (hnode.imp_right fun h => h scan hscan) with
          ⟨-, hnone⟩ | hfinal
        · rw [hrow] at hnone
          cases hnone
        · exact hfinal
      refine List.forall_mem_cons.mpr ⟨⟨final.scan, rfl, hfinal⟩, ?_⟩
      refine ih (fun entry hentry => hentries entry (hreached.suffix.subset hentry)) (Or.inr ?_)
      intro scan hscan
      exact Except.ok.inj hscan ▸ hfinal

end IndexScan

/-! ## When the side fields are right -/

section Attribution

variable {plan : IndexScan D A α} {tidOf : α → ItemPointer}
variable {items : List (α × IndexScanState Q D (A × ItemPointer) α × EState)}

omit [PriorityQueue Q] in
/-- Right side fields identify the rows. -/
theorem Attributed.of_fields
    (hfields : ∀ item ∈ items,
      sideFields plan.am item.2.1 = some (tidOf item.1, plan.indexorderbyorig item.1))
    (hfetched : ∀ item ∈ items, plan.fetchTuple (tidOf item.1) = some item.1) :
    Attributed plan tidOf items where
  fields := hfields
  seen := by
    intro first hfirst second hsecond
    rw [hfields first hfirst, hfields second hsecond, Option.map_some, Option.map_some,
      Option.some.injEq]
    constructor
    · intro (htid : tidOf first.1 = tidOf second.1)
      have hrow := hfetched first hfirst
      rw [htid, hfetched second hsecond] at hrow
      exact (Option.some.inj hrow).symm
    · exact fun hrow => congrArg tidOf hrow

theorem exactValues_of_reported {entries : List (IndexScanDesc D × A)}
    (hreported : ∀ entry ∈ entries, ∀ row, plan.passes entry.1 = some row →
      entry.1.xsOrderbyval = plan.indexorderbyorig row) : plan.ExactValues entries := by
  intro entry hentry row hrow
  rw [IndexScan.lastfetched, hreported entry hentry row hrow]
  split
  · exact decide_eq_true rfl
  · rfl

variable {uninit : ItemPointer} {entries : List (IndexScanDesc D × A)}
variable {node : IndexScanState Q D (A × ItemPointer) α}

/-- After every call the side fields are those of some entry. -/
theorem sideFields_of_drains
    (hfalse : ∀ scan after, plan.am.gettuple scan = Except.ok (false, after) →
      (plan.am.desc after).xsOrderbyval = (plan.am.desc scan).xsOrderbyval)
    (hdescs : ∀ entry ∈ entries, plan.am.desc entry.2 = entry.1)
    (hdrains : (plan.withOrig uninit).Drains node (entries.map recordOrig) items)
    (hqueue : elems node.reorderQueue = 0) :
    ∀ item ∈ items, ∃ entry ∈ entries,
      sideFields plan.am item.2.1 = some (entry.1.xsHeaptid, entry.1.xsOrderbyval) := by
  intro item hitem
  obtain ⟨scan, hscan, entry, hentry, hfields⟩ := hdrains.fetched
    (motive := fun scan : A × ItemPointer => ∃ entry ∈ entries,
      (scan.2, (plan.am.desc scan.1).xsOrderbyval) = (entry.1.xsHeaptid, entry.1.xsOrderbyval))
    (List.forall_mem_map.mpr fun entry hentry =>
      ⟨entry, hentry, by rw [recordOrig, hdescs entry hentry]⟩)
    (by
      rintro ⟨before, orig⟩ ⟨last, orig'⟩ hpull ⟨entry, hentry, hfields⟩
      obtain ⟨hget, rfl⟩ := withOrig_pull_none hpull
      exact ⟨entry, hentry, by rw [hfalse before last hget, hfields]⟩)
    (Or.inl hqueue) item hitem
  exact ⟨entry, hentry, by rw [sideFields, hscan, Option.map_some, hfields]⟩

/-- With exact values they are those of the entry of the returned row. -/
theorem sideFields_of_exact
    (hdescs : ∀ entry ∈ entries, plan.am.desc entry.2 = entry.1)
    (hdrains : (plan.withOrig uninit).Drains node (entries.map recordOrig) items)
    (hqueue : elems node.reorderQueue = 0)
    (hexact : (plan.withOrig uninit).ExactValues (entries.map recordOrig)) :
    ∀ item ∈ items, ∃ entry ∈ entries, plan.passes entry.1 = some item.1 ∧
      sideFields plan.am item.2.1 = some (entry.1.xsHeaptid, entry.1.xsOrderbyval) := by
  intro item hitem
  obtain ⟨_, hrecorded, hpasses, hscan⟩ := hdrains.fresh hqueue hexact item hitem
  obtain ⟨entry, hentry, rfl⟩ := List.mem_map.mp hrecorded
  refine ⟨entry, hentry, hpasses, ?_⟩
  rw [sideFields, hscan, Option.map_some, recordOrig, hdescs entry hentry]

end Attribution

/-- For an access method whose index has one entry for each TID, and which leaves the ORDER BY
values when it finds nothing: the side fields are right after every call exactly when the index
reports the value of the ORDER BY expression for every entry with a row. -/
theorem attributed_iff (plan : IndexScan D A α) (uninit : ItemPointer) (tidOf : α → ItemPointer)
    (htid : ∀ tid row, plan.fetchTuple tid = some row → tidOf row = tid)
    (hfalse : ∀ scan after, plan.am.gettuple scan = Except.ok (false, after) →
      (plan.am.desc after).xsOrderbyval = (plan.am.desc scan).xsOrderbyval)
    {scan : A} (hbegin : plan.am.beginscan = Except.ok scan)
    {entries : List (IndexScanDesc D × A)} (hentries : plan.am.getnextTid.Yields scan entries)
    (hnodup : (entries.map fun entry => entry.1.xsHeaptid).Nodup) {numOrderByKeys : Nat}
    (hkeys : 0 < numOrderByKeys) (estate : EState) :
    ∃ items, ((plan.withOrig uninit).node Q numOrderByKeys).Yields
        (IndexScanState.init, estate) items ∧
      (Attributed plan tidOf items ↔
        ∀ entry ∈ entries, ∀ row, plan.passes entry.1 = some row →
          entry.1.xsOrderbyval = plan.indexorderbyorig row) := by
  obtain ⟨hyields, hdescs⟩ := withOrig_yields uninit hentries uninit
  have hscan : (plan.withOrig uninit).scanDesc
      (IndexScanState.init : IndexScanState Q D (A × ItemPointer) α).scanDesc =
      Except.ok (scan, uninit) := by
    change plan.am.beginscan.map _ = _
    rw [hbegin]
    rfl
  have hqueue : elems
      (IndexScanState.init : IndexScanState Q D (A × ItemPointer) α).reorderQueue = 0 := elems_empty
  have hfetch {entry : IndexScanDesc D × A} {row : α} (hrow : plan.passes entry.1 = some row) :
      plan.fetchTuple entry.1.xsHeaptid = some row := (Option.filter_eq_some_iff.mp hrow).1
  obtain ⟨items, hitems, hdrains⟩ := IndexScan.exists_drains hkeys hscan
    ⟨fun _ => hyields, nofun⟩ estate
  refine ⟨items, hitems, ?_, ?_⟩
  · intro hattributed entry hentry row hrow
    -- the row is returned by some call, with the side fields of some entry
    have hreturned : row ∈ items.map Prod.fst := by
      rw [← Multiset.mem_coe, hdrains.rows_eq, IndexScan.outstanding, hqueue, Multiset.map_zero,
        zero_add, Multiset.mem_coe]
      exact List.mem_filterMap.mpr ⟨_, List.mem_map_of_mem hentry, hrow⟩
    obtain ⟨item, hitem, rfl⟩ := List.mem_map.mp hreturned
    obtain ⟨fetched, hfetched, hfields⟩ :=
      sideFields_of_drains hfalse hdescs hdrains hqueue item hitem
    rw [hattributed.fields item hitem] at hfields
    obtain ⟨horig, horderby⟩ := Prod.mk.inj (Option.some.inj hfields)
    -- its TID is that of the row, so it is the entry of the row
    have hsame : fetched = entry := List.inj_on_of_nodup_map hnodup hfetched hentry
      (horig.symm.trans (htid _ _ (hfetch hrow)))
    rw [← hsame]
    exact horderby.symm
  · intro hreported
    have hexact : (plan.withOrig uninit).ExactValues (entries.map recordOrig) :=
      exactValues_of_reported (List.forall_mem_map.mpr hreported)
    have hfields := sideFields_of_exact hdescs hdrains hqueue hexact
    refine Attributed.of_fields ?_ ?_
    · intro item hitem
      obtain ⟨entry, hentry, hrow, hitem⟩ := hfields item hitem
      rw [hitem, hreported entry hentry item.1 hrow, htid _ _ (hfetch hrow)]
    · intro item hitem
      obtain ⟨entry, hentry, hrow, -⟩ := hfields item hitem
      rw [htid _ _ (hfetch hrow), hfetch hrow]

/-! ## Two rows -/

/-- Two rows with the values 5 and 2, for which the index reports given values, in this order. It
asks for a recheck. -/
def twoEntries (first second : Int) :
    IndexScan Int (IndexScanDesc Int × List (IndexScanDesc Int)) UInt16 :=
  let desc (offset : UInt16) (value : Int) : IndexScanDesc Int :=
    ⟨⟨0, 1, none, none⟩, ⟨0, offset⟩, false, false, some value, true⟩
  ⟨entryAm (desc 0 0) [desc 1 first, desc 2 second],
    fun tid => if tid.blkno = 0 then some tid.offset else none, fun _ => true,
    fun row => some (if row = 1 then 5 else 2)⟩

theorem attributed_two_rows :
    ∃ items, (((twoEntries 5 2).withOrig ⟨0, 0⟩).node @SortedQueue 1).Yields
        (IndexScanState.init, ⟨false⟩) items ∧
      Attributed (twoEntries 5 2) (fun row => ⟨0, row⟩) items := by
  have htid : ∀ tid row, (twoEntries 5 2).fetchTuple tid = some row →
      (⟨0, row⟩ : ItemPointer) = tid := by
    rintro ⟨blkno, offset⟩ row hfetch
    simp only [twoEntries] at hfetch
    split at hfetch
    next hblkno =>
      obtain rfl := Option.some.inj hfetch
      rw [hblkno]
    · cases hfetch
  have hfalse : ∀ scan after, (twoEntries 5 2).am.gettuple scan = Except.ok (false, after) →
      ((twoEntries 5 2).am.desc after).xsOrderbyval =
        ((twoEntries 5 2).am.desc scan).xsOrderbyval := by
    rintro ⟨desc, _ | ⟨next, rest⟩⟩ after hget
    · obtain ⟨-, rfl⟩ := Prod.mk.inj (Except.ok.inj hget)
      rfl
    · cases hget
  obtain ⟨items, hitems, hiff⟩ := attributed_iff (Q := @SortedQueue) (twoEntries 5 2) ⟨0, 0⟩
    (fun row => ⟨0, row⟩) htid hfalse rfl
    (Source.Yields.item rfl (Source.Yields.item rfl (Source.Yields.done rfl)))
    (by decide) Nat.one_pos ⟨false⟩
  refine ⟨items, hitems, hiff.mpr ?_⟩
  intro entry hentry row hrow
  rcases List.mem_cons.mp hentry with rfl | hentry
  · obtain rfl : 1 = row := Option.some.inj hrow
    rfl
  · rw [List.mem_singleton.mp hentry] at hrow ⊢
    obtain rfl : 2 = row := Option.some.inj hrow
    rfl

/-- With the lower bound 1 for the first row, that row is returned last, with the TID and the value
of the second. A caller that skips the TIDs that it has seen never takes it. -/
theorem lower_bound_misattributed :
    ∃ items, (((twoEntries 1 2).withOrig ⟨0, 0⟩).node @SortedQueue 1).Yields
        (IndexScanState.init, ⟨false⟩) items ∧
      items.map (fun item => (item.1, sideFields (twoEntries 1 2).am item.2.1)) =
        [(2, some (⟨0, 2⟩, some 2)), (1, some (⟨0, 2⟩, some 2))] ∧
      ¬ Attributed (twoEntries 1 2) (fun row => ⟨0, row⟩) items := by
  refine ⟨_, Source.Yields.item rfl (Source.Yields.item rfl (Source.Yields.done rfl)), rfl, ?_⟩
  intro hattributed
  have hfields := hattributed.fields _ (List.mem_cons_of_mem _ List.mem_cons_self)
  have htid : (⟨0, 2⟩ : ItemPointer) = ⟨0, 1⟩ := (Prod.mk.inj (Option.some.inj hfields)).1
  exact absurd htid (by decide)

end VBase.Executor
