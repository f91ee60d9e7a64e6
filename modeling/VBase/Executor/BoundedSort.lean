import VBase.Executor.IndexScan
import VBase.Executor.Sort

/-! # Sorts with a bound

A bounded Sort over any child, in any execution state. The flag that ends its
reading early belongs to no node: it may be left over from another scan, or be
whatever memory held when a scan descriptor was allocated. The Sort still
returns the smallest rows exactly when the rows it did not read could not have
been among them.
-/

namespace VBase.Executor

open AccessMethod

variable {S α K : Type} [LinearOrder K] {key : α → K}

namespace SortPlan

theorem mem_effectiveBound {bounded : Bool} {bound limit : Nat}
    (hlimit : limit ∈ effectiveBound bounded bound) : bound = limit := by
  unfold effectiveBound at hlimit
  split at hlimit
  · exact Option.some.inj hlimit
  · simp at hlimit

/-- A sort that stays in memory holds a bound's worth of rows once it has read as many. -/
theorem le_held_of_fits {plan : SortPlan key} (hmemory : ∀ read, (plan.memory read).fits = true)
    {limit : Option Nat} {count : Nat} (hcount : limit.getD 0 ≤ count) :
    limit.getD 0 ≤ plan.held limit count := by
  rcases Room.after_of_fits limit.isSome (limit.getD 0) hmemory count with heq | heq
  · rw [held, heq]
    exact hcount
  · rw [held, heq]

/-- Reading that stops somewhere stops after the first row that stops it. -/
theorem ReadCount.eq_of_first {plan : SortPlan key} {limit : Option Nat}
    {items : List (α × S × EState)} {count index : Nat} (hcount : plan.ReadCount limit items count)
    (hstops : plan.StopsAfter limit items index)
    (hfirst : ∀ earlier < index, ¬ plan.StopsAfter limit items earlier) : count = index + 1 := by
  obtain ⟨item, hitem, _⟩ := id hstops
  have hindex := (List.getElem?_eq_some_iff.mp hitem).1
  have hge : count ≤ index + 1 := by
    by_contra hlarge
    exact hcount.1 index (by omega) hstops
  rcases hcount.2 with rfl | ⟨last, rfl, hlast⟩
  · omega
  · have hle : index ≤ last := by
      by_contra hless
      exact hfirst last (by omega) hlast
    omega

/-- What is true after the first row that stops the reading is true of what was read,
if the child had rows left. -/
theorem ReadCount.forall_left_iff {plan : SortPlan key} {limit : Option Nat}
    {items : List (α × S × EState)} {count : Nat} (hcount : plan.ReadCount limit items count)
    (good : List α → α → Prop) :
    (∀ later ∈ (items.drop count).map Prod.fst, good ((items.take count).map Prod.fst) later) ↔
      ∀ index, plan.StopsAfter limit items index →
        (∀ earlier < index, ¬ plan.StopsAfter limit items earlier) →
        ∀ later ∈ (items.drop (index + 1)).map Prod.fst,
          good ((items.take (index + 1)).map Prod.fst) later := by
  constructor
  · intro hgood index hstops hfirst
    rwa [hcount.eq_of_first hstops hfirst] at hgood
  · intro hgood
    rcases hcount.2 with rfl | ⟨index, rfl, hstops⟩
    · simp
    · exact hgood index hstops fun earlier hearlier => hcount.1 earlier (by omega)

end SortPlan

/-- The first rows of a bounded Sort are the smallest of its child's exactly when, at the first
row that leaves the flag set while the sort holds a bound's worth of rows, each row still to
come has that many rows before it that are no greater. -/
theorem boundedSort_smallest_iff (plan : SortPlan key) (child : PlanNode S α) {outer : S}
    {estate : EState} {items : List (α × S × EState)}
    (hchild : child.Yields (outer, estate) items) {bound : Nat} (hbound : 1 ≤ bound) :
    (∃ rows, (plan.node child).collect bound (SortState.init true bound outer, estate) =
          Except.ok rows ∧
        rows.Pairwise (AscendingBy key) ∧
        SmallestBy key bound ↑(items.map Prod.fst) ↑rows) ↔
      ∀ index, plan.StopsAfter (SortPlan.effectiveBound true bound) items index →
        (∀ earlier < index, ¬ plan.StopsAfter (SortPlan.effectiveBound true bound) items earlier) →
        ∀ later ∈ (items.drop (index + 1)).map Prod.fst,
          bound ≤ ((items.take (index + 1)).map Prod.fst).countP
            (fun row => key row ≤ key later) := by
  have hlimit : ∀ limit ∈ SortPlan.effectiveBound true bound, 0 < limit ∧ bound ≤ limit :=
    fun limit hmem => SortPlan.mem_effectiveBound hmem ▸ ⟨hbound, le_rfl⟩
  obtain ⟨count, rows, hcount, hcollect, hsorted, hsmallest⟩ :=
    SortPlan.collect_init plan hchild true bound hlimit
  have hsplit : (↑(items.map Prod.fst) : Multiset α) =
      ↑((items.take count).map Prod.fst) + ↑((items.drop count).map Prod.fst) := by
    rw [Multiset.coe_add, ← List.map_append, List.take_append_drop]
  have hiff : SmallestBy key bound (↑(items.map Prod.fst) : Multiset α) ↑rows ↔
      ∀ later ∈ (items.drop count).map Prod.fst,
        bound ≤ ((items.take count).map Prod.fst).countP (fun row => key row ≤ key later) := by
    rw [hsplit, hsmallest.add_iff_countP]
    simp only [Multiset.mem_coe, Multiset.coe_countP]
  rw [← hcount.forall_left_iff fun read later =>
    bound ≤ read.countP (fun row => key row ≤ key later), ← hiff]
  constructor
  · rintro ⟨other, hother, _, hall⟩
    rw [hcollect] at hother
    rwa [Except.ok.inj hother]
  · intro hall
    exact ⟨rows, hcollect, hsorted, hall⟩

/-- A scan of an access method that returns given entries and writes the fields of the
descriptor that a btree does, which `xs_inorder` is not one of. -/
def entriesAm {D : Type} (start : IndexScanDesc D) (entries : List ItemPointer) :
    IndexAm D (IndexScanDesc D × List ItemPointer) where
  beginscan := Except.ok (start, entries)
  gettuple := fun (scan, rest) =>
    match rest with
    | [] => Except.ok (false, scan, [])
    | tid :: rest => Except.ok (true, { scan with xsHeaptid := tid, xsRecheck := false }, rest)
  desc := Prod.fst
  remaining := fun (_, rest) => rest.length
  gettuple_remaining := by
    rintro ⟨scan, rest⟩ ⟨after, left⟩ hget
    cases rest with
    | nil => simp at hget
    | cons tid rest =>
        simp only [Except.ok.injEq, Prod.mk.injEq] at hget
        obtain ⟨_, _, rfl⟩ := hget
        exact Nat.lt_succ_self _

/-- Two rows with the sort keys 2 and 1, scanned in that order by an access method that never
writes `xs_inorder`, in memory where the field happens to hold `inorder`. -/
def twoRows (inorder : Bool) :
    PlanNode (IndexScanState @SortedQueue Nat (IndexScanDesc Nat × List ItemPointer) Nat) Nat :=
  let scan : IndexScanDesc Nat := relationGetIndexScan
    ⟨⟨0, 0, none, none⟩, ⟨0, 0⟩, true, inorder, none, true⟩ (⟨true, []⟩, ⟨true, []⟩) 0 0
  let plan : IndexScan Nat (IndexScanDesc Nat × List ItemPointer) Nat :=
    ⟨entriesAm scan [⟨0, 1⟩, ⟨0, 2⟩], fun tid => some (if tid.offset = 1 then 2 else 1),
      fun _ => true, fun _ => none⟩
  plan.node @SortedQueue 0

theorem twoRows_yields (inorder : Bool) :
    ∃ items, (twoRows inorder).Yields (IndexScanState.init, ⟨false⟩) items ∧
      items.map (fun item => (item.1, inorderAfter item)) = [(2, inorder), (1, inorder)] := by
  refine ⟨_, Source.Yields.item rfl (Source.Yields.item rfl (Source.Yields.done rfl)), ?_⟩
  rfl

/-- With a clear flag in memory, LIMIT 1 over the two rows returns the smaller. -/
theorem twoRows_smallest :
    ∃ items, (twoRows false).Yields (IndexScanState.init, ⟨false⟩) items ∧
      ∃ rows, ((SortPlan.inMemory id 0).node (twoRows false)).collect 1
          (SortState.init true 1 IndexScanState.init, ⟨false⟩) = Except.ok rows ∧
        rows.Pairwise (AscendingBy id) ∧
        SmallestBy (id : Nat → Nat) 1 ↑(items.map Prod.fst) ↑rows := by
  obtain ⟨items, hitems, hmap⟩ := twoRows_yields false
  refine ⟨items, hitems, (boundedSort_smallest_iff _ _ hitems le_rfl).mpr ?_⟩
  rintro index ⟨item, hitem, hflag, _⟩
  have hmem : (item.1, inorderAfter item) ∈ [(2, false), (1, false)] :=
    hmap ▸ List.mem_map_of_mem (List.mem_of_getElem? hitem)
  simp [hflag] at hmem

/-- With a set flag in memory, LIMIT 1 over the two rows returns the greater. -/
theorem twoRows_leaks :
    ∃ items, (twoRows true).Yields (IndexScanState.init, ⟨false⟩) items ∧
      ¬ ∃ rows, ((SortPlan.inMemory id 0).node (twoRows true)).collect 1
          (SortState.init true 1 IndexScanState.init, ⟨false⟩) = Except.ok rows ∧
        rows.Pairwise (AscendingBy id) ∧
        SmallestBy (id : Nat → Nat) 1 ↑(items.map Prod.fst) ↑rows := by
  obtain ⟨items, hitems, hmap⟩ := twoRows_yields true
  refine ⟨items, hitems, ?_⟩
  rintro ⟨rows, hrows, _, hsmallest⟩
  have hgreater : ((SortPlan.inMemory id 0).node (twoRows true)).collect 1
      (SortState.init true 1 IndexScanState.init, ⟨false⟩) = Except.ok [2] := rfl
  rw [hgreater] at hrows
  obtain rfl := Except.ok.inj hrows
  have hrows : items.map Prod.fst = [2, 1] := by
    simpa [Function.comp_def] using congrArg (List.map Prod.fst) hmap
  obtain ⟨rest, hall, _, hle⟩ := hsmallest
  rw [hrows] at hall
  have hrest : rest = {1} := (add_left_cancel (a := {2}) hall).symm
  exact absurd (hle 2 (by simp) 1 (by simp [hrest])) (by decide)

end VBase.Executor
