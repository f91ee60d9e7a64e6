import VBase.Foundation.Runs
import VBase.Planner.OrderedPaths
import Mathlib.Data.List.Lex
import Mathlib.Logic.Nontrivial.Basic

/-! # The rows of a path

`Path.Returns` says which rows, in which order, the executor may return for a path.
A well-formed path relies on a relaxed order exactly when its rows may be out of
the order it advertises, and every path that `create_ordered_paths` adds is
well formed and advertises the ORDER BY.
-/

namespace VBase.Planner

variable {K T V : Type} [LinearOrder V]

/-- What a row, given by its value for each pathkey, is compared by. -/
def sortKey (keys : List K) (row : K → V) : List V := keys.map row

/-- The rows are in the order of the keys. -/
def Ordered (keys : List K) (rows : List (K → V)) : Prop :=
  rows.Pairwise (AscendingBy (sortKey keys))

/-- The rows that stand for each outer row agree with it on the keys. -/
def Blocks (keys : List K) (outer : List (K → V)) (blocks : List (List (K → V))) : Prop :=
  List.Forall₂ (fun row block => ∀ joined ∈ block, sortKey keys joined = sortKey keys row)
    outer blocks

namespace Path

/-- The rows that a path may return. Sorts may leave out rows, since they can be bounded, and
the rows of a relaxed-order index come in any order. An incremental sort ends a batch where the
presorted columns change; the least size of its batches is left out. -/
def Returns : Path K T → List (K → V) → Prop
  | index _ amcanrelaxedorderbyop pathkeys _, rows =>
      amcanrelaxedorderbyop = false → Ordered pathkeys rows
  | projection subpath _, rows => subpath.Returns rows
  | preserving subpath pathkeys _, rows =>
      ∃ outer blocks, subpath.Returns outer ∧ Blocks pathkeys outer blocks ∧
        rows = blocks.flatten
  | sort subpath pathkeys, rows =>
      ∃ input, subpath.Returns input ∧ rows.Subperm input ∧ Ordered pathkeys rows
  | incrementalSort subpath pathkeys nPresortedCols, rows =>
      ∃ batches sorted, subpath.Returns batches.flatten ∧ (∀ batch ∈ batches, batch ≠ []) ∧
        Separated (sortKey (pathkeys.take nPresortedCols)) batches ∧
        List.Forall₂ (fun batch output => output.Subperm batch ∧ Ordered pathkeys output)
          batches sorted ∧
        rows = sorted.flatten
  | gatherMerge subpath pathkeys _, rows =>
      ∃ workers, (∀ worker ∈ workers, subpath.Returns worker) ∧
        Merges (sortKey pathkeys) workers rows

/-- The nodes that hand on an order, or build on one, find it in the pathkeys below. -/
def WellFormed : Path K T → Prop
  | index _ _ _ _ => True
  | projection subpath _ => subpath.WellFormed
  | preserving subpath pathkeys _ => pathkeys <+: subpath.pathkeys ∧ subpath.WellFormed
  | sort subpath _ => subpath.WellFormed
  | incrementalSort subpath pathkeys nPresortedCols =>
      nPresortedCols ≤ pathkeys.length ∧ pathkeys.take nPresortedCols <+: subpath.pathkeys ∧
        subpath.WellFormed
  | gatherMerge subpath pathkeys _ => pathkeys <+: subpath.pathkeys ∧ subpath.WellFormed

end Path

/-! ## Orders by several keys -/

/-- A difference in the leading keys decides. -/
theorem sortKey_lt {keys : List K} (rest : List K) {first second : K → V}
    (hlt : sortKey keys first < sortKey keys second) :
    sortKey (keys ++ rest) first < sortKey (keys ++ rest) second := by
  induction keys with
  | nil => exact absurd hlt (lt_irrefl _)
  | cons key keys ih =>
      simp only [sortKey, List.map_cons, List.cons_append, List.cons_lt_cons_iff] at hlt ⊢
      rcases hlt with hkey | ⟨heq, hkeys⟩
      · exact Or.inl hkey
      · exact Or.inr ⟨heq, ih hkeys⟩

theorem Ordered.leading {keys longer : List K} {rows : List (K → V)} (hkeys : keys <+: longer)
    (hordered : Ordered longer rows) : Ordered keys rows := by
  obtain ⟨rest, rfl⟩ := hkeys
  refine List.Pairwise.imp ?_ hordered
  intro earlier later hle
  by_contra hgt
  exact absurd hle (not_le_of_gt (sortKey_lt rest (lt_of_not_ge hgt)))

theorem ordered_nil (rows : List (K → V)) : Ordered [] rows := by
  induction rows with
  | nil => exact List.Pairwise.nil
  | cons row rows ih => exact List.pairwise_cons.mpr ⟨fun _ _ => le_rfl, ih⟩

namespace Blocks

variable {keys : List K} {outer : List (K → V)} {blocks : List (List (K → V))}

omit [LinearOrder V] in
theorem exists_outer (hblocks : Blocks keys outer blocks) {joined : K → V}
    (hjoined : joined ∈ blocks.flatten) :
    ∃ row ∈ outer, sortKey keys joined = sortKey keys row := by
  induction hblocks with
  | nil => simp at hjoined
  | @cons row block outer blocks hblock _ ih =>
      rcases List.mem_append.mp hjoined with hhere | hlater
      · exact ⟨row, List.mem_cons_self, hblock joined hhere⟩
      · obtain ⟨other, hother, heq⟩ := ih hlater
        exact ⟨other, List.mem_cons_of_mem _ hother, heq⟩

/-- A join keeps the order of its outer rows. -/
theorem ordered (hblocks : Blocks keys outer blocks) (houter : Ordered keys outer) :
    Ordered keys blocks.flatten := by
  induction hblocks with
  | nil => exact List.Pairwise.nil
  | @cons row block outer blocks hblock hrest ih =>
      obtain ⟨hrow, houter⟩ := List.pairwise_cons.mp houter
      refine List.pairwise_append.mpr ⟨?_, ih houter, ?_⟩
      · apply List.pairwise_of_forall_mem_list
        intro first hfirst second hsecond
        exact le_of_eq ((hblock first hfirst).trans (hblock second hsecond).symm)
      · intro earlier hearlier later hlater
        obtain ⟨other, hother, heq⟩ := exists_outer hrest hlater
        calc sortKey keys earlier = sortKey keys row := hblock earlier hearlier
          _ ≤ sortKey keys other := hrow other hother
          _ = sortKey keys later := heq.symm

end Blocks

/-! ## Relying on a relaxed order -/

namespace Path

/-- A path that relies on no relaxed order returns its rows in the order it advertises. -/
theorem ordered_of_returns {path : Path K T} (hformed : path.WellFormed)
    (htrusts : ¬ path.TrustsRelaxed) {rows : List (K → V)} (hreturns : path.Returns rows) :
    Ordered path.pathkeys rows := by
  induction path generalizing rows with
  | index indexOnly relaxed pathkeys pathtarget => exact hreturns (Bool.eq_false_iff.mpr htrusts)
  | projection subpath pathtarget ih => exact ih hformed htrusts hreturns
  | preserving subpath pathkeys pathtarget ih =>
      obtain ⟨outer, blocks, houter, hblocks, rfl⟩ := hreturns
      exact hblocks.ordered ((ih hformed.2 htrusts houter).leading hformed.1)
  | sort subpath pathkeys ih =>
      obtain ⟨input, _, _, hordered⟩ := hreturns
      exact hordered
  | incrementalSort subpath pathkeys nPresortedCols ih =>
      obtain ⟨batches, sorted, hinput, hnonempty, hseparated, hsorted, rfl⟩ := hreturns
      obtain ⟨_, hpresorted, hformed⟩ := hformed
      have hordered : Ordered (pathkeys.take nPresortedCols) batches.flatten := by
        rcases Nat.eq_zero_or_pos nPresortedCols with rfl | hpos
        · exact ordered_nil _
        · exact (ih hformed (fun hsub => htrusts ⟨hpos, hsub⟩) hinput).leading hpresorted
      refine hseparated.pairwise_flatten ?_ (hsorted.imp fun _ _ h => ⟨h.1.subset, h.2⟩)
        hnonempty hordered
      intro earlier later hlt
      have hall := sortKey_lt (pathkeys.drop nPresortedCols) hlt
      rw [List.take_append_drop] at hall
      exact le_of_lt hall
  | gatherMerge subpath pathkeys pathtarget ih =>
      obtain ⟨workers, hworkers, hmerges⟩ := hreturns
      refine hmerges.pairwise fun worker hworker => ?_
      exact (ih hformed.2 htrusts (hworkers worker hworker)).leading hformed.1

/-- Any number of high rows, and then a low one. -/
def outOfOrder (size : Nat) (low high : V) : List (K → V) :=
  List.replicate (size + 1) (fun _ => high) ++ [fun _ => low]

theorem sortKey_const_lt {keys : List K} (hkeys : keys ≠ []) {low high : V} (hlow : low < high) :
    sortKey keys (fun _ => low) < sortKey keys fun _ => high := by
  obtain ⟨key, rest, rfl⟩ := List.exists_cons_of_ne_nil hkeys
  exact List.cons_lt_cons_iff.mpr (Or.inl hlow)

theorem not_ordered_outOfOrder {keys : List K} (hkeys : keys ≠ []) (size : Nat) {low high : V}
    (hlow : low < high) : ¬ Ordered keys (outOfOrder size low high) := by
  intro hordered
  have hle : sortKey keys (fun _ => high) ≤ sortKey keys fun _ => low :=
    (List.pairwise_append.mp hordered).2.2 _ (by simp) _ (by simp)
  exact absurd hle (not_le_of_gt (sortKey_const_lt hkeys hlow))

/-- A path that relies on a relaxed order may return them, whatever the least size of a batch. -/
theorem returns_outOfOrder {path : Path K T} (hformed : path.WellFormed)
    (htrusts : path.TrustsRelaxed) (size : Nat) {low high : V} (hlow : low < high) :
    path.Returns (outOfOrder size low high) := by
  induction path with
  | index indexOnly relaxed pathkeys pathtarget =>
      exact fun hexact => absurd (htrusts.symm.trans hexact) (by decide)
  | projection subpath pathtarget ih => exact ih hformed htrusts
  | preserving subpath pathkeys pathtarget ih =>
      -- every outer row is joined with one row
      refine ⟨outOfOrder size low high, (outOfOrder size low high).map fun row => [row],
        ih hformed.2 htrusts, ?_, (List.flatMap_singleton' _).symm⟩
      exact List.forall₂_map_right_iff.mpr (List.forall₂_same.mpr (by simp))
  | sort => exact htrusts.elim
  | incrementalSort subpath pathkeys nPresortedCols ih =>
      obtain ⟨hcols, _, hformed⟩ := hformed
      obtain ⟨hpos, htrusts⟩ := htrusts
      have hkeys : pathkeys.take nPresortedCols ≠ [] := by
        apply List.ne_nil_of_length_pos
        rwa [List.length_take_of_le hcols]
      have hhigh : Ordered pathkeys (List.replicate (size + 1) fun _ => high) :=
        List.pairwise_replicate.mpr (Or.inr le_rfl)
      -- the presorted columns change before the low row, which is a batch of its own
      refine ⟨[List.replicate (size + 1) fun _ => high, [fun _ => low]],
        [List.replicate (size + 1) fun _ => high, [fun _ => low]], ?_, by simp, ?_, ?_, ?_⟩
      · simpa [outOfOrder] using ih hformed htrusts
      · refine List.IsChain.cons_cons (fun last hlast first hfirst => ?_) (List.IsChain.singleton _)
        obtain rfl : (fun _ => low) = first := by simpa using hfirst
        obtain rfl : (fun _ => high) = last := by simpa [List.getLast?_replicate] using hlast
        exact ne_of_gt (sortKey_const_lt hkeys hlow)
      · exact .cons ⟨List.Subperm.refl _, hhigh⟩
          (.cons ⟨List.Subperm.refl _, List.pairwise_singleton _ _⟩ .nil)
      · simp [outOfOrder]
  | gatherMerge subpath pathkeys pathtarget ih =>
      refine ⟨[outOfOrder size low high], fun worker hworker => ?_, Merges.single _ _⟩
      rw [List.mem_singleton.mp hworker]
      exact ih hformed.2 htrusts

/-- A path relies on a relaxed order exactly when its rows may be out of the order it advertises. -/
theorem trustsRelaxed_iff [Nontrivial V] {path : Path K T} (hformed : path.WellFormed)
    {keys : List K} (hnonempty : keys ≠ []) (hkeys : keys <+: path.pathkeys) :
    path.TrustsRelaxed ↔ ∃ rows : List (K → V), path.Returns rows ∧ ¬ Ordered keys rows := by
  constructor
  · intro htrusts
    obtain ⟨low, high, hlow⟩ := exists_pair_lt V
    exact ⟨outOfOrder 0 low high, returns_outOfOrder hformed htrusts 0 hlow,
      not_ordered_outOfOrder hnonempty 0 hlow⟩
  · rintro ⟨rows, hreturns, hunordered⟩
    by_contra htrusts
    exact hunordered ((ordered_of_returns hformed htrusts hreturns).leading hkeys)

end Path

/-! ## What `create_ordered_paths` adds -/

/-- The common keys are the first of both lists. -/
theorem pathkeysCountContainedIn_take [DecidableEq K] (keys1 keys2 : List K) :
    (pathkeysCountContainedIn keys1 keys2).2 ≤ keys1.length ∧
      keys1.take (pathkeysCountContainedIn keys1 keys2).2 <+: keys2 := by
  induction keys1 generalizing keys2 with
  | nil => simp [pathkeysCountContainedIn]
  | cons key1 rest1 ih =>
      cases keys2 with
      | nil => simp [pathkeysCountContainedIn]
      | cons key2 rest2 =>
          rw [pathkeysCountContainedIn]
          split
          next heq => simpa [heq, List.cons_prefix_cons] using ih rest2
          next => simp

namespace Path

@[simp] theorem createProjectionPath_wellFormed (path : Path K T) (target : T) :
    (path.createProjectionPath target).WellFormed ↔ path.WellFormed := by
  cases path <;> rfl

@[simp] theorem createProjectionPath_pathkeys (path : Path K T) (target : T) :
    (path.createProjectionPath target).pathkeys = path.pathkeys := by
  cases path <;> rfl

theorem applyProjectionToPath_pathkeys (safe : Bool) (target : T) (path : Path K T) :
    (path.applyProjectionToPath safe target).pathkeys = path.pathkeys := by
  cases path <;> rfl

theorem applyProjectionToPath_wellFormed (safe : Bool) (target : T) (path : Path K T) :
    (path.applyProjectionToPath safe target).WellFormed ↔ path.WellFormed := by
  cases path with
  | gatherMerge subpath pathkeys pathtarget =>
      cases safe <;> simp [applyProjectionToPath, WellFormed]
  | _ => rfl

end Path

namespace OrderBy

variable [DecidableEq K] [DecidableEq T] {order : OrderBy K T}

variable (order) in
/-- The path is well formed and advertises the ORDER BY. -/
def Offers (path : Path K T) : Prop := path.WellFormed ∧ order.Covers path

omit [DecidableEq K] in
theorem project_offers {path : Path K T} (hoffers : order.Offers path) :
    order.Offers (order.project path) := by
  unfold project
  split
  · exact hoffers
  · refine ⟨(Path.applyProjectionToPath_wellFormed _ _ _).mpr hoffers.1, ?_⟩
    rw [Covers, Path.applyProjectionToPath_pathkeys]
    exact hoffers.2

variable (order) in
omit [DecidableEq T] in
/-- The sorted part of the pathkeys is never more than what they share with the ORDER BY. -/
theorem presorted_cases (path : Path K T) :
    order.presorted path = (false, 0) ∨
      order.presorted path = pathkeysCountContainedIn order.sortPathkeys path.pathkeys := by
  unfold presorted
  rcases pathkeysCountContainedIn order.sortPathkeys path.pathkeys with ⟨isSorted, presortedKeys⟩
  simp only
  split
  · exact Or.inl rfl
  · exact Or.inr rfl

variable (order) in
omit [DecidableEq T] in
theorem incrementalSort_offers {path : Path K T} (hformed : path.WellFormed) :
    order.Offers (Path.incrementalSort path order.sortPathkeys
      (pathkeysCountContainedIn order.sortPathkeys path.pathkeys).2) := by
  obtain ⟨hcols, hpresorted⟩ := pathkeysCountContainedIn_take order.sortPathkeys path.pathkeys
  exact ⟨⟨hcols, hpresorted, hformed⟩, List.prefix_rfl⟩

theorem addOrdered_offers {path : Path K T} (hformed : path.WellFormed) (cheapest : Bool) :
    ∀ added ∈ order.addOrdered cheapest path, order.Offers added := by
  have hsort : ∀ added ∈ (if cheapest then
      [order.project (Path.sort path order.sortPathkeys)] else []), order.Offers added := by
    have hoffers : order.Offers (Path.sort path order.sortPathkeys) := ⟨hformed, List.prefix_rfl⟩
    cases cheapest <;> simp [project_offers hoffers]
  rcases presorted_cases order path with hrelaxed | hpathkeys
  · unfold addOrdered
    rw [hrelaxed]
    simpa using hsort
  · have hincremental := incrementalSort_offers order hformed
    have hcovers := (pathkeysCountContainedIn_fst order.sortPathkeys path.pathkeys).mp
    unfold addOrdered
    rw [hpathkeys]
    generalize pathkeysCountContainedIn order.sortPathkeys path.pathkeys = counted
      at hincremental hcovers ⊢
    obtain ⟨isSorted, presortedKeys⟩ := counted
    cases isSorted with
    | true => simpa using project_offers ⟨hformed, hcovers rfl⟩
    | false =>
        refine List.forall_mem_append.mpr ⟨hsort, ?_⟩
        split
        · simpa using project_offers hincremental
        · simp

omit [DecidableEq K] in
/-- A Gather Merge over a path that advertises the ORDER BY does too. -/
theorem gather_offers {path : Path K T} (hoffers : order.Offers path) :
    order.Offers (order.gather path) :=
  project_offers ⟨⟨hoffers.2, hoffers.1⟩, List.prefix_rfl⟩

theorem partialPaths_offers {input : RelOptInfo K T}
    (hformed : ∀ path ∈ input.partialPathlist, path.WellFormed) :
    ∀ added ∈ order.partialPaths input, order.Offers added := by
  unfold partialPaths
  split
  · cases hpaths : input.partialPathlist with
    | nil => simp
    | cons cheapestPartial rest =>
        rw [hpaths] at hformed
        refine List.forall_mem_append.mpr ⟨?_, ?_⟩
        · have hsort : order.Offers (Path.sort cheapestPartial order.sortPathkeys) :=
            ⟨hformed cheapestPartial List.mem_cons_self, List.prefix_rfl⟩
          unfold addPartial
          split
          · simp
          · simpa using gather_offers hsort
        · split
          · refine List.forall_mem_flatMap.mpr fun path hpath => ?_
            have hincremental := incrementalSort_offers order (hformed path hpath)
            simp only [addPartialIncremental]
            split
            · simp
            · simpa using gather_offers hincremental
          · simp
  · simp

/-- Every path that is added is well formed and advertises the ORDER BY. -/
theorem createOrderedPaths_offers {input : RelOptInfo K T}
    (hpaths : ∀ path ∈ input.pathlist, path.WellFormed)
    (hparallel : ∀ path ∈ input.partialPathlist, path.WellFormed) :
    ∀ added ∈ order.createOrderedPaths input, order.Offers added := by
  refine List.forall_mem_append.mpr ⟨?_, partialPaths_offers hparallel⟩
  refine List.forall_mem_flatMap.mpr fun (path, position) hmem => ?_
  have hpath : path ∈ input.pathlist :=
    List.mem_of_getElem? (List.mem_zipIdx_iff_getElem?.mp hmem)
  exact addOrdered_offers (hpaths path hpath) _

/-- A path that is added delivers the ORDER BY exactly when it relies on no relaxed order. -/
theorem createOrderedPaths_delivers [Nontrivial V] {input : RelOptInfo K T}
    (hkeys : order.sortPathkeys ≠ []) (hpaths : ∀ path ∈ input.pathlist, path.WellFormed)
    (hparallel : ∀ path ∈ input.partialPathlist, path.WellFormed)
    {added : Path K T} (hadded : added ∈ order.createOrderedPaths input) :
    (∀ rows : List (K → V), added.Returns rows → Ordered order.sortPathkeys rows) ↔
      ¬ added.TrustsRelaxed := by
  obtain ⟨hformed, hcovers⟩ := createOrderedPaths_offers hpaths hparallel added hadded
  have htrusts : added.TrustsRelaxed ↔
      ∃ rows : List (K → V), added.Returns rows ∧ ¬ Ordered order.sortPathkeys rows :=
    Path.trustsRelaxed_iff hformed hkeys hcovers
  rw [htrusts]
  push Not
  rfl

end OrderBy

end VBase.Planner
