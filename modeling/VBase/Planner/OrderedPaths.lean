import Mathlib.Data.List.Basic
import Mathlib.Data.List.Infix
import Mathlib.Tactic.Common

/-! # Paths for ORDER BY

`create_ordered_paths` adds, for every path of its input, the path itself if its
pathkeys already cover the ORDER BY, or sorts over it. An index whose access
method has `amcanrelaxedorderbyop` advertises pathkeys that its rows need not
follow, and the function overrides what the pathkeys say for some of the paths
that rely on such an index.
-/

namespace VBase.Planner

/-- Path nodes, as far as ordering goes. Pathkeys are canonical and path targets are compared
by address, so both are arbitrary types. `preserving` stands for nodes that hand on the order of
a subpath under their own pathkeys: nested loops, by their outer path, and sub-select scans. -/
inductive Path (K T : Type)
  | index (indexOnly amcanrelaxedorderbyop : Bool) (pathkeys : List K) (pathtarget : T)
  | projection (subpath : Path K T) (pathtarget : T)
  | preserving (subpath : Path K T) (pathkeys : List K) (pathtarget : T)
  | sort (subpath : Path K T) (pathkeys : List K)
  | incrementalSort (subpath : Path K T) (pathkeys : List K) (nPresortedCols : Nat)
  | gatherMerge (subpath : Path K T) (pathkeys : List K) (pathtarget : T)

variable {K T : Type}

namespace Path

/-- The order that a path advertises. A projection does not change it. -/
def pathkeys : Path K T → List K
  | index _ _ pathkeys _ => pathkeys
  | projection subpath _ => subpath.pathkeys
  | preserving _ pathkeys _ => pathkeys
  | sort _ pathkeys => pathkeys
  | incrementalSort _ pathkeys _ => pathkeys
  | gatherMerge _ pathkeys _ => pathkeys

/-- Sorts do not project, so they have the target of their subpath. -/
def pathtarget : Path K T → T
  | index _ _ _ pathtarget => pathtarget
  | projection _ pathtarget => pathtarget
  | preserving _ _ pathtarget => pathtarget
  | sort subpath _ => subpath.pathtarget
  | incrementalSort subpath _ _ => subpath.pathtarget
  | gatherMerge _ _ pathtarget => pathtarget

/-- `create_projection_path`, which strips a projection from what it is given. -/
def createProjectionPath (subpath : Path K T) (target : T) : Path K T :=
  match subpath with
  | projection subpath _ => projection subpath target
  | _ => projection subpath target

/-- `apply_projection_to_path`. A path that can project takes the new target itself, and under
a Gather Merge the workers do. -/
def applyProjectionToPath (targetParallelSafe : Bool) (target : T) : Path K T → Path K T
  | index indexOnly relaxed pathkeys _ => index indexOnly relaxed pathkeys target
  | projection subpath _ => projection subpath target
  | preserving subpath pathkeys _ => preserving subpath pathkeys target
  | gatherMerge subpath pathkeys _ =>
      gatherMerge (if targetParallelSafe then subpath.createProjectionPath target else subpath)
        pathkeys target
  | path => path.createProjectionPath target

/-- The walk from a path through `T_Result` nodes to an index scan. -/
def findsRelaxedIndex : Path K T → Bool
  | index _ amcanrelaxedorderbyop _ _ => amcanrelaxedorderbyop
  | projection subpath _ => subpath.findsRelaxedIndex
  | _ => false

/-- The order of the path comes from a relaxed-order index scan. A full sort relies on no order
and an incremental sort on that of its presorted columns. -/
def TrustsRelaxed : Path K T → Prop
  | index _ amcanrelaxedorderbyop _ _ => amcanrelaxedorderbyop = true
  | projection subpath _ => subpath.TrustsRelaxed
  | preserving subpath _ _ => subpath.TrustsRelaxed
  | sort _ _ => False
  | incrementalSort subpath _ nPresortedCols => 0 < nPresortedCols ∧ subpath.TrustsRelaxed
  | gatherMerge subpath _ _ => subpath.TrustsRelaxed

end Path

/-- `pathkeys_count_contained_in`, with the length of the common prefix. -/
def pathkeysCountContainedIn [DecidableEq K] : List K → List K → Bool × Nat
  | [], _ => (true, 0)
  | _ :: _, [] => (false, 0)
  | key1 :: keys1, key2 :: keys2 =>
      if key1 = key2 then
        let (contained, common) := pathkeysCountContainedIn keys1 keys2
        (contained, common + 1)
      else (false, 0)

/-- The input relation. `cheapestTotalPath` is a position in `pathlist`. -/
structure RelOptInfo (K T : Type) where
  pathlist : List (Path K T)
  partialPathlist : List (Path K T)
  cheapestTotalPath : Nat
  considerParallel : Bool

/-- What else `create_ordered_paths` reads. `limitTuples` is -1 without a LIMIT. -/
structure OrderBy (K T : Type) where
  sortPathkeys : List K
  target : T
  targetParallelSafe : Bool
  limitTuples : Int
  enableIncrementalSort : Bool

namespace OrderBy

variable [DecidableEq K] [DecidableEq T] (order : OrderBy K T)

/-- Add a projection step if needed. -/
def project (path : Path K T) : Path K T :=
  if path.pathtarget = order.target then path
  else path.applyProjectionToPath order.targetParallelSafe order.target

/-- `is_sorted` and `presorted_keys`, with the override for relaxed orders. -/
def presorted (path : Path K T) : Bool × Nat :=
  let (isSorted, presortedKeys) := pathkeysCountContainedIn order.sortPathkeys path.pathkeys
  if isSorted && decide (0 < order.limitTuples) && path.findsRelaxedIndex then (false, 0)
  else (isSorted, presortedKeys)

/-- The paths that the loop over `pathlist` adds for one of its paths. -/
def addOrdered (cheapest : Bool) (path : Path K T) : List (Path K T) :=
  let (isSorted, presortedKeys) := order.presorted path
  if isSorted then [order.project path]
  else
    (if cheapest then [order.project (Path.sort path order.sortPathkeys)] else []) ++
      if order.enableIncrementalSort && presortedKeys != 0 then
        [order.project (Path.incrementalSort path order.sortPathkeys presortedKeys)]
      else []

/-- A sort of a partial path, collected by a Gather Merge. -/
def gather (path : Path K T) : Path K T :=
  order.project (Path.gatherMerge path order.sortPathkeys path.pathtarget)

/-- The sort of the cheapest partial path. -/
def addPartial (cheapestPartial : Path K T) : List (Path K T) :=
  if (pathkeysCountContainedIn order.sortPathkeys cheapestPartial.pathkeys).1 then []
  else [order.gather (Path.sort cheapestPartial order.sortPathkeys)]

/-- The incremental sort of a partial path. -/
def addPartialIncremental (path : Path K T) : List (Path K T) :=
  let (isSorted, presortedKeys) := pathkeysCountContainedIn order.sortPathkeys path.pathkeys
  if isSorted || presortedKeys == 0 then []
  else [order.gather (Path.incrementalSort path order.sortPathkeys presortedKeys)]

/-- The part of `create_ordered_paths` for parallel plans. -/
def partialPaths (input : RelOptInfo K T) : List (Path K T) :=
  if input.considerParallel && order.targetParallelSafe && !order.sortPathkeys.isEmpty then
    match input.partialPathlist with
    | [] => []
    | cheapestPartial :: rest =>
        order.addPartial cheapestPartial ++
          if order.enableIncrementalSort && decide (1 < order.sortPathkeys.length) then
            (cheapestPartial :: rest).flatMap order.addPartialIncremental
          else []
  else []

/-- The paths that `create_ordered_paths` passes to `add_path`. -/
def createOrderedPaths (input : RelOptInfo K T) : List (Path K T) :=
  (input.pathlist.zipIdx.flatMap fun (path, position) =>
      order.addOrdered (position == input.cheapestTotalPath) path) ++
    order.partialPaths input

end OrderBy

/-! ## What is added -/

theorem pathkeysCountContainedIn_fst [DecidableEq K] (keys1 keys2 : List K) :
    (pathkeysCountContainedIn keys1 keys2).1 = true ↔ keys1 <+: keys2 := by
  induction keys1 generalizing keys2 with
  | nil => simp [pathkeysCountContainedIn]
  | cons key1 rest1 ih =>
      cases keys2 with
      | nil => simp [pathkeysCountContainedIn]
      | cons key2 rest2 =>
          rw [List.cons_prefix_cons, ← ih rest2, pathkeysCountContainedIn]
          split
          next heq => simp [heq]
          next hne => simp [hne]

theorem pathkeysCountContainedIn_snd [DecidableEq K] {keys1 : List K} (hkeys : keys1 ≠ [])
    (keys2 : List K) :
    (pathkeysCountContainedIn keys1 keys2).2 ≠ 0 ↔ keys2.head? = keys1.head? := by
  cases keys1 with
  | nil => exact absurd rfl hkeys
  | cons key1 rest1 =>
      cases keys2 with
      | nil => simp [pathkeysCountContainedIn]
      | cons key2 rest2 =>
          rw [pathkeysCountContainedIn]
          split
          next heq => simp [heq]
          next hne => simpa [eq_comm] using hne

namespace Path

@[simp] theorem createProjectionPath_trusts (path : Path K T) (target : T) :
    (path.createProjectionPath target).TrustsRelaxed ↔ path.TrustsRelaxed := by
  cases path <;> rfl

@[simp] theorem applyProjectionToPath_trusts (safe : Bool) (target : T) (path : Path K T) :
    (path.applyProjectionToPath safe target).TrustsRelaxed ↔ path.TrustsRelaxed := by
  cases path with
  | gatherMerge subpath pathkeys pathtarget =>
      simp only [applyProjectionToPath, TrustsRelaxed]
      split
      · exact createProjectionPath_trusts subpath target
      · rfl
  | _ => rfl

end Path

namespace OrderBy

variable [DecidableEq K] [DecidableEq T] {order : OrderBy K T}

omit [DecidableEq K] in
@[simp] theorem project_trusts (path : Path K T) :
    (order.project path).TrustsRelaxed ↔ path.TrustsRelaxed := by
  unfold project
  split
  · rfl
  · exact Path.applyProjectionToPath_trusts _ _ _

variable (order) in
/-- The pathkeys cover the ORDER BY. -/
def Covers (path : Path K T) : Prop := order.sortPathkeys <+: path.pathkeys

variable (order) in
/-- The pathkeys start like the ORDER BY. -/
def Starts (path : Path K T) : Prop := path.pathkeys.head? = order.sortPathkeys.head?

/-- A path that is taken to be sorted is added as it is. -/
theorem addOrdered_of_sorted {path : Path K T} {presortedKeys : Nat}
    (hpresorted : order.presorted path = (true, presortedKeys)) (cheapest : Bool) :
    (∀ added ∈ order.addOrdered cheapest path, ¬ added.TrustsRelaxed) ↔ ¬ path.TrustsRelaxed := by
  simp [addOrdered, hpresorted]

/-- Otherwise it is sorted, and sorted incrementally where some keys are presorted. -/
theorem addOrdered_of_unsorted {path : Path K T} {presortedKeys : Nat}
    (hpresorted : order.presorted path = (false, presortedKeys)) (cheapest : Bool) :
    (∀ added ∈ order.addOrdered cheapest path, ¬ added.TrustsRelaxed) ↔
      (order.enableIncrementalSort = true → presortedKeys ≠ 0 → ¬ path.TrustsRelaxed) := by
  have hsort : ∀ added ∈ (if cheapest then
      [order.project (Path.sort path order.sortPathkeys)] else []), ¬ added.TrustsRelaxed := by
    cases cheapest <;> simp [Path.TrustsRelaxed]
  simp only [addOrdered, hpresorted, Bool.false_eq_true, if_false, List.forall_mem_append]
  rw [and_iff_right hsort]
  cases order.enableIncrementalSort with
  | false => simp
  | true =>
      by_cases hzero : presortedKeys = 0
      · simp [hzero]
      · simp [hzero, Path.TrustsRelaxed, Nat.pos_of_ne_zero hzero]

omit [DecidableEq T] in
theorem presorted_of_covers {path : Path K T} (hcovers : order.Covers path) :
    ∃ presortedKeys, order.presorted path =
      if 0 < order.limitTuples ∧ path.findsRelaxedIndex = true then (false, 0)
      else (true, presortedKeys) := by
  have hsorted := (pathkeysCountContainedIn_fst order.sortPathkeys path.pathkeys).mpr hcovers
  refine ⟨(pathkeysCountContainedIn order.sortPathkeys path.pathkeys).2, ?_⟩
  unfold presorted
  simp only [hsorted, Bool.true_and, Bool.and_eq_true, decide_eq_true_eq]

omit [DecidableEq T] in
theorem presorted_of_not_covers (hkeys : order.sortPathkeys ≠ []) {path : Path K T}
    (hcovers : ¬ order.Covers path) :
    ∃ presortedKeys, order.presorted path = (false, presortedKeys) ∧
      (presortedKeys ≠ 0 ↔ order.Starts path) := by
  have hsorted : (pathkeysCountContainedIn order.sortPathkeys path.pathkeys).1 = false := by
    rw [← Bool.not_eq_true, pathkeysCountContainedIn_fst]
    exact hcovers
  refine ⟨(pathkeysCountContainedIn order.sortPathkeys path.pathkeys).2, ?_,
    pathkeysCountContainedIn_snd hkeys path.pathkeys⟩
  unfold presorted
  simp only [hsorted, Bool.false_and, Bool.false_eq_true, if_false]

/-- When the additions for one path rely on no relaxed order. -/
theorem addOrdered_iff (hkeys : order.sortPathkeys ≠ []) (cheapest : Bool) (path : Path K T) :
    (∀ added ∈ order.addOrdered cheapest path, ¬ added.TrustsRelaxed) ↔
      (path.TrustsRelaxed →
        (order.Covers path → 0 < order.limitTuples ∧ path.findsRelaxedIndex = true) ∧
        (order.enableIncrementalSort = true → order.Starts path → order.Covers path)) := by
  by_cases hcovers : order.Covers path
  · obtain ⟨presortedKeys, hpresorted⟩ := presorted_of_covers hcovers
    by_cases hover : 0 < order.limitTuples ∧ path.findsRelaxedIndex = true
    · rw [if_pos hover] at hpresorted
      rw [addOrdered_of_unsorted hpresorted]
      simp [hcovers, hover]
    · rw [if_neg hover] at hpresorted
      rw [addOrdered_of_sorted hpresorted]
      simp [hcovers, hover]
  · obtain ⟨presortedKeys, hpresorted, hstarts⟩ := presorted_of_not_covers hkeys hcovers
    rw [addOrdered_of_unsorted hpresorted, hstarts]
    simp only [hcovers, false_implies, true_and]
    tauto

omit [DecidableEq K] in
theorem gather_trusts (path : Path K T) :
    (order.gather path).TrustsRelaxed ↔ path.TrustsRelaxed :=
  project_trusts _

theorem addPartial_trusts (cheapestPartial : Path K T) :
    ∀ added ∈ order.addPartial cheapestPartial, ¬ added.TrustsRelaxed := by
  unfold addPartial
  split
  · simp
  · simp [gather_trusts, Path.TrustsRelaxed]

theorem addPartialIncremental_iff (hkeys : order.sortPathkeys ≠ []) (path : Path K T) :
    (∀ added ∈ order.addPartialIncremental path, ¬ added.TrustsRelaxed) ↔
      (path.TrustsRelaxed → order.Starts path → order.Covers path) := by
  have hcovers : _ ↔ order.Covers path :=
    pathkeysCountContainedIn_fst order.sortPathkeys path.pathkeys
  have hstarts : _ ↔ order.Starts path := pathkeysCountContainedIn_snd hkeys path.pathkeys
  rw [← hcovers, ← hstarts, addPartialIncremental]
  rcases pathkeysCountContainedIn order.sortPathkeys path.pathkeys with ⟨isSorted, presortedKeys⟩
  cases isSorted with
  | true => simp
  | false =>
      by_cases hzero : presortedKeys = 0
      · simp [hzero]
      · simp [hzero, gather_trusts, Path.TrustsRelaxed, Nat.pos_of_ne_zero hzero]

omit [DecidableEq K] [DecidableEq T] in
/-- A single key is covered as soon as it is matched. -/
theorem covers_of_starts (hkeys : order.sortPathkeys ≠ []) (hone : ¬ 1 < order.sortPathkeys.length)
    {path : Path K T} (hstarts : order.Starts path) : order.Covers path := by
  obtain ⟨key, hkey⟩ : ∃ key, order.sortPathkeys = [key] := by
    refine List.length_eq_one_iff.mp ?_
    have hpos := List.length_pos_iff.mpr hkeys
    omega
  obtain ⟨rest, hrest⟩ : ∃ rest, path.pathkeys = key :: rest := by
    refine List.head?_eq_some_iff.mp ?_
    rw [hstarts, hkey]
    rfl
  rw [Covers, hkey, hrest]
  exact ⟨rest, rfl⟩

/-- When the additions for parallel plans rely on no relaxed order. -/
theorem partialPaths_iff (hkeys : order.sortPathkeys ≠ []) (input : RelOptInfo K T) :
    (∀ added ∈ order.partialPaths input, ¬ added.TrustsRelaxed) ↔
      (order.enableIncrementalSort = true → input.considerParallel = true →
        order.targetParallelSafe = true →
          ∀ path ∈ input.partialPathlist, path.TrustsRelaxed → order.Starts path →
            order.Covers path) := by
  have hnil : order.sortPathkeys.isEmpty = false := by simpa using hkeys
  unfold partialPaths
  rw [hnil, Bool.not_false, Bool.and_true]
  split
  next hparallel =>
    obtain ⟨hconsider, hsafe⟩ := Bool.and_eq_true_iff.mp hparallel
    simp only [hconsider, hsafe, true_implies]
    cases input.partialPathlist with
    | nil => simp
    | cons cheapestPartial rest =>
        simp only [List.forall_mem_append]
        rw [and_iff_right (addPartial_trusts cheapestPartial)]
        cases order.enableIncrementalSort with
        | false => simp
        | true =>
            by_cases hmany : 1 < order.sortPathkeys.length
            · simp only [hmany, decide_true, Bool.and_self, if_true, true_implies,
                List.forall_mem_flatMap, addPartialIncremental_iff hkeys]
            · simp only [hmany, decide_false, Bool.and_false, Bool.false_eq_true, if_false,
                List.not_mem_nil, false_implies, implies_true, true_implies, true_iff]
              exact fun path _ _ hstarts => covers_of_starts hkeys hmany hstarts
  next hparallel =>
    simp only [Bool.and_eq_true, not_and] at hparallel
    simp only [List.not_mem_nil, false_implies, implies_true, true_iff]
    intro _ hconsider hsafe
    exact absurd hsafe (hparallel hconsider)

/-- Nothing that `create_ordered_paths` adds relies on a relaxed order exactly when every input
path that does and covers the ORDER BY is an index scan, perhaps under projections, of a query
with a LIMIT, and, if there are incremental sorts, none starts like the ORDER BY without
covering it. -/
theorem createOrderedPaths_iff (order : OrderBy K T) (hkeys : order.sortPathkeys ≠ [])
    (input : RelOptInfo K T) :
    (∀ added ∈ order.createOrderedPaths input, ¬ added.TrustsRelaxed) ↔
      (∀ path ∈ input.pathlist, path.TrustsRelaxed → order.Covers path →
        0 < order.limitTuples ∧ path.findsRelaxedIndex = true) ∧
      (order.enableIncrementalSort = true →
        (∀ path ∈ input.pathlist, path.TrustsRelaxed → order.Starts path → order.Covers path) ∧
        (input.considerParallel = true → order.targetParallelSafe = true →
          ∀ path ∈ input.partialPathlist, path.TrustsRelaxed → order.Starts path →
            order.Covers path)) := by
  have hloop : (∀ added ∈ input.pathlist.zipIdx.flatMap (fun (path, position) =>
      order.addOrdered (position == input.cheapestTotalPath) path), ¬ added.TrustsRelaxed) ↔
        ∀ path ∈ input.pathlist, path.TrustsRelaxed →
          (order.Covers path → 0 < order.limitTuples ∧ path.findsRelaxedIndex = true) ∧
          (order.enableIncrementalSort = true → order.Starts path → order.Covers path) := by
    simp only [List.forall_mem_flatMap, addOrdered_iff hkeys]
    constructor
    · intro hall path hpath
      obtain ⟨position, hposition⟩ := List.getElem?_of_mem hpath
      exact hall (path, position) (List.mem_zipIdx_iff_getElem?.mpr hposition)
    · intro hall ⟨path, position⟩ hmem
      exact hall path (List.mem_of_getElem? (List.mem_zipIdx_iff_getElem?.mp hmem))
  rw [createOrderedPaths, List.forall_mem_append, hloop, partialPaths_iff hkeys]
  constructor
  · rintro ⟨hpaths, hpartial⟩
    exact ⟨fun path hpath htrusts => (hpaths path hpath htrusts).1,
      fun henable => ⟨fun path hpath htrusts => (hpaths path hpath htrusts).2 henable,
        hpartial henable⟩⟩
  · rintro ⟨hcovering, hincremental⟩
    exact ⟨fun path hpath htrusts => ⟨hcovering path hpath htrusts,
        fun henable => (hincremental henable).1 path hpath htrusts⟩,
      fun henable => (hincremental henable).2⟩

end OrderBy

/-- An index scan over hnsw, ordered by the key 0. -/
def hnswPath : Path Nat Nat := Path.index false true [0] 0

/-- ORDER BY the key 0. -/
def orderByDistance (limitTuples : Int) : OrderBy Nat Nat := ⟨[0], 0, true, limitTuples, true⟩

/-- With a LIMIT the scan is sorted. -/
theorem hnswPath_sorted :
    (orderByDistance 10).sortPathkeys ≠ [] ∧
      ∀ added ∈ (orderByDistance 10).createOrderedPaths ⟨[hnswPath], [], 0, false⟩,
        ¬ added.TrustsRelaxed := by
  have hkeys : (orderByDistance 10).sortPathkeys ≠ [] := by decide
  refine ⟨hkeys, (OrderBy.createOrderedPaths_iff _ hkeys _).mpr ⟨?_, fun _ => ⟨?_, by simp⟩⟩⟩
  · intro path hpath _ _
    obtain rfl := List.mem_singleton.mp hpath
    exact ⟨by decide, rfl⟩
  · intro path hpath _ _
    obtain rfl := List.mem_singleton.mp hpath
    exact ⟨[], rfl⟩

/-- Without one it is added as it is. -/
theorem hnswPath_unsorted :
    ¬ ∀ added ∈ (orderByDistance (-1)).createOrderedPaths ⟨[hnswPath], [], 0, false⟩,
      ¬ added.TrustsRelaxed := by
  intro hall
  exact hall hnswPath List.mem_cons_self rfl

end VBase.Planner
