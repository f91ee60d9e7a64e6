import Mathlib.Logic.Function.Basic
import Mathlib.Data.String.Basic

/-! # The cache of loaded indexes

`hnsw_build` writes the graph of an index to a file named by the relation, and
`hnsw_begin_scan` loads that file once into a process-wide map and never again.
What a scan searches is therefore fixed by the first scan of its name.
-/

namespace VBase.AccessMethod

/-- `DistanceMethod`. -/
inductive DistanceMethod
  | innerProduct
  | l2
  deriving DecidableEq

/-- `hnsw_ParaOptions`. -/
structure ParaOptions where
  dimension : Nat
  distmethod : DistanceMethod
  deriving DecidableEq

/-- An index relation; equally named ones differ in their `oid`. -/
structure IndexRelation where
  oid : Nat
  name : String
  options : Option ParaOptions
  deriving DecidableEq

/-- `hnsw_ParaGetDimension`. -/
def IndexRelation.dimension (index : IndexRelation) : Nat :=
  match index.options with
  | some opts => opts.dimension
  | none => 1

/-- `hnsw_ParaGetDistmethod`. -/
def IndexRelation.distmethod (index : IndexRelation) : DistanceMethod :=
  match index.options with
  | some opts => opts.distmethod
  | none => DistanceMethod.innerProduct

/-- An index in memory: the graph of the file, and the space it was loaded with. -/
structure LoadedIndex (G : Type) where
  graph : G
  distanceMethod : DistanceMethod
  dim : Nat
  deriving DecidableEq

/-- A backend process, and the files of its database directory. -/
structure Backend (G : Type) where
  dataDir : String
  databasePath : String
  files : String → Option G
  vectorIndexMap : String → Option (LoadedIndex G)

inductive IndexOp (G : Type)
  | build (index : IndexRelation) (graph : G)
  | drop (index : IndexRelation)
  | beginScan (index : IndexRelation)

namespace Backend

variable {G : Type}

/-- A backend that has just started, with the files it finds. -/
def start (dataDir databasePath : String) (files : String → Option G) : Backend G :=
  ⟨dataDir, databasePath, files, fun _ => none⟩

/-- The path that every operation computes. -/
def path (backend : Backend G) (index : IndexRelation) : String :=
  backend.dataDir ++ "/" ++ backend.databasePath ++ "/" ++ index.name

/-- `SaveIndex`, with the graph that the builder made. -/
def hnswBuild (backend : Backend G) (index : IndexRelation) (graph : G) : Backend G :=
  { backend with files := Function.update backend.files (backend.path index) (some graph) }

/-- `insert` into `vector_index_map` and `distanceFunction_map`. -/
def insert (backend : Backend G) (path : String) (loaded : LoadedIndex G) : Backend G :=
  { backend with
    vectorIndexMap := Function.update backend.vectorIndexMap path (some loaded) }

/-- `LoadIndex`; `none` is the exception of a file that cannot be opened. -/
def loadIndex (backend : Backend G) (path : String) (distanceMethod : DistanceMethod)
    (dim : Nat) : Option (Backend G) :=
  match backend.vectorIndexMap path with
  | some _ => some backend
  | none =>
      (backend.files path).map fun graph => backend.insert path ⟨graph, distanceMethod, dim⟩

def hnswBeginScan (backend : Backend G) (index : IndexRelation) : Option (Backend G) :=
  backend.loadIndex (backend.path index) index.distmethod index.dimension

/-- The index that the iterators of a scan search. -/
def searched (backend : Backend G) (index : IndexRelation) : Option (LoadedIndex G) :=
  backend.vectorIndexMap (backend.path index)

/-- Dropping an index touches neither its file nor the map. -/
def step (backend : Backend G) : IndexOp G → Option (Backend G)
  | IndexOp.build index graph => some (backend.hnswBuild index graph)
  | IndexOp.drop _ => some backend
  | IndexOp.beginScan index => backend.hnswBeginScan index

def run : List (IndexOp G) → Backend G → Option (Backend G)
  | [], backend => some backend
  | op :: rest, backend => (backend.step op).bind (run rest)

end Backend

/-! ## What the history says -/

namespace IndexOp

variable {G : Type}

/-- The graph of the latest build of a picked relation, or what was `found` before. -/
def latestBuild (picks : IndexRelation → Bool) (found : Option G) (ops : List (IndexOp G)) :
    Option G :=
  ops.foldl (fun graph op =>
    match op with
    | build index built => if picks index then some built else graph
    | _ => graph) found

/-- The relation that an operation begins to scan, if it has the name. -/
def scans (name : String) : IndexOp G → Option IndexRelation
  | beginScan index => if index.name = name then some index else none
  | _ => none

/-- The first scan of a name: the operations before it, and its relation. -/
def firstScan (name : String) : List (IndexOp G) → Option (List (IndexOp G) × IndexRelation)
  | [] => none
  | op :: rest =>
      match op.scans name with
      | some index => some ([], index)
      | none => (firstScan name rest).map fun first => (op :: first.1, first.2)

theorem firstScan_concat (name : String) (ops : List (IndexOp G)) (op : IndexOp G) :
    firstScan name (ops ++ [op]) =
      (firstScan name ops).or ((op.scans name).map fun index => (ops, index)) := by
  induction ops with
  | nil => cases hscans : op.scans name <;> simp [firstScan, hscans]
  | cons head rest ih =>
      rw [List.cons_append, firstScan, firstScan]
      cases head.scans name with
      | some index => rfl
      | none =>
          simp only [ih]
          cases firstScan name rest <;> cases op.scans name <;> rfl

theorem latestBuild_build (picks : IndexRelation → Bool) (found : Option G)
    (ops : List (IndexOp G)) (index : IndexRelation) (graph : G) :
    latestBuild picks found (ops ++ [build index graph]) =
      if picks index then some graph else latestBuild picks found ops := by
  simp [latestBuild]

theorem latestBuild_other (picks : IndexRelation → Bool) (found : Option G)
    (ops : List (IndexOp G)) {op : IndexOp G} (hop : ∀ index graph, op ≠ build index graph) :
    latestBuild picks found (ops ++ [op]) = latestBuild picks found ops := by
  cases op with
  | build index graph => exact absurd rfl (hop index graph)
  | drop index => simp [latestBuild]
  | beginScan index => simp [latestBuild]

end IndexOp

open IndexOp

namespace Backend

variable {G : Type}

theorem insert_self (backend : Backend G) (path : String) (loaded : LoadedIndex G) :
    (backend.insert path loaded).vectorIndexMap path = some loaded :=
  Function.update_self _ _ _

theorem insert_of_ne (backend : Backend G) {path other : String} (loaded : LoadedIndex G)
    (hne : other ≠ path) :
    (backend.insert path loaded).vectorIndexMap other = backend.vectorIndexMap other :=
  Function.update_of_ne hne _ _

theorem path_eq_iff (backend : Backend G) (index other : IndexRelation) :
    backend.path index = backend.path other ↔ index.name = other.name := by
  unfold path
  exact String.append_right_inj _

/-- The index that the first scan of a name loads. -/
def loadedBy (found : Option G) (name : String) (ops : List (IndexOp G)) :
    Option (LoadedIndex G) :=
  (firstScan name ops).bind fun first =>
    (latestBuild (fun index => index.name = name) found first.1).map fun graph =>
      ⟨graph, first.2.distmethod, first.2.dimension⟩

theorem loadedBy_concat_of_none (found : Option G) {name : String} (ops : List (IndexOp G))
    {op : IndexOp G} (hscans : op.scans name = none) :
    loadedBy found name (ops ++ [op]) = loadedBy found name ops := by
  unfold loadedBy
  rw [firstScan_concat, hscans, Option.map_none, Option.or_none]

/-- The state of a backend, read off its history. -/
structure Reflects (backend : Backend G) (found : String → Option G) (ops : List (IndexOp G)) :
    Prop where
  files : ∀ index, backend.files (backend.path index) =
    latestBuild (fun other => other.name = index.name) (found (backend.path index)) ops
  vectorIndexMap : ∀ index, backend.vectorIndexMap (backend.path index) =
    loadedBy (found (backend.path index)) index.name ops
  loaded : ∀ index, (firstScan index.name ops).isSome →
    (backend.vectorIndexMap (backend.path index)).isSome

theorem start_reflects (dataDir databasePath : String) (found : String → Option G) :
    (start dataDir databasePath found).Reflects found [] :=
  ⟨fun _ => rfl, fun _ => rfl, fun _ hfirst => by cases hfirst⟩

/-- An operation that scans nothing changes at most the files. -/
theorem Reflects.of_files {backend : Backend G} {found files : String → Option G}
    {ops : List (IndexOp G)} {op : IndexOp G} (hreflects : backend.Reflects found ops)
    (hscans : ∀ name, op.scans name = none)
    (hfiles : ∀ index, files (backend.path index) =
      latestBuild (fun other => other.name = index.name) (found (backend.path index))
        (ops ++ [op])) :
    ({ backend with files := files } : Backend G).Reflects found (ops ++ [op]) := by
  refine ⟨hfiles, ?_, ?_⟩
  · intro index
    rw [loadedBy_concat_of_none _ _ (hscans index.name)]
    exact hreflects.vectorIndexMap index
  · intro index hfirst
    rw [firstScan_concat, hscans, Option.map_none, Option.or_none] at hfirst
    exact hreflects.loaded index hfirst

theorem Reflects.files_beginScan {backend : Backend G} {found : String → Option G}
    {ops : List (IndexOp G)} (hreflects : backend.Reflects found ops)
    (scanned index : IndexRelation) :
    backend.files (backend.path index) =
      latestBuild (fun other => other.name = index.name) (found (backend.path index))
        (ops ++ [IndexOp.beginScan scanned]) := by
  rw [latestBuild_other _ _ _ (by simp)]
  exact hreflects.files index

theorem scans_beginScan_of_ne {index scanned : IndexRelation} (hname : index.name ≠ scanned.name) :
    (IndexOp.beginScan scanned : IndexOp G).scans index.name = none :=
  if_neg (Ne.symm hname)

/-- A scan that finds its name in the map leaves it alone: an earlier scan was the first. -/
theorem Reflects.beginScan_found {backend : Backend G} {found : String → Option G}
    {ops : List (IndexOp G)} {scanned : IndexRelation} (hreflects : backend.Reflects found ops)
    {loaded : LoadedIndex G} (hmap : backend.vectorIndexMap (backend.path scanned) = some loaded) :
    backend.Reflects found (ops ++ [IndexOp.beginScan scanned]) := by
  have hfirst : ∀ index : IndexRelation,
      firstScan index.name (ops ++ [IndexOp.beginScan scanned]) = firstScan index.name ops := by
    intro index
    rw [firstScan_concat]
    by_cases hname : index.name = scanned.name
    · have hloaded := hreflects.vectorIndexMap scanned
      rw [hmap, loadedBy] at hloaded
      obtain ⟨first, hfirst, -⟩ := Option.bind_eq_some_iff.mp hloaded.symm
      rw [hname, hfirst, Option.some_or]
    · rw [scans_beginScan_of_ne hname, Option.map_none, Option.or_none]
  refine ⟨hreflects.files_beginScan scanned, ?_, ?_⟩
  · intro index
    rw [loadedBy, hfirst]
    exact hreflects.vectorIndexMap index
  · intro index hsome
    rw [hfirst] at hsome
    exact hreflects.loaded index hsome

/-- A scan that does not is the first of its name, and loads the file of that moment. -/
theorem Reflects.loadedBy_first {backend : Backend G} {found : String → Option G}
    {ops : List (IndexOp G)} {scanned : IndexRelation} (hreflects : backend.Reflects found ops)
    (hmap : backend.vectorIndexMap (backend.path scanned) = none) {graph : G}
    (hgraph : backend.files (backend.path scanned) = some graph) :
    loadedBy (found (backend.path scanned)) scanned.name (ops ++ [IndexOp.beginScan scanned]) =
      some ⟨graph, scanned.distmethod, scanned.dimension⟩ := by
  have hnone : firstScan scanned.name ops = none := by
    rw [← Option.not_isSome_iff_eq_none]
    intro hsome
    have hloaded := hreflects.loaded scanned hsome
    rw [hmap] at hloaded
    cases hloaded
  have hself : (IndexOp.beginScan scanned : IndexOp G).scans scanned.name = some scanned :=
    if_pos rfl
  rw [loadedBy, firstScan_concat, hnone, hself, Option.map_some, Option.none_or,
    Option.bind_some, ← hreflects.files, hgraph, Option.map_some]

theorem Reflects.beginScan_loads {backend : Backend G} {found : String → Option G}
    {ops : List (IndexOp G)} {scanned : IndexRelation} (hreflects : backend.Reflects found ops)
    (hmap : backend.vectorIndexMap (backend.path scanned) = none) {graph : G}
    (hgraph : backend.files (backend.path scanned) = some graph) :
    (backend.insert (backend.path scanned)
      ⟨graph, scanned.distmethod, scanned.dimension⟩).Reflects found
        (ops ++ [IndexOp.beginScan scanned]) := by
  refine ⟨hreflects.files_beginScan scanned, ?_, ?_⟩
  · intro index
    change (backend.insert _ _).vectorIndexMap (backend.path index) =
      loadedBy (found (backend.path index)) _ _
    by_cases hname : index.name = scanned.name
    · have hpath := (backend.path_eq_iff index scanned).mpr hname
      rw [hpath, hname, hreflects.loadedBy_first hmap hgraph, insert_self]
    · have hpath := mt (backend.path_eq_iff index scanned).mp hname
      rw [insert_of_ne _ _ hpath, loadedBy_concat_of_none _ _ (scans_beginScan_of_ne hname)]
      exact hreflects.vectorIndexMap index
  · intro index hsome
    change ((backend.insert _ _).vectorIndexMap (backend.path index)).isSome
    by_cases hname : index.name = scanned.name
    · rw [(backend.path_eq_iff index scanned).mpr hname, insert_self]
      rfl
    · rw [insert_of_ne _ _ (mt (backend.path_eq_iff index scanned).mp hname)]
      rw [firstScan_concat, scans_beginScan_of_ne hname, Option.map_none, Option.or_none] at hsome
      exact hreflects.loaded index hsome

theorem Reflects.beginScan {backend after : Backend G} {found : String → Option G}
    {ops : List (IndexOp G)} {scanned : IndexRelation} (hreflects : backend.Reflects found ops)
    (hscan : backend.hnswBeginScan scanned = some after) :
    after.Reflects found (ops ++ [IndexOp.beginScan scanned]) ∧
      ∀ index, after.path index = backend.path index := by
  unfold hnswBeginScan loadIndex at hscan
  cases hmap : backend.vectorIndexMap (backend.path scanned) with
  | some loaded =>
      rw [hmap] at hscan
      obtain rfl := Option.some.inj hscan
      exact ⟨hreflects.beginScan_found hmap, fun _ => rfl⟩
  | none =>
      rw [hmap] at hscan
      obtain ⟨graph, hgraph, rfl⟩ := Option.map_eq_some_iff.mp hscan
      exact ⟨hreflects.beginScan_loads hmap hgraph, fun _ => rfl⟩

theorem Reflects.step {backend after : Backend G} {found : String → Option G}
    {ops : List (IndexOp G)} {op : IndexOp G} (hreflects : backend.Reflects found ops)
    (hstep : backend.step op = some after) :
    after.Reflects found (ops ++ [op]) ∧ ∀ index, after.path index = backend.path index := by
  cases op with
  | build built graph =>
      obtain rfl := Option.some.inj hstep
      refine ⟨hreflects.of_files (fun _ => rfl) ?_, fun _ => rfl⟩
      intro index
      rw [latestBuild_build]
      by_cases hname : index.name = built.name
      · rw [(backend.path_eq_iff index built).mpr hname, Function.update_self,
          if_pos (decide_eq_true hname.symm)]
      · rw [Function.update_of_ne (mt (backend.path_eq_iff index built).mp hname),
          hreflects.files, if_neg (by simpa using Ne.symm hname)]
  | drop dropped =>
      obtain rfl := Option.some.inj hstep
      refine ⟨hreflects.of_files (fun _ => rfl) ?_, fun _ => rfl⟩
      intro index
      rw [latestBuild_other _ _ _ (by simp)]
      exact hreflects.files index
  | beginScan scanned => exact hreflects.beginScan hstep

theorem Reflects.run {found : String → Option G} (ops : List (IndexOp G))
    {backend after : Backend G} {past : List (IndexOp G)} (hreflects : backend.Reflects found past)
    (hrun : Backend.run ops backend = some after) :
    after.Reflects found (past ++ ops) ∧ ∀ index, after.path index = backend.path index := by
  induction ops generalizing backend past with
  | nil =>
      obtain rfl := Option.some.inj hrun
      exact ⟨by simpa using hreflects, fun _ => rfl⟩
  | cons op rest ih =>
      obtain ⟨middle, hstep, hrest⟩ := Option.bind_eq_some_iff.mp hrun
      obtain ⟨hmiddle, hpath⟩ := hreflects.step hstep
      obtain ⟨hafter, hpath'⟩ := ih hmiddle hrest
      exact ⟨by simpa using hafter, fun index => (hpath' index).trans (hpath index)⟩

/-- A build of the relation is a build under its name. -/
theorem latestBuild_isSome {index : IndexRelation} {found found' : Option G}
    {ops : List (IndexOp G)}
    (hbuilt : (latestBuild (fun other => other = index) found ops).isSome)
    (hfound : found.isSome → found'.isSome) :
    (latestBuild (fun other => other.name = index.name) found' ops).isSome := by
  induction ops generalizing found found' with
  | nil => exact hfound hbuilt
  | cons op rest ih =>
      cases op with
      | build built graph =>
          refine ih hbuilt ?_
          by_cases hsame : built = index
          · simp [hsame]
          · simp only [hsame, decide_false, Bool.false_eq_true, if_false]
            intro hsome
            split
            · rfl
            · exact hfound hsome
      | drop dropped => exact ih hbuilt hfound
      | beginScan scanned => exact ih hbuilt hfound

end Backend

/-- A scan of a relation that was built searches the graph of its latest build, with its
options, exactly when the first scan of its name found that graph in the file and was of
a relation with the same options. -/
theorem scan_sees_latest_build_iff {G : Type} (dataDir databasePath : String)
    (found : String → Option G) (ops : List (IndexOp G)) (backend : Backend G)
    (hrun : Backend.run ops (Backend.start dataDir databasePath found) = some backend)
    (index : IndexRelation) (graph : G)
    (hbuilt : latestBuild (fun other => other = index) none ops = some graph) :
    (∃ after, backend.hnswBeginScan index = some after ∧
      after.searched index = some ⟨graph, index.distmethod, index.dimension⟩) ↔
    ∃ before first, firstScan index.name (ops ++ [IndexOp.beginScan index]) =
        some (before, first) ∧
      latestBuild (fun other => other.name = index.name)
        (found ((Backend.start dataDir databasePath found).path index)) before = some graph ∧
      first.distmethod = index.distmethod ∧ first.dimension = index.dimension := by
  obtain ⟨hreflects, hpath⟩ :=
    (Backend.start_reflects dataDir databasePath found).run ops hrun
  rw [List.nil_append] at hreflects
  have hsome : (backend.hnswBeginScan index).isSome := by
    unfold Backend.hnswBeginScan Backend.loadIndex
    cases backend.vectorIndexMap (backend.path index) with
    | some loaded => rfl
    | none =>
        simp only [Option.isSome_map, hreflects.files]
        exact Backend.latestBuild_isSome (by rw [hbuilt]; rfl) (by simp)
  obtain ⟨after, hafter⟩ := Option.isSome_iff_exists.mp hsome
  obtain ⟨hscanned, hpath'⟩ := hreflects.beginScan hafter
  have hsearched : after.searched index = Backend.loadedBy
      (found ((Backend.start dataDir databasePath found).path index)) index.name
        (ops ++ [IndexOp.beginScan index]) := by
    rw [Backend.searched, hscanned.vectorIndexMap, hpath', hpath]
  simp only [hafter, Option.some.injEq, exists_eq_left', hsearched, Backend.loadedBy,
    Option.bind_eq_some_iff, Option.map_eq_some_iff, LoadedIndex.mk.injEq, Prod.exists]
  constructor
  · rintro ⟨before, first, hfirst, _, hgraph, rfl, hmethod, hdim⟩
    exact ⟨before, first, hfirst, hgraph, hmethod, hdim⟩
  · rintro ⟨before, first, hfirst, hgraph, hmethod, hdim⟩
    exact ⟨before, first, hfirst, graph, hgraph, rfl, hmethod, hdim⟩

/-- A rebuild before the first scan is found, also if an index of the same name was built in
between. A rebuild after it is not. -/
theorem scan_sees_early_rebuild :
    let index : IndexRelation := ⟨16384, "items_hnsw", some ⟨96, DistanceMethod.l2⟩⟩
    let other : IndexRelation := ⟨16390, "items_hnsw", none⟩
    let start : Backend Nat := Backend.start "data" "base/5" fun _ => none
    (∃ backend after,
      Backend.run [IndexOp.build index 1, IndexOp.build other 3, IndexOp.build index 2] start =
        some backend ∧
      backend.hnswBeginScan index = some after ∧
      after.searched index = some ⟨2, DistanceMethod.l2, 96⟩) ∧
    ∃ backend,
      Backend.run [IndexOp.build index 1, IndexOp.beginScan index, IndexOp.build index 2] start =
        some backend ∧
      ¬ ∃ after, backend.hnswBeginScan index = some after ∧
        after.searched index = some ⟨2, DistanceMethod.l2, 96⟩ := by
  intro index other start
  have hseen := scan_sees_latest_build_iff "data" "base/5" (fun _ => (none : Option Nat))
  refine ⟨?_, _, rfl, ?_⟩
  · obtain ⟨after, hafter, hsearched⟩ :=
      (hseen [IndexOp.build index 1, IndexOp.build other 3, IndexOp.build index 2] _ rfl index 2
        rfl).mpr ⟨_, index, rfl, rfl, rfl, rfl⟩
    exact ⟨_, after, rfl, hafter, hsearched⟩
  · intro hsees
    obtain ⟨before, first, hfirst, hgraph, -⟩ :=
      (hseen [IndexOp.build index 1, IndexOp.beginScan index, IndexOp.build index 2] _ rfl index 2
        rfl).mp hsees
    obtain ⟨rfl, rfl⟩ := Prod.mk.inj (Option.some.inj hfirst)
    exact absurd (Option.some.inj hgraph) (by decide)

/-- After a rebuild the old graph is searched, and of two indexes of one name the second is
searched with the graph and the options of the first. -/
theorem scan_sees_stale_build :
    let index : IndexRelation := ⟨16384, "items_hnsw", some ⟨96, DistanceMethod.l2⟩⟩
    let other : IndexRelation := ⟨16390, "items_hnsw", none⟩
    let start : Backend Nat := Backend.start "data" "base/5" fun _ => none
    (∃ backend after,
      Backend.run [IndexOp.build index 1, IndexOp.beginScan index, IndexOp.build index 2] start =
        some backend ∧
      backend.hnswBeginScan index = some after ∧
      after.searched index = some ⟨1, DistanceMethod.l2, 96⟩) ∧
    ∃ backend after,
      Backend.run [IndexOp.build index 1, IndexOp.beginScan index, IndexOp.build other 3] start =
        some backend ∧
      backend.hnswBeginScan other = some after ∧
      after.searched other = some ⟨1, DistanceMethod.l2, 96⟩ :=
  ⟨⟨_, _, rfl, rfl, rfl⟩, ⟨_, _, rfl, rfl, rfl⟩⟩

end VBase.AccessMethod
