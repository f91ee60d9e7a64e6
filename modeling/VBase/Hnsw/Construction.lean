import VBase.Hnsw.Knn
import VBase.Hnsw.LinkList
import VBase.Hnsw.NeighborSelection

/-! # Building the graph

`addPoint` places a new element on a random number of levels and links it to the
candidates that a search of each level finds, or replaces the data of an element and
mends the links around it. An exception leaves the index as it is at that moment, so
the functions here are commands that keep their state when they throw. One thread
builds the index, and its locks are left out.
-/

namespace VBase.Hnsw

open PriorityQueue

/-- How a call ends that does not return. `undefined` stands for undefined behaviour, such as
`back()` of an empty vector. -/
inductive BuildError where
  | runtimeError (what : String)
  | undefined
deriving DecidableEq, Repr

/-! ## The state -/

/-- A number of elements whose ids are all an `int`, as searches read them into one. -/
structure Capacity where
  count : Nat
  count_lt : count < 2 ^ 31

/-- The members of `HierarchicalNSW` that construction uses. Lists are found by id and level;
data is counted in components. `none` is the -1 of an empty index. -/
structure Graph (D : Type) where
  dataSize : Nat
  fstdistfunc : List D → List D → D
  M : Nat
  maxM : Nat
  maxM0 : Nat
  efConstruction : Nat
  maxElements : Nat
  maxElements_lt : maxElements < 2 ^ 31
  curElementCount : Nat
  numDeleted : UInt64
  maxlevel : Int
  enterpointNode : Option Nat
  elementLevels : Nat → Nat
  getLinklistAtLevel : Nat → Nat → LinkList
  getDataByInternalId : Nat → List D
  getExternalLabel : Nat → UInt64
  labelLookup : UInt64 → Option Nat
  visitedListPool : VisitedListPool

/-- What `malloc` returns, before anything is written there. -/
structure Memory (D : Type) where
  lists : Nat → Nat → LinkList
  data : Nat → List D
  labels : Nat → UInt64
  marks : Nat → Nat → UInt16

/-- What the environment decides in a call of `addPoint`: the level that `getRandomLevel` draws,
which neighbours on a layer the draws of `updatePoint` skip, and how a hash set is traversed. -/
structure Draws where
  randomLevel : Nat
  skips : Nat → Nat → Bool
  traverse : List Nat → List Nat
  traverse_perm : ∀ ids, (traverse ids).Perm ids

variable {Q : {T K : Type} → [LinearOrder K] → (T → K) → Type} [PriorityQueue Q]
variable {D : Type}

namespace Graph

/-- The constructor. -/
def new (dataSize : Nat) (fstdistfunc : List D → List D → D) (maxElements : Capacity)
    (M efConstruction : Nat) (memory : Memory D) : Graph D where
  dataSize := dataSize
  fstdistfunc := fstdistfunc
  M := M
  maxM := M
  maxM0 := M * 2
  efConstruction := max efConstruction M
  maxElements := maxElements.count
  maxElements_lt := maxElements.count_lt
  curElementCount := 0
  numDeleted := 0
  maxlevel := -1
  enterpointNode := none
  elementLevels := fun _ => 0
  getLinklistAtLevel := memory.lists
  getDataByInternalId := memory.data
  getExternalLabel := memory.labels
  labelLookup := fun _ => none
  visitedListPool := VisitedListPool.new memory.marks

variable (graph : Graph D)

/-- The links of an element on a level. -/
def links (id level : Nat) : List Nat := (graph.getLinklistAtLevel id level).links

def isMarkedDeleted (id : Nat) : Bool := (graph.getLinklistAtLevel id 0).isMarked

/-- The distance of an element to a query. -/
def dist (query : List D) (id : Nat) : D := graph.fstdistfunc query (graph.getDataByInternalId id)

/-- The distance of two elements. -/
def between (first second : Nat) : D :=
  graph.fstdistfunc (graph.getDataByInternalId first) (graph.getDataByInternalId second)

/-- The room in the link lists of a level. -/
def Mcurmax (level : Nat) : Nat := if level = 0 then graph.maxM0 else graph.maxM

def setLinklist (id level : Nat) (list : LinkList) : Graph D :=
  { graph with getLinklistAtLevel := fun other layer =>
      if other = id ∧ layer = level then list else graph.getLinklistAtLevel other layer }

/-- `memcpy` of `data_size_` to the place of an element. -/
def setData (id : Nat) (dataPoint : List D) : Graph D :=
  { graph with getDataByInternalId :=
      Function.update graph.getDataByInternalId id (dataPoint.take graph.dataSize) }

/-- The memory of a new element: its lists are blank on every level it has. -/
def place (label : UInt64) (dataPoint : List D) (curlevel : Nat) : Graph D :=
  let curC := graph.curElementCount
  { graph with
    curElementCount := graph.curElementCount + 1
    labelLookup := Function.update graph.labelLookup label (some curC)
    elementLevels := Function.update graph.elementLevels curC curlevel
    getLinklistAtLevel := fun id level =>
      if id = curC ∧ level ≤ curlevel then LinkList.blank else graph.getLinklistAtLevel id level
    getExternalLabel := Function.update graph.getExternalLabel curC label
    getDataByInternalId := Function.update graph.getDataByInternalId curC
      (dataPoint.take graph.dataSize) }

/-- The sets that `updatePoint` gathers around an element, without duplicates. -/
structure Around where
  sCand : List Nat
  sNeigh : List Nat

/-- One turn of the loop over the links of the element. -/
def gatherHop (draws : Draws) (layer : Nat) (around : Around)
    (hop : Nat × Nat) : Around :=
  let sCand := around.sCand.insert hop.1
  if draws.skips layer hop.2 then { around with sCand := sCand }
  else
    { sCand := (graph.links hop.1 layer).foldl (fun sCand elTwoHop => sCand.insert elTwoHop) sCand
      sNeigh := around.sNeigh.insert hop.1 }

def gather (draws : Draws) (internalId layer : Nat) : Around :=
  (graph.links internalId layer).zipIdx.foldl (graph.gatherHop draws layer) ⟨[internalId], []⟩

/-! ## Searching a level -/

variable [LinearOrder D]

/-- The pair that a search keeps of an element. -/
def neighbor (query : List D) (id : Nat) : D × Nat := (graph.dist query id, id)

/-- The pair that a search queues for an element. -/
def candidate (query : List D) (id : Nat) : (WithTop D)ᵒᵈ × Nat :=
  (OrderDual.toDual ↑(graph.dist query id), id)

/-- The state before the loop of `searchBaseLayer`. -/
def searchStart (query : List D) (vl : VisitedList) (entry : Nat) : KnnSearch Q D :=
  if graph.isMarkedDeleted entry then
    { vl := vl.mark entry
      topCandidates := PriorityQueue.empty
      candidateSet := push PriorityQueue.empty (OrderDual.toDual ⊤, entry)
      lowerBound := ⊤ }
  else
    { vl := vl.mark entry
      topCandidates := push PriorityQueue.empty (graph.neighbor query entry)
      candidateSet := push PriorityQueue.empty (graph.candidate query entry)
      lowerBound := ↑(graph.dist query entry) }

/-- `top_candidates` with one more element, unless it is deleted, and at most
`ef_construction_` in all. -/
def offer (query : List D) (topCandidates : Q (Prod.fst : D × Nat → D)) (id : Nat) :
    Q (Prod.fst : D × Nat → D) :=
  let offered :=
    if graph.isMarkedDeleted id then topCandidates
    else push topCandidates (graph.neighbor query id)
  if graph.efConstruction < size offered then pop offered else offered

/-- One turn of the loop over the links of the current node. -/
def searchVisit (query : List D) (search : KnnSearch Q D) (id : Nat) : KnnSearch Q D :=
  if search.vl.Visited id then search
  else if size search.topCandidates < graph.efConstruction ∨
      ↑(graph.dist query id) < search.lowerBound then
    let topCandidates := graph.offer query search.topCandidates id
    { vl := search.vl.mark id
      topCandidates := topCandidates
      candidateSet := push search.candidateSet (graph.candidate query id)
      lowerBound := ((top topCandidates).map fun farthest => ↑farthest.1).getD search.lowerBound }
  else { search with vl := search.vl.mark id }

/-- One turn of the loop of `searchBaseLayer`. -/
def searchStep (query : List D) (layer : Nat) (search : KnnSearch Q D) : Option (KnnSearch Q D) :=
  match top search.candidateSet with
  | none => none
  | some current =>
      if search.lowerBound < OrderDual.ofDual current.1 ∧
          size search.topCandidates = graph.efConstruction then none
      else some ((graph.links current.2 layer).foldl (graph.searchVisit query)
        { search with candidateSet := pop search.candidateSet })

/-- Unmarked and queued elements, of which every turn uses one up. -/
def searchPending (search : KnnSearch Q D) : Nat :=
  ((Finset.range graph.curElementCount).filter (fun id => ¬ search.vl.Visited id)).card +
    size search.candidateSet

def searchBaseLayer (entry : Nat) (query : List D) (layer : Nat) :
    Q (Prod.fst : D × Nat → D) × VisitedListPool :=
  let (address, lists) := graph.visitedListPool.getFreeVisitedList
  let final := Loop.run graph.searchPending (graph.searchStep query layer)
    (graph.searchStart query (lists.memory address) entry)
  (final.topCandidates, (lists.store address final.vl).releaseVisitedList address)

/-! ## Walking down the levels -/

/-- One turn of the loop over a link list; the flag is `changed`. Only `addPoint` makes the check
of the id. -/
def visitLink (query : List D) (checked : Bool) (walk : HierarchicalNSW.Walk D × Bool)
    (cand : Nat) : Except BuildError (HierarchicalNSW.Walk D × Bool) :=
  if checked ∧ graph.maxElements < cand then Except.error (.runtimeError "cand error")
  else if graph.dist query cand < walk.1.curdist then
    Except.ok (⟨graph.dist query cand, cand⟩, true)
  else Except.ok walk

/-- One turn of `while (changed)`, which ends at an exception. -/
def descendStep (query : List D) (checked : Bool) (level : Nat) :
    Except BuildError (HierarchicalNSW.Walk D) → Option (Except BuildError (HierarchicalNSW.Walk D))
  | Except.error _ => none
  | Except.ok walk =>
      match (graph.links walk.currObj level).foldlM (graph.visitLink query checked)
          (walk, false) with
      | Except.error failure => some (Except.error failure)
      | Except.ok (moved, changed) => if changed then some (Except.ok moved) else none

/-- How many elements are closer than the walk, and one for the turn that ends it. -/
def closerCount (query : List D) : Except BuildError (HierarchicalNSW.Walk D) → Nat
  | Except.error _ => 0
  | Except.ok walk => ((Finset.range graph.curElementCount).filter
      (fun id => graph.dist query id < walk.curdist)).card + 1

/-- The `while (changed)` loop of one level. -/
def descendLevel (query : List D) (checked : Bool) (walk : HierarchicalNSW.Walk D) (level : Nat) :
    Except BuildError (HierarchicalNSW.Walk D) :=
  Loop.run (graph.closerCount query) (graph.descendStep query checked level) (Except.ok walk)

/-- The levels from `upper` down to the one above `lower`. -/
def levelsAbove (lower upper : Nat) : List Nat := (List.range' (lower + 1) (upper - lower)).reverse

/-- The walk from the entry point to the closest element it meets above a level. -/
def descendTo (query : List D) (checked : Bool) (entry lower upper : Nat) :
    Except BuildError Nat := do
  let walk ← (levelsAbove lower upper).foldlM (graph.descendLevel query checked)
    ⟨graph.dist query entry, entry⟩
  return walk.currObj

end Graph

/-- A command on the graph. -/
abbrev Construction (D : Type) : Type → Type := EStateM BuildError (Graph D)

/-- A computation without effect, as a command. -/
def Construction.lift {V : Type} (result : Except BuildError V) : Construction D V :=
  match result with
  | Except.error failure => throw failure
  | Except.ok value => pure value

namespace Graph

/-! ## Operations on marks and capacity -/

def markDeletedInternal (internalId : Nat) : Construction D Unit := do
  let graph ← get
  if graph.isMarkedDeleted internalId then
    throw (.runtimeError "The requested to delete element is already deleted")
  set { graph.setLinklist internalId 0 (graph.getLinklistAtLevel internalId 0).mark with
    numDeleted := graph.numDeleted + 1 }

def unmarkDeletedInternal (internalId : Nat) : Construction D Unit := do
  let graph ← get
  if !graph.isMarkedDeleted internalId then
    throw (.runtimeError "The requested to undelete element is not deleted")
  set { graph.setLinklist internalId 0 (graph.getLinklistAtLevel internalId 0).unmark with
    numDeleted := graph.numDeleted - 1 }

def markDelete (label : UInt64) : Construction D Unit := do
  match (← get).labelLookup label with
  | none => throw (.runtimeError "Label not found")
  | some internalId => markDeletedInternal internalId

def unmarkDelete (label : UInt64) : Construction D Unit := do
  match (← get).labelLookup label with
  | none => throw (.runtimeError "Label not found")
  | some internalId => unmarkDeletedInternal internalId

/-- The lists are moved to larger memory, whose marks are not set. -/
def resizeIndex (newMaxElements : Capacity) (marks : Nat → Nat → UInt16) :
    Construction D Unit := do
  let graph ← get
  if newMaxElements.count < graph.curElementCount then
    throw (.runtimeError
      "Cannot resize, max element is less than the current number of elements")
  set { graph with
    maxElements := newMaxElements.count
    maxElements_lt := newMaxElements.count_lt
    visitedListPool := VisitedListPool.new marks }

def getDataByLabel (label : UInt64) : Construction D (List D) := do
  let graph ← get
  match graph.labelLookup label with
  | none => throw (.runtimeError "Label not found")
  | some internalId =>
      if graph.isMarkedDeleted internalId then throw (.runtimeError "Label not found")
      return (graph.getDataByInternalId internalId).take graph.dataSize

/-! ## Linking an element -/

/-- One turn of the first loop of `mutuallyConnectNewElement`, for a neighbour and its slot. -/
def storeLink (curC level : Nat) (isUpdate : Bool) (link : Nat × Nat) : Construction D Unit := do
  let graph ← get
  let llCur := graph.getLinklistAtLevel curC level
  if llCur.slots link.2 ≠ 0 ∧ !isUpdate then
    throw (.runtimeError "Possible memory corruption")
  if graph.elementLevels link.1 < level then
    throw (.runtimeError "Trying to make a link on a non-existent level")
  set (graph.setLinklist curC level (llCur.store link.2 link.1))

/-- The element's own links. -/
def linkSelected (curC level : Nat) (isUpdate : Bool) (selectedNeighbors : List Nat) :
    Construction D Unit := do
  let graph ← get
  let llCur := graph.getLinklistAtLevel curC level
  if llCur.header ≠ 0 ∧ !isUpdate then
    throw (.runtimeError "The newly inserted element should have blank link list")
  set (graph.setLinklist curC level
    (llCur.setListCount (UInt16.ofNat selectedNeighbors.length)))
  selectedNeighbors.zipIdx.forM (storeLink curC level isUpdate)

variable [LinearOrder D]

variable (Q) in
/-- The links of a full neighbour, chosen from those it has and the new one. -/
def reselect (graph : Graph D) (curC level neighbor : Nat) : List Nat :=
  let candidates : Q (Prod.fst : D × Nat → D) := pushAll PriorityQueue.empty
    ((graph.between curC neighbor, curC) ::
      (graph.links neighbor level).map fun link => (graph.between link neighbor, link))
  selectedIds graph.between candidates (graph.Mcurmax level)

variable (Q) in
/-- One turn of the second loop, for the link back from a neighbour. -/
def linkBack (curC level : Nat) (isUpdate : Bool) (neighbor : Nat) : Construction D Unit := do
  let graph ← get
  let llOther := graph.getLinklistAtLevel neighbor level
  let szLinkListOther := llOther.getListCount.toNat
  if graph.Mcurmax level < szLinkListOther then
    throw (.runtimeError "Bad value of sz_link_list_other")
  if neighbor = curC then
    throw (.runtimeError "Trying to connect an element to itself")
  if graph.elementLevels neighbor < level then
    throw (.runtimeError "Trying to make a link on a non-existent level")
  if isUpdate ∧ curC ∈ llOther.links then
    return
  if szLinkListOther < graph.Mcurmax level then
    set (graph.setLinklist neighbor level ((llOther.store szLinkListOther curC).setListCount
      (UInt16.ofNat (szLinkListOther + 1))))
  else
    set (graph.setLinklist neighbor level (llOther.write (graph.reselect Q curC level neighbor)))

/-- Returns the closest of the selected neighbours, which is the last one popped. -/
def mutuallyConnectNewElement (curC : Nat) (topCandidates : Q (Prod.fst : D × Nat → D))
    (level : Nat) (isUpdate : Bool) : Construction D Nat := do
  let graph ← get
  if graph.M < size (getNeighborsByHeuristic2 graph.between topCandidates graph.M) then
    throw (.runtimeError
      "Should be not be more than M_ candidates returned by the heuristic")
  let selectedNeighbors := selectedIds graph.between topCandidates graph.M
  match selectedNeighbors.getLast? with
  | none => throw .undefined
  | some nextClosestEntryPoint =>
      linkSelected curC level isUpdate selectedNeighbors
      selectedNeighbors.forM (linkBack Q curC level isUpdate)
      return nextClosestEntryPoint

/-- A search of a level, with the visited list that it takes and gives back. -/
def searchCommand (entry : Nat) (query : List D) (layer : Nat) :
    Construction D (Q (Prod.fst : D × Nat → D)) := do
  let graph ← get
  let (topCandidates, lists) := graph.searchBaseLayer entry query layer
  set { graph with visitedListPool := lists }
  return topCandidates

/-- A deleted entry point is a candidate all the same. -/
def addEntry (graph : Graph D) (query : List D) (entry : Nat)
    (topCandidates : Q (Prod.fst : D × Nat → D)) : Q (Prod.fst : D × Nat → D) :=
  if graph.isMarkedDeleted entry then
    let added := push topCandidates (graph.neighbor query entry)
    if graph.efConstruction < size added then pop added else added
  else topCandidates

/-! ## A new element -/

variable (Q) in
/-- One turn of the loop over the levels of a new element. -/
def connectAt (dataPoint : List D) (curC enterpointCopy : Nat) (maxlevelcopy : Int)
    (currObj level : Nat) : Construction D Nat := do
  if maxlevelcopy < level then
    throw (.runtimeError "Level error")
  let topCandidates : Q _ ← searchCommand currObj dataPoint level
  let graph ← get
  mutuallyConnectNewElement curC (graph.addEntry dataPoint enterpointCopy topCandidates) level false

variable (Q) in
/-- The part of `addPoint` that links a placed element. -/
def connect (dataPoint : List D) (curC curlevel enterpointCopy : Nat) (maxlevelcopy : Int) :
    Construction D Unit := do
  let graph ← get
  let currObj ←
    if (curlevel : Int) < maxlevelcopy then
      Construction.lift
        (graph.descendTo dataPoint true enterpointCopy curlevel maxlevelcopy.toNat)
    else pure enterpointCopy
  let _ ← (List.range (min (curlevel : Int) maxlevelcopy + 1).toNat).reverse.foldlM
    (connectAt Q dataPoint curC enterpointCopy maxlevelcopy) currObj

variable (Q) in
/-- `addPoint` for a label that is not there yet. -/
def insertPoint (draws : Draws) (dataPoint : List D) (label : UInt64) (level : Int) :
    Construction D Nat := do
  let graph ← get
  if graph.maxElements ≤ graph.curElementCount then
    throw (.runtimeError "The number of elements exceeds the specified limit")
  let curC := graph.curElementCount
  let curlevel := if 0 < level then level.toNat else draws.randomLevel
  set (graph.place label dataPoint curlevel)
  match graph.enterpointNode with
  | some enterpointCopy =>
      connect Q dataPoint curC curlevel enterpointCopy graph.maxlevel
  | none => modify ({ · with enterpointNode := some 0, maxlevel := curlevel })
  if graph.maxlevel < curlevel then
    modify ({ · with enterpointNode := some curC, maxlevel := curlevel })
  return curC

/-! ## New data for an element -/

/-- The closest of `sCand` to a neighbour, as many as may be kept. -/
def closestAround (graph : Graph D) (draws : Draws) (sCand : List Nat) (neigh : Nat) :
    Q (Prod.fst : D × Nat → D) :=
  let others := if neigh ∈ sCand then sCand.length - 1 else sCand.length
  let elementsToKeep := min graph.efConstruction others
  (draws.traverse sCand).foldl (fun candidates cand =>
    if cand = neigh then candidates
    else if accepts elementsToKeep candidates (graph.between neigh cand, cand) then
      pushBounded elementsToKeep candidates (graph.between neigh cand, cand)
    else candidates) PriorityQueue.empty

variable (Q) in
/-- New links for a neighbour of the element. -/
def relink (draws : Draws) (layer : Nat) (sCand : List Nat) (neigh : Nat) :
    Construction D Unit := do
  let graph ← get
  let candidates : Q (Prod.fst : D × Nat → D) := graph.closestAround draws sCand neigh
  let ids := selectedIds graph.between candidates (graph.Mcurmax layer)
  set (graph.setLinklist neigh layer ((graph.getLinklistAtLevel neigh layer).write ids))

variable (Q) in
/-- One turn of the loop of `updatePoint` over the layers of the element. -/
def relinkLayer (draws : Draws) (internalId layer : Nat) : Construction D Unit := do
  let graph ← get
  if graph.links internalId layer = [] then
    return
  let around := graph.gather draws internalId layer
  (draws.traverse around.sNeigh).forM (relink Q draws layer around.sCand)

variable (Q) in
/-- One turn of the second loop of `repairConnectionsForUpdate`. -/
def repairAt (dataPoint : List D) (entryPointInternalId dataPointInternalId : Nat)
    (currObj level : Nat) : Construction D Nat := do
  let topCandidates : Q (Prod.fst : D × Nat → D) ← searchCommand currObj dataPoint level
  let filteredTopCandidates : Q (Prod.fst : D × Nat → D) := pushAll PriorityQueue.empty
    ((drain topCandidates).filter fun found => found.2 ≠ dataPointInternalId)
  if 0 < size filteredTopCandidates then
    let graph ← get
    mutuallyConnectNewElement dataPointInternalId
      (graph.addEntry dataPoint entryPointInternalId filteredTopCandidates) level true
  else return currObj

variable (Q) in
def repairConnectionsForUpdate (dataPoint : List D) (entryPointInternalId : Nat)
    (dataPointInternalId dataPointLevel : Nat) (maxLevel : Int) : Construction D Unit := do
  let graph ← get
  let currObj ←
    if (dataPointLevel : Int) < maxLevel then
      Construction.lift
        (graph.descendTo dataPoint false entryPointInternalId dataPointLevel maxLevel.toNat)
    else pure entryPointInternalId
  if maxLevel < dataPointLevel then
    throw (.runtimeError "Level of item to be updated cannot be bigger than max level")
  let _ ← (List.range (dataPointLevel + 1)).reverse.foldlM
    (repairAt Q dataPoint entryPointInternalId dataPointInternalId) currObj

variable (Q) in
/-- An entry point of -1 would be read as the id of an element. -/
def updatePoint (draws : Draws) (dataPoint : List D) (internalId : Nat) :
    Construction D Unit := do
  modify (·.setData internalId dataPoint)
  let graph ← get
  if graph.enterpointNode = some internalId ∧ graph.curElementCount = 1 then
    return
  let elemLevel := graph.elementLevels internalId
  (List.range (elemLevel + 1)).forM (relinkLayer Q draws internalId)
  match graph.enterpointNode with
  | none => throw .undefined
  | some entryPointCopy =>
      repairConnectionsForUpdate Q dataPoint entryPointCopy internalId elemLevel graph.maxlevel

variable (Q) in
/-- `addPoint`, whose overload without a level passes -1. -/
def addPoint (draws : Draws) (dataPoint : List D) (label : UInt64) (level : Int) :
    Construction D Nat := do
  let graph ← get
  match graph.labelLookup label with
  | some existingInternalId =>
      if graph.isMarkedDeleted existingInternalId then
        unmarkDeletedInternal existingInternalId
      updatePoint Q draws dataPoint existingInternalId
      return existingInternalId
  | none => insertPoint Q draws dataPoint label level

end Graph

end VBase.Hnsw
