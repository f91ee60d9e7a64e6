import VBase.Sptag.Heap
import VBase.Sptag.ResultSets
import VBase.Sptag.HashPosVector

/-! # The iterative search of a BKT index

A search goes through a forest of cluster centers and a neighborhood graph. One queue has
nodes of the trees, the other one has samples, nearest first. The iterator takes samples off
the second queue one at a time and brings their neighbors in, and it goes on in the trees
when they have something nearer.
-/

namespace VBase.Sptag

structure BKTNode where
  centerid : Int
  childStart : Int
  childEnd : Int
  deriving DecidableEq

structure NodeDistPair (D : Type) where
  node : Int
  distance : D

/-- What a search reads of an index. A node of a tree with a negative `childStart` is a leaf, and
a row of the graph ends with its first negative entry. -/
structure BKTIndex where
  treeStart : List Int
  treeRoots : List BKTNode
  bfs : Bool
  neighborhoodSize : Nat
  graph : Int → List Int
  deletedID : Finset Int
  initialDynamicPivots : Nat
  otherDynamicPivots : Nat

/-- The operations of `OptHashPosVector` that a search calls. A call that does not return is
`none`. -/
structure VisitedSet (S : Type) where
  clear : S → S
  checkAndSet : S → Int → Option (Bool × S)

/-- The hash table of the source, with its recursion cut off. -/
def OptHashPosVector.visited (depth : Nat) : VisitedSet OptHashPosVector where
  clear := OptHashPosVector.clear
  checkAndSet := fun self id => self.checkAndSet depth (UInt32.ofInt id)

/-- The members of `WorkSpace` that the iterative search uses. -/
structure WorkSpace (S D : Type) where
  nodeCheckStatus : S
  numberOfCheckedLeaves : Nat
  ngQueue : Heap (NodeDistPair D)
  sptQueue : Heap (NodeDistPair D)

/-- The numbers a search computes with: the distances to the query, `MaxDist`, and the `1e9` and
`FactorQ * _` of the breadth-first start. -/
structure Metric (D : Type) where
  distance : Int → D
  maxDist : D
  far : D
  scale : D → D

/-- The indices of a loop from `first` to before `last`. -/
def indices (first last : Int) : List Int :=
  (List.range (last - first).toNat).map fun offset : Nat => first + (offset : Int)

namespace BKTIndex

def node (index : BKTIndex) (position : Int) : BKTNode :=
  index.treeRoots.getD position.toNat ⟨-1, -1, -1⟩

def center (index : BKTIndex) (position : Int) : Int := (index.node position).centerid

def isLeaf (index : BKTIndex) (position : Int) : Bool :=
  decide ((index.node position).childStart < 0)

/-- The children of an inner node. -/
def children (index : BKTIndex) (position : Int) : List Int :=
  indices (index.node position).childStart (index.node position).childEnd

/-- The last entry of a row, where the graph refers to duplicates of a sample. -/
def checkNode (index : BKTIndex) (id : Int) : Int :=
  (index.graph id).getD (index.neighborhoodSize - 1) (-1)

/-- The duplicates of a sample, under a leaf of a tree. -/
def duplicates (index : BKTIndex) (id : Int) : List Int :=
  if index.checkNode id < -1 then
    (indices (-(index.node (-2 - index.checkNode id)).childStart)
      (index.node (-2 - index.checkNode id)).childEnd).map index.center
  else []

/-- The neighbors of a sample. -/
def neighbors (index : BKTIndex) (id : Int) : List Int :=
  (index.graph id).takeWhile fun nn => decide (0 ≤ nn)

/-- `CheckDeleted`: nothing is checked if nothing was deleted. -/
def keeps (index : BKTIndex) (searchDeleted : Bool) (id : Int) : Bool :=
  decide (index.deletedID.card = 0) || searchDeleted || decide (id ∉ index.deletedID)

end BKTIndex

namespace WorkSpace

variable {S D : Type}

/-- `Initialize`, with a visited set that was initialised already. -/
def init (status : S) (maxDist : D) (maxCheck : Nat) : WorkSpace S D where
  nodeCheckStatus := status
  numberOfCheckedLeaves := 0
  ngQueue := Heap.resize ⟨-1, maxDist⟩ (maxCheck * 30)
  sptQueue := Heap.resize ⟨-1, maxDist⟩ (maxCheck * 10)

def reset (visited : VisitedSet S) (space : WorkSpace S D) : WorkSpace S D where
  nodeCheckStatus := visited.clear space.nodeCheckStatus
  numberOfCheckedLeaves := 0
  ngQueue := space.ngQueue.clear
  sptQueue := space.sptQueue.clear

def resetResult (space : WorkSpace S D) : WorkSpace S D :=
  { space with numberOfCheckedLeaves := 0 }

end WorkSpace

section Search

variable {S D : Type} [LinearOrder D] (visited : VisitedSet S) (index : BKTIndex)
  (metric : Metric D)

/-- `if (!CheckAndSet(id)) m_NGQueue.insert(..)`, with whether the sample is new. -/
def visit (space : WorkSpace S D) (pair : NodeDistPair D) : Option (Bool × WorkSpace S D) :=
  (visited.checkAndSet space.nodeCheckStatus pair.node).map fun (there, status) =>
    if there then (false, { space with nodeCheckStatus := status })
    else
      (true, { space with
        nodeCheckStatus := status
        ngQueue := space.ngQueue.insert NodeDistPair.distance pair })

/-- The same with a count of the samples that were new. -/
def visitLeaf (space : WorkSpace S D) (pair : NodeDistPair D) : Option (WorkSpace S D) :=
  (visit visited space pair).map fun (new, space) =>
    if new then { space with numberOfCheckedLeaves := space.numberOfCheckedLeaves + 1 } else space

/-- A node of a tree with the distance of its center. -/
def treePair (position : Int) : NodeDistPair D :=
  ⟨position, metric.distance (index.center position)⟩

def pushTree (queue : Heap (NodeDistPair D)) (position : Int) : Heap (NodeDistPair D) :=
  queue.insert NodeDistPair.distance (treePair index metric position)

/-! ## SearchTrees -/

/-- One round of `SearchTrees`, with whether it leaves the loop. -/
def searchTreesStep (limits : Nat) (space : WorkSpace S D) : Option (Bool × WorkSpace S D) :=
  let (bcell, sptQueue) := space.sptQueue.pop NodeDistPair.distance
  let space := { space with sptQueue := sptQueue }
  let pair : NodeDistPair D := ⟨index.center bcell.node, bcell.distance⟩
  if index.isLeaf bcell.node then
    (visitLeaf visited space pair).map fun space =>
      (decide (limits ≤ space.numberOfCheckedLeaves), space)
  else
    (visit visited space pair).map fun (_, space) =>
      (false, { space with
        sptQueue := (index.children bcell.node).foldl (pushTree index metric) space.sptQueue })

/-- `SearchTrees`, cut off after `fuel` rounds. -/
def searchTrees (limits : Nat) : Nat → WorkSpace S D → Option (WorkSpace S D)
  | 0, _ => none
  | fuel + 1, space =>
      if space.sptQueue.empty then some space
      else
        (searchTreesStep visited index metric limits space).bind fun (stop, space) =>
          if stop then some space else searchTrees limits fuel space

/-! ## InitSearchTrees -/

def maxBFSNodes : Nat := 100

/-- The two queues of the breadth-first start, and the workspace. -/
structure Spreading (S D : Type) where
  queue : Heap (NodeDistPair D)
  space : WorkSpace S D

/-- A child goes to the next level if it is near enough, and to the queue of the trees if not. -/
def spread (state : Spreading S D) (position : Int) : Spreading S D :=
  let pair := treePair index metric position
  if pair.distance ≤ metric.scale state.queue.top.distance ∧ state.queue.count < maxBFSNodes then
    { state with queue := state.queue.insert NodeDistPair.distance pair }
  else
    { state with
      space := { state.space with
        sptQueue := state.space.sptQueue.insert NodeDistPair.distance pair } }

/-- A queue of the breadth-first start, whose `heap[0]` is `1e9` away. -/
def bfsQueue : Heap (NodeDistPair D) := Heap.resize ⟨-1, metric.far⟩ maxBFSNodes

/-- The loop that empties a level, which has `count` nodes, into the next one. -/
def expandLevel : Nat → Heap (NodeDistPair D) → Spreading S D → Option (Spreading S D)
  | 0, _, state => some state
  | count + 1, level, state =>
      let (tmp, level) := level.pop NodeDistPair.distance
      if index.isLeaf tmp.node then
        expandLevel count level { state with
          space := { state.space with
            sptQueue := state.space.sptQueue.insert NodeDistPair.distance tmp } }
      else
        (visit visited state.space ⟨index.center tmp.node, tmp.distance⟩).bind fun (_, space) =>
          expandLevel count level
            ((index.children tmp.node).foldl (spread index metric) { state with space := space })

/-- The loop that empties the last level into the queue of the trees. -/
def drainLevel : Nat → Heap (NodeDistPair D) → WorkSpace S D → WorkSpace S D
  | 0, _, space => space
  | count + 1, level, space =>
      let (tmp, level) := level.pop NodeDistPair.distance
      drainLevel count level { space with
        sptQueue := space.sptQueue.insert NodeDistPair.distance tmp }

/-- One tree of `InitSearchTrees`. -/
def initTree (space : WorkSpace S D) (start : Int) : Option (WorkSpace S D) :=
  if index.isLeaf start then
    some { space with sptQueue := pushTree index metric space.sptQueue start }
  else if index.bfs then
    let first := (index.children start).foldl (spread index metric) ⟨bfsQueue metric, space⟩
    (expandLevel visited index metric first.queue.count first.queue
      ⟨bfsQueue metric, first.space⟩).map fun second =>
        drainLevel second.queue.count second.queue second.space
  else
    some { space with
      sptQueue := (index.children start).foldl (pushTree index metric) space.sptQueue }

def initSearchTrees (space : WorkSpace S D) : Option (WorkSpace S D) :=
  index.treeStart.foldlM (initTree visited index metric) space

/-! ## SearchIterative -/

/-- The variables of the loop of `SearchIterative`. -/
structure Iterating (S D : Type) where
  space : WorkSpace S D
  results : QueryResultSet D
  count : Nat

/-- A sample that is not deleted is a result. -/
def report (searchDeleted : Bool) (gnode : NodeDistPair D) (state : Iterating S D) :
    Iterating S D :=
  if index.keeps searchDeleted gnode.node then
    { state with
      results := (state.results.addPoint gnode.node gnode.distance).2
      count := state.count + 1 }
  else state

/-- The duplicates of a sample that are not deleted come into the queue unchecked. -/
def pushDuplicates (searchDeleted : Bool) (id : Int) (queue : Heap (NodeDistPair D)) :
    Heap (NodeDistPair D) :=
  ((index.duplicates id).filter (index.keeps searchDeleted)).foldl
    (fun queue other => queue.insert NodeDistPair.distance ⟨other, metric.distance other⟩) queue

def expandRow (space : WorkSpace S D) (id : Int) : Option (WorkSpace S D) :=
  (index.neighbors id).foldlM
    (fun space nn => visitLeaf visited space ⟨nn, metric.distance nn⟩) space

/-- `SearchTrees`, if the trees have something nearer than the queue of the samples. -/
def catchUp (fuel : Nat) (space : WorkSpace S D) : Option (WorkSpace S D) :=
  if space.sptQueue.top.distance < space.ngQueue.top.distance then
    searchTrees visited index metric (index.otherDynamicPivots + space.numberOfCheckedLeaves)
      fuel space
  else some space

/-- One round of the loop of `SearchIterative`. -/
def iterativeTurn (searchDeleted : Bool) (fuel : Nat) (state : Iterating S D) :
    Option (Iterating S D) :=
  let (gnode, ngQueue) := state.space.ngQueue.pop NodeDistPair.distance
  let state := report index searchDeleted gnode
    { state with space := { state.space with ngQueue := ngQueue } }
  let space := { state.space with
    ngQueue := pushDuplicates index metric searchDeleted gnode.node state.space.ngQueue }
  (expandRow visited index metric space gnode.node).bind fun space =>
    (catchUp visited index metric fuel space).map fun space => { state with space := space }

def iterativeLoop (searchDeleted : Bool) (batch fuel : Nat) :
    Nat → Iterating S D → Option (Iterating S D)
  | 0, _ => none
  | rounds + 1, state =>
      if state.space.ngQueue.empty then some state
      else
        (iterativeTurn visited index metric searchDeleted fuel state).bind fun state =>
          if batch ≤ state.count then some state
          else iterativeLoop searchDeleted batch fuel rounds state

/-- What the first call does before the loop. -/
def startSearch (fuel : Nat) (space : WorkSpace S D) : Option (WorkSpace S D) :=
  (initSearchTrees visited index metric space).bind
    (searchTrees visited index metric index.initialDynamicPivots fuel)

/-- `SearchIndexIterative`. -/
def searchIndexIterative (searchDeleted : Bool) (batch fuel : Nat) (isFirst : Bool)
    (space : WorkSpace S D) (results : QueryResultSet D) :
    Option (WorkSpace S D × QueryResultSet D) :=
  (if isFirst then startSearch visited index metric fuel space else some space).bind fun space =>
    (iterativeLoop visited index metric searchDeleted batch fuel fuel ⟨space, results, 0⟩).map
      fun state => (state.space, state.results.sortResult)

/-! ## ResultIterator -/

structure ResultIterator (S D : Type) where
  space : WorkSpace S D
  queryResult : QueryResultSet D
  isFirstResult : Bool

/-- `GetIterator`, with a workspace from the pool. -/
def getIterator (space : WorkSpace S D) : ResultIterator S D where
  space := space.reset visited
  queryResult := ⟨1, fun _ => BasicResult.blank metric.maxDist⟩
  isFirstResult := true

/-- `ResultIterator::Next`. -/
def ResultIterator.next (searchDeleted : Bool) (fuel : Nat) (iter : ResultIterator S D) :
    Option (Option (BasicResult D) × ResultIterator S D) :=
  (searchIndexIterative visited index metric searchDeleted 1 fuel iter.isFirstResult
    iter.space.resetResult (iter.queryResult.reset metric.maxDist)).map
      fun (space, queryResult) =>
        (if (queryResult.results 0).vid < 0 then none else some (queryResult.results 0),
          ⟨space, queryResult, false⟩)

/-- The answers of a number of calls of `Next`. -/
def ResultIterator.nexts (searchDeleted : Bool) (fuel : Nat) :
    Nat → ResultIterator S D → Option (List (Option (BasicResult D)) × ResultIterator S D)
  | 0, iter => some ([], iter)
  | calls + 1, iter =>
      (iter.next visited index metric searchDeleted fuel).bind fun (answer, iter) =>
        (nexts searchDeleted fuel calls iter).map fun (answers, iter) => (answer :: answers, iter)

/-- A scan: what its query computes with, whether it wants deleted samples, and how often it calls
`Next`. -/
structure Scan (D : Type) where
  metric : Metric D
  searchDeleted : Bool
  calls : Nat

/-- The answers of scans that get the same workspace from the pool, one after the other. -/
def scanAll (fuel : Nat) : List (Scan D) → WorkSpace S D →
    Option (List (List (Option (BasicResult D))) × WorkSpace S D)
  | [], space => some ([], space)
  | scan :: rest, space =>
      ((getIterator visited scan.metric space).nexts visited index scan.metric scan.searchDeleted
        fuel scan.calls).bind fun (answers, iter) =>
          (scanAll fuel rest iter.space).map fun (others, space) => (answers :: others, space)

end Search

end VBase.Sptag
