import VBase.AccessMethod.ScanDesc
import Mathlib.Data.List.Forall2
import Mathlib.Data.List.Induction

/-! # The scan that a child drains

`topk` plans the query of each order-by expression, looks for an index scan in the
plan, starts the executor on the plan and looks for an index scan in the tree of
plan states. Both searches go depth first, outer side first, and stop at the first
index scan of any index. What stands above it in the plan is never run.
-/

namespace VBase.Topk

variable {E N : Type}

/-- A plan node for the scan of an index, with the order-by keys that the index serves. -/
structure IndexScan (E : Type) where
  indexid : Nat
  indexorderbyorig : List E
  deriving DecidableEq

/-- Plan trees. The other nodes have tags of any type, and `null` is the null pointer. -/
inductive Plan (E N : Type) where
  | null
  | indexScan (scan : IndexScan E) (lefttree righttree : Plan E N)
  | other (tag : N) (lefttree righttree : Plan E N)

structure IndexScanState (E : Type) where
  plan : IndexScan E
  issNumOrderByKeys : Nat
  deriving DecidableEq

inductive PlanState (E N : Type) where
  | null
  | indexScanState (state : IndexScanState E) (lefttree righttree : PlanState E N)
  | other (tag : N) (lefttree righttree : PlanState E N)

def execInitIndexScan (scan : IndexScan E) : IndexScanState E :=
  ⟨scan, scan.indexorderbyorig.length⟩

/-- The executor builds a state for every node. An index scan has no subplans to start. -/
def execInitNode : Plan E N → PlanState E N
  | .null => .null
  | .indexScan scan _ _ => .indexScanState (execInitIndexScan scan) .null .null
  | .other tag lefttree righttree => .other tag (execInitNode lefttree) (execInitNode righttree)

def findIndexScanState : PlanState E N → Option (IndexScanState E)
  | .null => none
  | .indexScanState state _ _ => some state
  | .other _ lefttree righttree =>
      match findIndexScanState lefttree with
      | some state => some state
      | none => findIndexScanState righttree

def findIndexScanNode : Plan E N → Option (IndexScan E)
  | .null => none
  | .indexScan scan _ _ => some scan
  | .other _ lefttree righttree =>
      match findIndexScanNode lefttree with
      | some scan => some scan
      | none => findIndexScanNode righttree

/-- The plan of the last statement that has an index scan. -/
def extractIndexScanNode (stmtList : List (Plan E N)) : Option (Plan E N) :=
  stmtList.foldl (fun plan stmt => if (findIndexScanNode stmt).isSome then some stmt else plan) none

/-- The loop of `topk` over the order-by expressions, for a planner and the text of a query.
It adds what the search in the plan states finds, which might be the null pointer. -/
def scannodes (planner : E → List (Plan E N)) (sourceText : E → String) :
    List E → Except String (List (Option (IndexScanState E)))
  | [] => .ok []
  | exp :: others =>
      match extractIndexScanNode (planner exp) with
      | none => .error s!"cannot find index for order by expr = {sourceText exp}"
      | some plan =>
          (scannodes planner sourceText others).map (findIndexScanState (execInitNode plan) :: ·)

/-! ## What the searches find -/

/-- The index scans of a plan, a node before its subplans and the outer side first. -/
def Plan.indexScans : Plan E N → List (IndexScan E)
  | .null => []
  | .indexScan scan lefttree righttree => scan :: (lefttree.indexScans ++ righttree.indexScans)
  | .other _ lefttree righttree => lefttree.indexScans ++ righttree.indexScans

/-- The first index scan of the last statement that has one. -/
def firstScan (stmtList : List (Plan E N)) : Option (IndexScan E) :=
  (stmtList.filterMap fun stmt => stmt.indexScans.head?).getLast?

theorem findIndexScanNode_eq_head? (plan : Plan E N) :
    findIndexScanNode plan = plan.indexScans.head? := by
  induction plan with
  | null => rfl
  | indexScan scan lefttree righttree => rfl
  | other tag lefttree righttree ihleft ihright =>
      rw [findIndexScanNode, ihleft, ihright, Plan.indexScans, List.head?_append]
      cases lefttree.indexScans.head? <;> rfl

theorem firstScan_concat (stmtList : List (Plan E N)) (stmt : Plan E N) :
    firstScan (stmtList ++ [stmt]) = (findIndexScanNode stmt).or (firstScan stmtList) := by
  rw [firstScan, List.filterMap_append, List.getLast?_append, findIndexScanNode_eq_head?, firstScan]
  cases hhead : stmt.indexScans.head? <;> simp [hhead]

section Loop

variable (planner : E → List (Plan E N)) (sourceText : E → String)

end Loop

end VBase.Topk
