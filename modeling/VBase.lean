import VBase.Foundation.Loop
import VBase.Foundation.Selection
import VBase.Foundation.PriorityQueue
import VBase.Foundation.FirstIndex
import VBase.AccessMethod.HnswLibrary
import VBase.AccessMethod.HnswScan
import VBase.AccessMethod.IndexCache
import VBase.AccessMethod.LifeCycle
import VBase.AccessMethod.Rescan
import VBase.AccessMethod.OrderScan
import VBase.AccessMethod.PaseScan
import VBase.AccessMethod.RangeKeys
import VBase.AccessMethod.Streams
import VBase.AccessMethod.RangeScan
import VBase.AccessMethod.EndOfScan
import VBase.AccessMethod.RangeBoundary
import VBase.AccessMethod.InorderFlag
import VBase.AccessMethod.HnswBuilder
import VBase.AccessMethod.BuildPasses
import VBase.AccessMethod.SavedIndex
import VBase.AccessMethod.ArrayConversion
import VBase.AccessMethod.SptagBuilder
import VBase.AccessMethod.Operator
import VBase.AccessMethod.RangeOperator
import VBase.Executor.BoundedSort
import VBase.Executor.EarlyStop
import VBase.Executor.NearestScan
import VBase.Executor.ScanEquivalence
import VBase.Executor.Reordering
import VBase.Executor.Attribution
import VBase.Milvus.NRA
import VBase.Milvus.NRAResult
import VBase.Planner.OrderedPaths
import VBase.Foundation.Runs
import VBase.Foundation.Double
import VBase.Foundation.Pass
import VBase.Foundation.Printf
import VBase.Foundation.SqlLiteral
import VBase.Planner.RowOrder
import VBase.Planner.RangeRSelEsti
import VBase.Topk.Fagins
import VBase.Topk.Offering
import VBase.Topk.Results
import VBase.Topk.Schedules
import VBase.Topk.Exhaustive
import VBase.Topk.Context
import VBase.Topk.Effort
import VBase.Topk.EffortLimit
import VBase.Topk.Progress
import VBase.Topk.Stalling
import VBase.Topk.RankScore
import VBase.Topk.UnknownRank
import VBase.Topk.PlanSearch
import VBase.Topk.CatalogLookup
import VBase.Topk.ChildQuery
import VBase.Foundation.Command
import VBase.Foundation.Pruning
import VBase.Hnsw.IndexRoundTrip
import VBase.Sptag.HashPosVector
import VBase.Foundation.SwapHeap
import VBase.Sptag.BKTSearch
import VBase.Sptag.SearchReplay
