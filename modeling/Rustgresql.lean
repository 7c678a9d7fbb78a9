import Rustgresql.Storage.BTree.WellFormed
import Rustgresql.Storage.BTree.Pins
import Rustgresql.Storage.BTree.Refinement
import Rustgresql.Storage.BTree.Durable
import Rustgresql.Storage.BTree.Iterator
import Rustgresql.Storage.Buffer.Eviction
import Rustgresql.Storage.Buffer.ReadsWrites
import Rustgresql.Transaction.Mvcc.AbortTrace
import Rustgresql.Transaction.Mvcc.DirtyReads
import Rustgresql.Transaction.Mvcc.LatestCommitted
import Rustgresql.Transaction.DdlWal
import Rustgresql.Transaction.UndoChain
import Rustgresql.Session
import Rustgresql.Sql.Parser.Procedure
import Rustgresql.Catalog.Schema
import Rustgresql.Catalog.Manager
import Rustgresql.Executor.Keys
import Rustgresql.Executor.Validation
import Rustgresql.Executor.Alter
import Rustgresql.Executor.ControlFlow
import Rustgresql.Executor.Engine
import Rustgresql.Executor.Call
import Rustgresql.Executor.Expression
import Rustgresql.Executor.Atomicity
import Rustgresql.Executor.Parallel.Scanner
import Rustgresql.Executor.Parallel.ResourceManager
import Rustgresql.Executor.Parallel.Scheduler
import Rustgresql.Executor.SystemTables
import Rustgresql.Executor.DdlStatement
import Rustgresql.Lib.Fence
import Rustgresql.Storage.BTree.Shape
import Rustgresql.Executor.SetOperation
import Rustgresql.Executor.Sort
import Rustgresql.Executor.RowSelection
import Rustgresql.Executor.Join
import Rustgresql.Executor.HashJoin
import Rustgresql.Executor.AggregateOutput
import Rustgresql.Executor.MergeJoin
import Rustgresql.Executor.Columns
import Rustgresql.Executor.Window.Frame
import Rustgresql.Executor.Window.Partition
import Rustgresql.Executor.Window.Ranking
import Rustgresql.Executor.Window.Offset
import Rustgresql.Executor.Cte.Recursive
import Rustgresql.Executor.Cte.Order
import Rustgresql.Executor.Planner
import Rustgresql.Executor.Planner.Aggregates
import Rustgresql.Executor.Planner.ClauseOrder
import Rustgresql.Executor.Expression.Comparison
import Rustgresql.Executor.Expression.IntegerArithmetic
import Rustgresql.Executor.Expression.Like
import Rustgresql.Executor.Extremes
import Rustgresql.Executor.Planner.JoinNames
import Rustgresql.Executor.Subquery.Scope
import Rustgresql.Executor.Sum
import Rustgresql.Optimizer.PredicatePushdown
import Rustgresql.Transaction.Wal.Checksum
import Rustgresql.Transaction.Wal.FailedFlush
import Rustgresql.Transaction.ExecutionPlan
import Rustgresql.Transaction.DdlLocks
import Rustgresql.Storage.Reopening
import Rustgresql.Optimizer.RuleEngine
import Rustgresql.Optimizer.AggregationPushdown
import Rustgresql.Optimizer.JoinOrdering
import Rustgresql.Executor.RowKey
import Rustgresql.Executor.Distinct
import Rustgresql.Catalog.DataType
import Rustgresql.Optimizer.Statistics
import Rustgresql.Optimizer.PlanCache
import Rustgresql.Executor.ProcedureExpression
import Rustgresql.Executor.TableConstraints
import Rustgresql.Executor.CreateTable
import Rustgresql.Catalog.View
import Rustgresql.Catalog.MaterializedView
import Rustgresql.Executor.View
import Rustgresql.Executor.Planner.Views
import Rustgresql.Catalog.ConstraintMapping
import Rustgresql.Executor.ProcedureContext
import Rustgresql.Optimizer.QueryKey
