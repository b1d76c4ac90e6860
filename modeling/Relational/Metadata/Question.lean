import Relational.Expr.Basic

/-!
# Questions about plan nodes

A question has a kind and arguments. The rank of a kind bounds which further kinds its answer
may need of the same node: only those of smaller rank.
-/
namespace Relational.Metadata

inductive Kind
  | selectivity | uniqueKeys | columnUniqueness | collation | distribution | nodeTypes
  | tupleCount | maxRowCount | minRowCount | distinctRowCount | percentageOriginalRows
  | populationSize | averageRowSize | averageColumnSizes | columnOrigin | expressionLineage
  | tableReferences | cumulativeCost | ownCost | isPhaseTransition | splitCount | memory
  | phaseMemory | phaseMemoryPerSplit
  deriving DecidableEq

namespace Kind

def all : List Kind :=
  [selectivity, uniqueKeys, columnUniqueness, collation, distribution, nodeTypes, tupleCount,
    maxRowCount, minRowCount, distinctRowCount, percentageOriginalRows, populationSize,
    averageRowSize, averageColumnSizes, columnOrigin, expressionLineage, tableReferences,
    cumulativeCost, ownCost, isPhaseTransition, splitCount, memory, phaseMemory,
    phaseMemoryPerSplit]

def name : Kind → String
  | selectivity => "Selectivity"
  | uniqueKeys => "UniqueKeys"
  | columnUniqueness => "ColumnUniqueness"
  | collation => "Collation"
  | distribution => "Distribution"
  | nodeTypes => "NodeTypes"
  | tupleCount => "TupleCount"
  | maxRowCount => "MaxRowCount"
  | minRowCount => "MinRowCount"
  | distinctRowCount => "DistinctRowCount"
  | percentageOriginalRows => "PercentageOriginalRows"
  | populationSize => "PopulationSize"
  | averageRowSize => "AverageRowSize"
  | averageColumnSizes => "AverageColumnSizes"
  | columnOrigin => "ColumnOrigin"
  | expressionLineage => "ExpressionLineage"
  | tableReferences => "TableReferences"
  | cumulativeCost => "CumulativeCost"
  | ownCost => "NonCumulativeCost"
  | isPhaseTransition => "IsPhaseTransition"
  | splitCount => "SplitCount"
  | memory => "Memory"
  | phaseMemory => "CumulativeMemoryWithinPhase"
  | phaseMemoryPerSplit => "CumulativeMemoryWithinPhaseSplit"

def ofName? (s : String) : Option Kind := all.find? (·.name == s)

theorem ofName?_name (k : Kind) : ofName? k.name = some k := by cases k <;> decide

def rank : Kind → Nat
  | columnUniqueness | tupleCount | averageRowSize | splitCount => 1
  | distinctRowCount | percentageOriginalRows | ownCost | memory => 2
  | populationSize | cumulativeCost | phaseMemory => 3
  | phaseMemoryPerSplit => 4
  | _ => 0

end Kind

inductive Args
  | none
  | predicate (predicate : Option Expr)
  | ignoreNulls (ignored : Bool)
  | columns (columns : ColumnSet) (ignoreNulls : Bool)
  | groupKey (key : ColumnSet) (predicate : Option Expr)
  | column (index : Nat)
  | expr (expr : Expr)
  deriving DecidableEq

namespace Args

def predicate? : Args → Option Expr
  | predicate p => p
  | _ => .none

def ignoresNulls : Args → Bool
  | ignoreNulls b => b
  | _ => false

end Args

structure Question where
  kind : Kind
  args : Args := .none
  deriving DecidableEq

end Relational.Metadata
