import Relational.Metadata.Cost
import Relational.Metadata.Lineage
import Relational.Metadata.Placement
import Relational.Metadata.RowEstimate
import Relational.Metadata.Unique

/-!
# Tables of rules

Which rule answers a kind of question for a kind of node: one made for the node's kind, else one
for all nodes. `RuleTable.builtin` holds the rules of this library.
-/
namespace Relational.Metadata

structure RuleTable (Q : Type) where
  specific : Plan.Kind → Kind → Option (Rule Q)
  fallback : Kind → Option (Rule Q)

namespace RuleTable
variable {Q : Type}

def empty : RuleTable Q := ⟨fun _ _ => none, fun _ => none⟩

def lookup (t : RuleTable Q) (node : Plan.Kind) (kind : Kind) : Option (Rule Q) :=
  (t.specific node kind).or (t.fallback kind)

def update (t : RuleTable Q) (node : Plan.Kind) (kind : Kind) (rule : Option (Rule Q)) :
    RuleTable Q :=
  { t with specific := fun n k => if n = node ∧ k = kind then rule else t.specific n k }

def register (t : RuleTable Q) (node : Plan.Kind) (kind : Kind) (rule : Rule Q) :
    Bool × RuleTable Q :=
  ((t.specific node kind).isSome, t.update node kind rule)

def registerFallback (t : RuleTable Q) (kind : Kind) (rule : Rule Q) : Bool × RuleTable Q :=
  ((t.fallback kind).isSome,
    { t with fallback := fun k => if k = kind then some rule else t.fallback k })

def remove (t : RuleTable Q) (node : Plan.Kind) (kind : Kind) : Bool × RuleTable Q :=
  ((t.specific node kind).isSome, t.update node kind none)

section Builtin
variable [Quantity Q]

def specificRule : Kind → Plan.Kind → Option (Rule Q)
  | .selectivity, .filter => some Selectivity.ofFilter
  | .selectivity, .project => some Selectivity.ofProject
  | .selectivity, .aggregate => some Selectivity.ofAggregate
  | .selectivity, .union => some Selectivity.ofUnion
  | .selectivity, .sort | .selectivity, .exchange => some Selectivity.passedOn
  | .uniqueKeys, .scan => some UniqueKeys.ofScan
  | .uniqueKeys, .values => some UniqueKeys.ofValues
  | .uniqueKeys, .filter | .uniqueKeys, .exchange => some UniqueKeys.passedOn
  | .uniqueKeys, .sort => some UniqueKeys.ofSort
  | .uniqueKeys, .project => some UniqueKeys.ofProject
  | .uniqueKeys, .aggregate => some UniqueKeys.ofAggregate
  | .uniqueKeys, .join => some UniqueKeys.ofJoin
  | .uniqueKeys, .union | .uniqueKeys, .intersect | .uniqueKeys, .minus => some UniqueKeys.ofSetOp
  | .columnUniqueness, .scan => some ColumnUniqueness.ofScan
  | .columnUniqueness, .values => some ColumnUniqueness.ofValues
  | .columnUniqueness, .filter | .columnUniqueness, .sort | .columnUniqueness, .exchange =>
    some ColumnUniqueness.passedOn
  | .columnUniqueness, .project => some ColumnUniqueness.ofProject
  | .columnUniqueness, .aggregate => some ColumnUniqueness.ofAggregate
  | .columnUniqueness, .join => some ColumnUniqueness.ofJoin
  | .columnUniqueness, .union | .columnUniqueness, .intersect | .columnUniqueness, .minus =>
    some ColumnUniqueness.ofSetOp
  | .collation, .scan => some Orders.ofScan
  | .collation, .sort => some Orders.ofSort
  | .collation, .filter | .collation, .exchange => some Orders.passedOn
  | .collation, .project => some Orders.ofProject
  | .distribution, .scan => some Placement.ofScan
  | .distribution, .values => some Placement.ofValues
  | .distribution, .exchange => some Placement.ofExchange
  | .distribution, .filter | .distribution, .sort => some Placement.passedOn
  | .distribution, .project => some Placement.ofProject
  | .tupleCount, .scan => some RowEstimate.ofScan
  | .tupleCount, .values => some RowBound.ofValues
  | .tupleCount, .filter => some RowEstimate.ofFilter
  | .tupleCount, .aggregate => some RowEstimate.ofAggregate
  | .tupleCount, .join => some RowEstimate.ofJoin
  | .tupleCount, .union => some RowEstimate.ofUnion
  | .tupleCount, .intersect => some RowEstimate.ofIntersect
  | .tupleCount, .minus => some RowEstimate.ofMinus
  | .tupleCount, .sort => some RowEstimate.ofSort
  | .maxRowCount, .values => some RowBound.ofValues
  | .maxRowCount, .filter | .maxRowCount, .project | .maxRowCount, .exchange
  | .maxRowCount, .minus => some RowBound.maxPassedOn
  | .maxRowCount, .aggregate => some RowBound.maxOfAggregate
  | .maxRowCount, .join => some RowBound.maxOfJoin
  | .maxRowCount, .union => some RowBound.maxOfUnion
  | .maxRowCount, .intersect => some RowBound.maxOfIntersect
  | .maxRowCount, .sort => some RowBound.maxOfSort
  | .minRowCount, .values => some RowBound.ofValues
  | .minRowCount, .project | .minRowCount, .exchange => some RowBound.minPassedOn
  | .minRowCount, .aggregate => some RowBound.minOfAggregate
  | .minRowCount, .join => some RowBound.minOfJoin
  | .minRowCount, .union => some RowBound.minOfUnion
  | .minRowCount, .sort => some RowBound.minOfSort
  | .distinctRowCount, .scan => some Distinct.ofScan
  | .distinctRowCount, .values => some Distinct.ofValues
  | .distinctRowCount, .filter => some Distinct.ofFilter
  | .distinctRowCount, .project => some Distinct.ofProject
  | .distinctRowCount, .aggregate => some Distinct.ofAggregate
  | .distinctRowCount, .join => some Distinct.ofJoin
  | .distinctRowCount, .union => some Distinct.ofUnion
  | .distinctRowCount, .sort | .distinctRowCount, .exchange => some Distinct.passedOn
  | .percentageOriginalRows, .aggregate => some OriginalShare.passedOn
  | .percentageOriginalRows, .union => some OriginalShare.ofUnion
  | .percentageOriginalRows, .join => some OriginalShare.ofJoin
  | .populationSize, .scan | .populationSize, .values => some Population.ofLeaf
  | .populationSize, .filter | .populationSize, .sort | .populationSize, .exchange =>
    some Population.passedOn
  | .populationSize, .project => some Population.ofProject
  | .populationSize, .aggregate => some Population.ofAggregate
  | .populationSize, .join => some Population.ofJoin
  | .populationSize, .union => some Population.ofUnion
  | .averageColumnSizes, .scan => some Size.ofScan
  | .averageColumnSizes, .values => some Size.ofValues
  | .averageColumnSizes, .filter | .averageColumnSizes, .sort | .averageColumnSizes, .exchange =>
    some Size.passedOn
  | .averageColumnSizes, .project => some Size.ofProject
  | .averageColumnSizes, .aggregate => some Size.ofAggregate
  | .averageColumnSizes, .join => some Size.ofJoin
  | .averageColumnSizes, .union | .averageColumnSizes, .intersect | .averageColumnSizes, .minus =>
    some Size.ofSetOp
  | .columnOrigin, .scan => some Origins.ofScan
  | .columnOrigin, .values => some Origins.nowhere
  | .columnOrigin, .filter | .columnOrigin, .sort | .columnOrigin, .exchange =>
    some Origins.passedOn
  | .columnOrigin, .project => some Origins.ofProject
  | .columnOrigin, .aggregate => some Origins.ofAggregate
  | .columnOrigin, .join => some Origins.ofJoin
  | .columnOrigin, .union | .columnOrigin, .intersect | .columnOrigin, .minus =>
    some Origins.ofSetOp
  | .expressionLineage, .scan => some Lineage.ofScan
  | .expressionLineage, .filter | .expressionLineage, .sort | .expressionLineage, .exchange =>
    some Lineage.passedOn
  | .expressionLineage, .project => some Lineage.ofProject
  | .expressionLineage, .aggregate => some Lineage.ofAggregate
  | .expressionLineage, .join => some Lineage.ofJoin
  | .expressionLineage, .union => some Lineage.ofUnion
  | .tableReferences, .scan => some TableReferences.ofScan
  | .tableReferences, .values => some (constantly (.tables []))
  | .ownCost, .scan => some Cost.ofScan
  | .ownCost, .values => some Cost.ofValues
  | .ownCost, .filter => some Cost.ofFilter
  | .ownCost, .project => some Cost.ofProject
  | .ownCost, .aggregate => some Cost.ofAggregate
  | .ownCost, .join => some Cost.ofJoin
  | .ownCost, .sort => some Cost.ofSort
  | .ownCost, .exchange => some Cost.ofExchange
  | .isPhaseTransition, .scan | .isPhaseTransition, .values | .isPhaseTransition, .exchange =>
    some (constantly (.flag true))
  | .memory, .sort => some Memory.ofSort
  | .memory, .aggregate => some Memory.ofAggregate
  | _, _ => none

def generalRule : Kind → Option (Rule Q)
  | .selectivity => some Selectivity.guessed
  | .uniqueKeys => none
  | .columnUniqueness => some ColumnUniqueness.byKeys
  | .collation => some Orders.unordered
  | .distribution => some Placement.ofOnePart
  | .nodeTypes => some NodeTypes.counted
  | .tupleCount => some RowEstimate.passedOn
  | .maxRowCount => some RowBound.unbounded
  | .minRowCount => some RowBound.none
  | .distinctRowCount => some Distinct.estimated
  | .percentageOriginalRows => some OriginalShare.ofRows
  | .populationSize => some Population.ofUniqueKey
  | .averageRowSize => some Size.ofRow
  | .averageColumnSizes => some Size.bySchema
  | .columnOrigin => none
  | .expressionLineage => none
  | .tableReferences => some TableReferences.ofInputs
  | .cumulativeCost => some Cost.cumulative
  | .ownCost => some Cost.ofFields
  | .isPhaseTransition => some (constantly (.flag false))
  | .splitCount => some Placement.splits
  | .memory => some Memory.none
  | .phaseMemory => some Memory.withinPhase
  | .phaseMemoryPerSplit => some Memory.perSplit

def builtin : RuleTable Q := ⟨fun node kind => specificRule kind node, generalRule⟩

end Builtin
end RuleTable
end Relational.Metadata
