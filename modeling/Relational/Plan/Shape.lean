import Relational.Catalog.Descriptor
import Relational.Expr.Pinned
import Relational.Ordered

/-!
# Plan shapes

What a plan looks like apart from its literals: a signature of one token per node, the columns
that its tables offer and its expressions use, and the values that filters pin the partition
columns of scans to.
-/
namespace Relational

structure PlanShape where
  /-- Tokens with their depth, ordered, each once. -/
  signature : List String
  available : List (Nat × String)
  positions : List Nat
  tables : List String
  partitionValues : List (Nat × List String)

namespace PlanShape

def queryName (s : PlanShape) : String := "[" ++ ", ".intercalate s.signature ++ "]"

/-- The available columns at the positions that are read, or all if none is read. -/
def used (s : PlanShape) : List (Nat × String) :=
  if s.positions.isEmpty then s.available
  else (s.available.zipIdx.filter fun (_, i) => s.positions.contains i).map (·.1)

def addColumns (known : List (Nat × String)) (d : TableDescriptor) : List (Nat × String) :=
  (d.columnIds.zipIdx).foldl (fun known (id, i) =>
    match d.qualifiedColumn? i with
    | some name => if known.any (·.1 == id) then known else known ++ [(id, name)]
    | none => known) known

def addValues (id : Nat) (values : List String) : List (Nat × List String) →
    List (Nat × List String)
  | [] => [(id, toOrdered compare values)]
  | (key, known) :: rest =>
    if id < key then (id, toOrdered compare values) :: (key, known) :: rest
    else if id = key then (key, mergeOrdered compare known values) :: rest
    else (key, known) :: addValues id values rest

end PlanShape

namespace Plan
variable {Q : Type}

private def joinTargets (left right : Plan) (condition : Expr) : String :=
  match left.table?, right.table? with
  | some l, some r => l.qualifiedName ++ "#" ++ r.qualifiedName
  | _, _ => condition.skeleton

/-- What a node looks like without its inputs and without the values of literals. -/
def token : Plan → String
  | scan _ table .. => s!"Scan#{table.qualifiedName}"
  | values _ _ shape _ => s!"Values#{shape.length}"
  | filter _ _ predicate => s!"Filter#{predicate.skeleton}"
  | project _ _ columns =>
    let skeletons := ";".intercalate (columns.map fun c => c.expr.skeleton)
    s!"Project#{columns.length}#{skeletons}"
  | aggregate _ _ sets calls indicator =>
    let sets := ",".intercalate (sets.map ColumnSet.text)
    let calls := ",".intercalate (calls.map AggregateCall.text)
    s!"Aggregate#{sets}#{calls}#{indicator}"
  | join _ left right condition type => s!"Join#{type.name}#{joinTargets left right condition}"
  | setOp _ op _ all => s!"{op.kind.name}#{all}"
  | sort _ _ collation offset fetch =>
    let offset := if offset.isSome then "offset" else ""
    let fetch := if fetch.isSome then "fetch" else ""
    s!"Sort#{collation.text}#{offset}#{fetch}"
  | exchange _ _ distribution => s!"Exchange#{distribution.spread.shortName}"
  | other _ name _ => s!"Other#{name}"

def positionsRead : Plan → List Nat
  | filter _ _ predicate => predicate.references
  | project _ _ columns => columns.flatMap fun c => c.expr.references
  | join _ _ _ condition _ => condition.references
  | _ => []

/-- For a filter right above the scan of a partitioned table: the id of the scan, and the values
that the partition column is pinned to. -/
def pinnedPartition? (source : TableSource Q) : Plan → Option (Nat × List Value)
  | filter _ (scan id table ..) predicate => do
    let d ← (source.table table.id).toOption
    return (id, ← predicate.pinned? (← d.partitionIndex?))
  | _ => none

def shape (source : TableSource Q) (p : Plan) : PlanShape where
  signature := toOrdered compare ((p.walk 0).map fun (node, depth) => s!"{depth}:{node.token}")
  available := p.nodes.foldl (fun known node =>
    match node.table?.bind fun t => (source.table t.id).toOption with
    | some d => PlanShape.addColumns known d
    | none => known) []
  positions := p.nodes.flatMap positionsRead
  tables := p.nodes.filterMap fun node => node.table?.map TableRef.qualifiedName
  partitionValues := p.nodes.foldl (fun known node =>
    match node.pinnedPartition? source with
    | some (_, []) | none => known
    | some (key, vs) => PlanShape.addValues key (vs.map Value.text) known) []

end Plan
end Relational
