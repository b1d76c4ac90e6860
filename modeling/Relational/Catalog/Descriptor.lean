import Relational.Plan.Basic

/-!
# What plans are told about tables

Columns are ordinals here. A `TableSource` answers by table id and may not know a table.
-/
namespace Relational

structure TableDescriptor where
  table : TableRef
  columnIds : List Nat
  schema : Schema
  partitionColumn : Option Nat
  uniqueKeys : List ColumnSet
  collation : Collation
  distribution : Option Distribution

namespace TableDescriptor

def isPartitioned (d : TableDescriptor) : Bool := d.partitionColumn.isSome

def partitionIndex? (d : TableDescriptor) : Option Nat :=
  d.partitionColumn.bind fun id => d.columnIds.findIdx? (· == id)

def qualifiedColumn? (d : TableDescriptor) (i : Nat) : Option String :=
  d.schema[i]?.map fun f => d.table.qualifiedName ++ "." ++ f.name

end TableDescriptor

structure TableStatistics (Quantity : Type) where
  rowCount : Option Quantity
  distinctCounts : List (Nat × Quantity)
  averageSizes : List (Nat × Quantity)

structure TableSource (Quantity : Type) where
  table : Nat → Except Error TableDescriptor
  statistics : Nat → Except Error (Option (TableStatistics Quantity))

end Relational
