import Relational.Catalog.Descriptor
import Relational.Integer
import Relational.Json.Printer

/-!
# Table definitions

A definition names its columns; `descriptor` and `statisticsByColumn` resolve the names. Rows
written in the definition are checked against the columns by `inlineRows`.
-/
namespace Relational

inductive ColumnType
  | boolean | int32 | int64 | float32 | float64 | utf8
  deriving DecidableEq

def ColumnType.dataType : ColumnType → DataType
  | boolean => .boolean
  | int32 => .int32
  | int64 => .int64
  | float32 => .float32
  | float64 => .float64
  | utf8 => .utf8

structure Column where
  id : Nat
  name : String
  type : ColumnType
  nullable : Bool
  deriving DecidableEq

structure NamedStatistics where
  rowCount : Option Binary64 := none
  distinctCounts : List (String × Binary64) := []
  averageSizes : List (String × Binary64) := []

structure Table where
  id : Nat
  schema : String
  name : String
  columns : List Column
  partitionColumn : Option String := none
  uniqueKeys : List (List String) := []
  collation : Collation := []
  distribution : Option Distribution := none
  statistics : Option NamedStatistics := none
  rows : List (List Json) := []

namespace Table

def ref (t : Table) : TableRef := ⟨t.id, t.schema, t.name⟩

def qualifiedName (t : Table) : String := t.ref.qualifiedName

def rowShape (t : Table) : Schema :=
  t.columns.map fun c => { name := c.name, type := ⟨c.type.dataType, c.nullable⟩ }

def columnIndex? (t : Table) (name : String) : Option Nat :=
  t.columns.findIdx? (·.name == name)

def column? (t : Table) (name : String) : Option Column := t.columns.find? (·.name == name)

private def unknown {α : Type} (t : Table) (name : String) : Except Error α :=
  .error (.invalidConfig (.unknownColumn t.qualifiedName name))

def resolve (t : Table) (name : String) : Except Error Nat :=
  match t.columnIndex? name with
  | some i => .ok i
  | none => t.unknown name

def descriptor (t : Table) : Except Error TableDescriptor := do
  let partitionColumn ← t.partitionColumn.mapM fun name =>
    match t.column? name with
    | some c => pure c.id
    | none => t.unknown name
  let uniqueKeys ← t.uniqueKeys.mapM fun key => do
    return ColumnSet.ofList (← key.mapM t.resolve)
  return {
    table := t.ref
    columnIds := t.columns.map (·.id)
    schema := t.rowShape
    partitionColumn, uniqueKeys
    collation := t.collation
    distribution := t.distribution }

def statisticsByColumn (t : Table) : Except Error (Option (TableStatistics Binary64)) :=
  t.statistics.mapM fun s => do
    let byColumn (m : List (String × Binary64)) : Except Error (List (Nat × Binary64)) := do
      let found ← m.mapM fun (name, x) => do return (← t.resolve name, x)
      return found.mergeSort fun a b => a.1 ≤ b.1
    return ⟨s.rowCount, ← byColumn s.distinctCounts, ← byColumn s.averageSizes⟩

def repeatedName? (seen : List String) : List String → Option String
  | [] => none
  | name :: rest => if seen.contains name then some name else repeatedName? (name :: seen) rest

def check (t : Table) : Except Error Unit := do
  if t.columns.isEmpty then throw (.invalidConfig (.noColumns t.qualifiedName))
  match repeatedName? [] (t.columns.map (·.name)) with
  | some name => throw (.invalidConfig (.repeatedColumn t.qualifiedName name))
  | none => pure ()
  let _ ← t.descriptor
  let _ ← t.statisticsByColumn

def valueOfJson? : ColumnType → Json → Option Value
  | _, .null => some .null
  | .boolean, .bool b => some (.boolean b)
  | .int32, .integer n => (Integer.int32? n).map .int32
  | .int64, .integer n => (Integer.int64? n).map .int64
  | .float32, .integer n => some (.float32 ((Binary.Word.ofInt n : Binary64).convert _))
  | .float32, .double x => some (.float32 (x.convert _))
  | .float64, .integer n => some (.float64 (.ofInt n))
  | .float64, .double x => some (.float64 x)
  | .utf8, .string s => some (.utf8 s)
  | _, _ => none

def inlineValue (t : Table) (r : Nat) (j : Json) (c : Column) : Except Error Value :=
  match valueOfJson? c.type j with
  | none => .error (.invalidConfig
      (.rowValue r t.qualifiedName j.sorted.text c.type.dataType c.name))
  | some v =>
    if v.isNull && !c.nullable then .error (.invalidConfig (.rowNull r t.qualifiedName c.name))
    else .ok v

def inlineRow (t : Table) (r : Nat) (row : List Json) : Except Error Row := do
  if row.length ≠ t.columns.length then
    throw (.invalidConfig (.rowWidth r t.qualifiedName row.length t.columns.length))
  (row.zip t.columns).mapM fun (j, c) => t.inlineValue r j c

def inlineRows (t : Table) : Except Error (List Row) :=
  t.rows.zipIdx.mapM fun (row, r) => t.inlineRow r row

end Table
end Relational
