import Relational.Value.Cast

/-!
# Record batches

Rows turned into typed columns and back. Every value is cast to the type of its column.
-/
namespace Relational

inductive ColumnData
  | nulls (type : DataType) (count : Nat)
  | boolean (cells : List (Option Bool))
  | int32 (cells : List (Option Int32))
  | int64 (cells : List (Option Int64))
  | float32 (cells : List (Option Binary32))
  | float64 (cells : List (Option Binary64))
  | utf8 (cells : List (Option String))
  | largeUtf8 (cells : List (Option String))

namespace ColumnData

private def unsupported {α : Type} (t : DataType) : Except Error α :=
  .error (.unsupported (.batchColumn t))

def isReadable : DataType → Bool
  | .null | .boolean | .int32 | .int64 | .float32 | .float64 | .utf8 | .largeUtf8 => true
  | _ => false

def cellsOf {α : Type} (wrap : α → Value) (cells : List (Option α)) : List Value :=
  cells.map fun c => c.elim .null wrap

def values : ColumnData → Except Error (List Value)
  | nulls t n => if isReadable t then .ok (List.replicate n .null) else unsupported t
  | boolean cells => .ok (cellsOf .boolean cells)
  | int32 cells => .ok (cellsOf .int32 cells)
  | int64 cells => .ok (cellsOf .int64 cells)
  | float32 cells => .ok (cellsOf .float32 cells)
  | float64 cells => .ok (cellsOf .float64 cells)
  | utf8 cells => .ok (cellsOf .utf8 cells)
  | largeUtf8 cells => .ok (cellsOf .utf8 cells)

def bool? : Value → Option Bool | .boolean b => some b | _ => none
def int32? : Value → Option Int32 | .int32 n => some n | _ => none
def int64? : Value → Option Int64 | .int64 n => some n | _ => none
def float32? : Value → Option Binary32 | .float32 x => some x | _ => none
def float64? : Value → Option Binary64 | .float64 x => some x | _ => none
def text? : Value → Option String | .utf8 s => some s | _ => none

def cell (rows : List Row) (i : Nat) (t : DataType) : Except Error (List Value) :=
  rows.mapM fun row =>
    match row[i]? with
    | some v => v.castTo t
    | none => .error (.execution (.missingColumn i row.length))

def ofRows (rows : List Row) (i : Nat) (t : DataType) : Except Error ColumnData :=
  match t with
  | .boolean => do return .boolean ((← cell rows i t).map bool?)
  | .int32 => do return .int32 ((← cell rows i t).map int32?)
  | .int64 => do return .int64 ((← cell rows i t).map int64?)
  | .float32 => do return .float32 ((← cell rows i t).map float32?)
  | .float64 => do return .float64 ((← cell rows i t).map float64?)
  | .utf8 => do return .utf8 ((← cell rows i t).map text?)
  | .largeUtf8 => do return .largeUtf8 ((← cell rows i t).map text?)
  | t => unsupported t

/-- A column without a type of its own counts no nulls. -/
def hasNull : ColumnData → Bool
  | nulls t n => t != .null && n != 0
  | boolean cells => cells.contains none
  | int32 cells => cells.contains none
  | int64 cells => cells.contains none
  | float32 cells => cells.contains none
  | float64 cells => cells.contains none
  | utf8 cells | largeUtf8 cells => cells.contains none

end ColumnData

structure Batch where
  schema : Schema
  columns : List ColumnData
  count : Nat

namespace Batch

def ofColumns (schema : Schema) (columns : List ColumnData) (count : Nat) : Except Error Batch := do
  if columns.isEmpty then throw (.execution .emptyBatch)
  match (schema.zip columns).find? fun (f, c) => !f.type.nullable && c.hasNull with
  | some (f, _) => throw (.execution (.nullInBatch f.name))
  | none => return ⟨schema, columns, count⟩

def ofRows (schema : Schema) (rows : List Row) : Except Error Batch := do
  let columns ← schema.zipIdx.mapM fun (f, i) => ColumnData.ofRows rows i f.type.dataType
  ofColumns schema columns rows.length

def ofNulls (schema : Schema) (count : Nat) : Except Error Batch :=
  ofColumns schema (schema.map fun f => .nulls f.type.dataType count) count

def toRows (b : Batch) : Except Error (List Row) := do
  let columns ← b.columns.mapM ColumnData.values
  return (List.range b.count).map fun r => columns.map fun c => c.getD r .null

end Batch
end Relational
