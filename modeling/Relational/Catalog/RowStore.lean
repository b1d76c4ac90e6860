import Relational.Catalog.Basic
import Relational.Execution.Batch
import Relational.Execution.Unit

/-!
# Stored rows

The rows of tables, by table id. A table that never received rows is empty.
-/
namespace Relational

structure RowStore where
  entries : List (Nat × List Row) := []

namespace RowStore

def rows (s : RowStore) (id : Nat) : List Row := (s.entries.lookup id).getD []

def appendTo (id : Nat) (rows : List Row) : List (Nat × List Row) → List (Nat × List Row)
  | [] => [(id, rows)]
  | (key, stored) :: rest =>
    if key = id then (key, stored ++ rows) :: rest else (key, stored) :: appendTo id rows rest

def append (s : RowStore) (id : Nat) (rows : List Row) : RowStore := ⟨appendTo id rows s.entries⟩

def appendBatch (s : RowStore) (id : Nat) (b : Batch) : Except Error RowStore := do
  return s.append id (← b.toRows)

def ofCatalog (c : Catalog) : Except Error RowStore :=
  c.tables.foldlM (fun s t => do return s.append t.id (← t.inlineRows)) {}

def contents (s : RowStore) : Contents := fun table => s.rows table.id

end RowStore
end Relational
