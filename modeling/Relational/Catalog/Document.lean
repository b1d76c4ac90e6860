import Relational.Catalog.Basic
import Relational.Json.Reader
import Relational.Plan.Document

/-!
# Documents of catalogs

A catalog is read from a list of table definitions.
-/
namespace Relational

namespace ColumnType

def ofName? : String → Option ColumnType
  | "boolean" => some boolean
  | "int32" => some int32
  | "int64" => some int64
  | "float32" => some float32
  | "float64" => some float64
  | "utf8" => some utf8
  | _ => none

end ColumnType

def Column.ofJson? (j : Json) : Option Column := do
  let ms ← j.members? ["id", "name", "type", "nullable"]
  return ⟨← Json.member? "id" Json.natural? ms, ← Json.member? "name" Json.text? ms,
    ← Json.member? "type" (Json.named? ColumnType.ofName?) ms,
    ← Json.memberOr? "nullable" true Json.bool? ms⟩

def NamedStatistics.entries? : Json → Option (List (String × Binary64))
  | .object fields =>
    fields.foldlM (fun entries (name, j) => do
      return entries.filter (·.1 != name) ++ [(name, ← j.float64?)]) []
  | _ => none

def NamedStatistics.ofJson? (j : Json) : Option NamedStatistics := do
  let ms ← j.members? ["row_count", "distinct_counts", "average_column_sizes"]
  return ⟨← Json.memberOr? "row_count" none (Json.optional? Json.float64?) ms,
    ← Json.memberOr? "distinct_counts" [] entries? ms,
    ← Json.memberOr? "average_column_sizes" [] entries? ms⟩

def Table.ofJson? (j : Json) : Option Table := do
  let ms ← j.members? ["id", "schema", "name", "columns", "partition_column", "unique_keys",
    "collation", "distribution", "statistics", "rows"]
  return {
    id := ← Json.member? "id" Json.natural? ms
    schema := ← Json.member? "schema" Json.text? ms
    name := ← Json.member? "name" Json.text? ms
    columns := ← Json.member? "columns" (Json.list? Column.ofJson?) ms
    partitionColumn := ← Json.memberOr? "partition_column" none (Json.optional? Json.text?) ms
    uniqueKeys := ← Json.memberOr? "unique_keys" [] (Json.list? (Json.list? Json.text?)) ms
    collation := ← Json.memberOr? "collation" [] (Json.list? SortKey.ofJson?) ms
    distribution := ← Json.memberOr? "distribution" none (Json.optional? Distribution.ofJson?) ms
    statistics := ← Json.memberOr? "statistics" none (Json.optional? NamedStatistics.ofJson?) ms
    rows := ← Json.memberOr? "rows" [] (Json.list? (Json.list? Json.sound?)) ms }

def Table.listOfSource (source : Json.Source) : Except Error (List Table) :=
  match source.document.list? Table.ofJson? with
  | some tables =>
    if source.intact then .ok tables else .error (.invalidConfig .unreadable)
  | none => .error (.invalidConfig .unreadable)

def Table.parseList (text : String) : Except Error (List Table) := listOfSource (Json.read text)

def Catalog.parse (text : String) : Except Error Catalog := do
  ofTables (← Table.parseList text)

end Relational
