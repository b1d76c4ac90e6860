import Relational.Catalog.Table

/-!
# Catalogs

Registered tables by id, and an index from qualified names to ids. Registering a table again
replaces its definition and its name.
-/
namespace Relational

structure Catalog where
  tables : List Table := []
  names : List (String × Nat) := []

namespace Catalog

def find? (c : Catalog) (id : Nat) : Option Table := c.tables.find? (·.id == id)

def get (c : Catalog) (id : Nat) : Except Error Table :=
  match c.find? id with
  | some t => .ok t
  | none => .error (.planning (.unknownTableId id))

def getByName (c : Catalog) (name : String) : Except Error Table :=
  match c.names.lookup name with
  | some id => c.get id
  | none => .error (.planning (.unknownTable name))

def sharedId? (t other : Table) : Option Nat :=
  (t.columns.find? fun c => other.columns.any (·.id == c.id)).map (·.id)

def conflict? (c : Catalog) (t : Table) : Option ConfigFault :=
  (c.tables.filter (·.id != t.id)).findSome? fun other =>
    (sharedId? t other).map fun id =>
      .sharedColumnId id t.qualifiedName other.qualifiedName

def dropName (name : String) (names : List (String × Nat)) : List (String × Nat) :=
  names.filter (·.1 != name)

def replace (t : Table) : List Table → List Table
  | [] => [t]
  | u :: rest => if u.id = t.id then t :: rest else u :: replace t rest

def insert (c : Catalog) (t : Table) : Catalog :=
  let names := match c.find? t.id with
    | some previous => dropName previous.qualifiedName c.names
    | none => c.names
  ⟨replace t c.tables, (t.qualifiedName, t.id) :: dropName t.qualifiedName names⟩

def register (c : Catalog) (t : Table) : Except Error Catalog := do
  t.check
  match c.conflict? t with
  | some fault => throw (.invalidConfig fault)
  | none => return c.insert t

def ofTables (tables : List Table) : Except Error Catalog := tables.foldlM register {}

def source (c : Catalog) : TableSource Binary64 where
  table id := do (← c.get id).descriptor
  statistics id := do (← c.get id).statisticsByColumn

end Catalog
end Relational
