import Relational.Collation
import Relational.Ordered
import Relational.Plan.Occurrence

/-!
# Facts about plan nodes

What a question can be answered with. Sets are ordered lists.
-/
namespace Relational.Metadata

structure Cost (Q : Type) where
  rows : Q
  cpu : Q
  io : Q

/-- A column of a scanned table that an output column comes from. -/
structure ColumnOrigin where
  table : TableOccurrence
  column : Nat
  derived : Bool
  deriving DecidableEq

def ColumnOrigin.order (a b : ColumnOrigin) : Ordering :=
  (a.table.order b.table).then ((compare a.column b.column).then (compare a.derived b.derived))

inductive Fact (Q : Type)
  | number (value : Q)
  | flag (value : Bool)
  | count (value : Nat)
  | keys (keys : List ColumnSet)
  | collations (collations : List Collation)
  | distribution (distribution : Distribution)
  | nodeTypes (counts : List (Plan.Kind × Nat))
  | cost (cost : Cost Q)
  | sizes (sizes : List (Option Q))
  | origins (origins : List ColumnOrigin)
  | exprs (exprs : List Expr)
  | tables (tables : List TableOccurrence)

namespace Fact
variable {Q : Type}

def number? : Fact Q → Option Q
  | number x => some x
  | _ => none

def flag? : Fact Q → Option Bool
  | flag b => some b
  | _ => none

def count? : Fact Q → Option Nat
  | count n => some n
  | _ => none

def keys? : Fact Q → Option (List ColumnSet)
  | keys ks => some ks
  | _ => none

def collations? : Fact Q → Option (List Collation)
  | collations cs => some cs
  | _ => none

def distribution? : Fact Q → Option Distribution
  | distribution d => some d
  | _ => none

def nodeTypes? : Fact Q → Option (List (Plan.Kind × Nat))
  | nodeTypes ns => some ns
  | _ => none

def cost? : Fact Q → Option (Cost Q)
  | cost c => some c
  | _ => none

def sizes? : Fact Q → Option (List (Option Q))
  | sizes xs => some xs
  | _ => none

def origins? : Fact Q → Option (List ColumnOrigin)
  | origins os => some os
  | _ => none

def exprs? : Fact Q → Option (List Expr)
  | exprs es => some es
  | _ => none

def tables? : Fact Q → Option (List TableOccurrence)
  | tables ts => some ts
  | _ => none

end Fact

def keySet (keys : List ColumnSet) : List ColumnSet := toOrdered ColumnSet.order keys

def mergeOrigins (a b : List ColumnOrigin) : List ColumnOrigin :=
  mergeOrdered ColumnOrigin.order a b

def addCounts (a b : List (Plan.Kind × Nat)) : List (Plan.Kind × Nat) :=
  Plan.Kind.all.filterMap fun k =>
    match (a.lookup k).getD 0 + (b.lookup k).getD 0 with
    | 0 => none
    | n => some (k, n)

end Relational.Metadata
