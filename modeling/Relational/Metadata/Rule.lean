import Relational.Catalog.Descriptor
import Relational.Metadata.Inquiry

/-!
# Rules

A rule answers the questions of one kind about a node, by an inquiry into the node and its
inputs. What it may know besides is its setting.
-/
namespace Relational.Metadata

structure Setting (Q : Type) where
  source : TableSource Q
  scanRows : Q
  splits : Nat
  occurrence? : Nat → Option TableOccurrence

namespace Setting
variable {Q : Type}

def descriptor? (s : Setting Q) (p : Plan) : Option TableDescriptor :=
  p.table?.bind fun t => (s.source.table t.id).toOption

def statistics? (s : Setting Q) (p : Plan) : Option (TableStatistics Q) :=
  p.table?.bind fun t => (s.source.statistics t.id).toOption.bind id

end Setting

abbrev Rule (Q : Type) := Setting Q → Plan → Args → Inquiry Q (Option (Fact Q))

open Inquiry
variable {Q : Type}

def fromInput {α : Type} (wrap : α → Fact Q) (p : Plan)
    (question : Subject → Inquiry Q (Option α)) : Inquiry Q (Option (Fact Q)) :=
  if p.children.isEmpty then unknown else report wrap (question (.input 0))

def constantly (fact : Fact Q) : Rule Q := fun _ _ _ => known fact

def copiedColumns (columns : List Projection) : List (Option Nat) :=
  columns.map fun c => c.expr.column?

def copyOf? (columns : List Projection) (input : Nat) : Option Nat :=
  columns.findIdx? fun c => c.expr.column? == some input

/-- The expression over the input of a projection, if it reads only projected columns. -/
def throughProjection (columns : List Projection) (e : Expr) : Option Expr :=
  let replaced : Except Unit Expr := e.substitute fun i _ =>
    match columns[i]? with
    | some c => .ok c.expr
    | none => .error ()
  replaced.toOption

/-- Pairs of columns that a conjunct of the condition equates, one of each side. -/
def equatedColumns (condition : Expr) (leftWidth : Nat) : List (Nat × Nat) :=
  condition.conjuncts.filterMap fun e =>
    match e with
    | .call (.compare .eq) [.column a _, .column b _] _ =>
      let l := min a b
      let r := max a b
      if l < leftWidth ∧ leftWidth ≤ r then some (l, r - leftWidth) else none
    | _ => none

def splitColumns (s : ColumnSet) (leftWidth : Nat) : ColumnSet × ColumnSet :=
  (.ofList (s.columns.filter (· < leftWidth)),
    .ofList ((s.columns.filter (leftWidth ≤ ·)).map (· - leftWidth)))

end Relational.Metadata
