import Relational.Plan.Basic

/-!
# Plans as indented text
-/
namespace Relational.Plan

private def optional (n : Option Nat) : String := n.elim "None" fun n => s!"Some({n})"

def headline : Plan → String
  | scan _ table shape _ => s!" table={table.qualifiedName} columns={shape.length}"
  | values _ rows shape _ => s!" rows={rows.length} columns={shape.length}"
  | filter _ _ predicate => s!" {predicate.text}"
  | project .. => ""
  | aggregate _ _ sets _ indicator =>
    let sets := ", ".intercalate (sets.map ColumnSet.text)
    s!" grouping_sets=[{sets}] indicator={indicator}"
  | join _ _ _ condition type => s!" type={type.name} on={condition.text}"
  | setOp _ _ _ all => s!" all={all}"
  | sort _ _ collation offset fetch =>
    s!" collation={collation.text} offset={optional offset} fetch={optional fetch}"
  | exchange _ _ distribution => s!" distribution={distribution.text}"
  | other _ name _ => s!" name={name}"

def details : Plan → List String
  | project _ _ columns => columns.map fun c => s!"{c.name} := {c.expr.text}"
  | aggregate _ _ _ calls _ => calls.map fun c => s!"{c.name} := {c.text}"
  | _ => []

private def indent (depth : Nat) : String := String.ofList (List.replicate (2 * depth) ' ')

def explainWith (note : Plan → Option String) (p : Plan) : String :=
  String.join <| (p.walk 0).map fun (node, depth) =>
    let note := (note node).elim "" fun n => s!" [{n}]"
    s!"{indent depth}{node.kind.name} #{node.id}{node.headline}{note}\n"
      ++ String.join (node.details.map fun d => s!"{indent (depth + 1)}{d}\n")

def explain (p : Plan) : String := p.explainWith fun _ => none

end Relational.Plan
