import Relational.Plan.Shape

/-!
# Tokens of nodes

A token is the kind of the node and what its operator shows of itself.
-/
namespace Relational.Plan

def target (left right : Plan) (condition : Expr) : String :=
  match left.table?, right.table? with
  | some l, some r => l.qualifiedName ++ "#" ++ r.qualifiedName
  | _, _ => condition.skeleton

def detail : Plan → String
  | scan _ table .. => table.qualifiedName
  | values _ _ shape _ => toString shape.length
  | filter _ _ predicate => predicate.skeleton
  | project _ _ columns =>
    toString columns.length ++ "#" ++ ";".intercalate (columns.map (·.expr.skeleton))
  | aggregate _ _ sets calls indicator =>
    ",".intercalate (sets.map ColumnSet.text) ++ "#" ++
      ",".intercalate (calls.map AggregateCall.text) ++ "#" ++ toString indicator
  | join _ left right condition type => type.name ++ "#" ++ target left right condition
  | setOp _ _ _ all => toString all
  | sort _ _ collation offset fetch =>
    collation.text ++ "#" ++ (if offset.isSome then "offset" else "") ++ "#" ++
      (if fetch.isSome then "fetch" else "")
  | exchange _ _ distribution => distribution.spread.shortName
  | other _ name _ => name

theorem token_eq (p : Plan) : p.token = p.kind.name ++ "#" ++ p.detail := by
  cases p <;> simp only [token, detail, ← String.append_assoc] <;> rfl

end Relational.Plan
