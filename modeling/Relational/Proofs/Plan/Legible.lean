import Relational.Plan.Check
import Relational.Proofs.Expr.Evaluation
import Relational.Proofs.Ordered
import Relational.Proofs.Plan.Document
import Relational.Proofs.Plan.Token
import Relational.Proofs.Text.Marked

/-!
# Reading the signature off the cache key

A cache key joins the tokens of the nodes, each marked with its depth. In a valid plan only names,
and the conditions of joins with what types bring into them, can look like further tokens; where none
does, the key has the tokens in it.
-/
namespace Relational
open Text

namespace DataType

section
variable {P : String → Prop}

end

end DataType

namespace Expr

end Expr

namespace Plan
variable {Q R : Type} {p q : Plan}

def names : Plan → List String
  | scan _ table .. => [table.qualifiedName]
  | aggregate _ _ _ calls _ => calls.map (·.function.name)
  | other _ name _ => [name]
  | _ => []

/-- The condition of a join, if the token of the join shows it in place of two tables. -/
def shownCondition? : Plan → Option Expr
  | join _ left right condition _ =>
    if left.table?.isSome && right.table?.isSome then none else some condition
  | _ => none

/-- No name begins a mark, and no condition that is shown has a hash, which only what a type carries,
such as the name of a time zone, can bring there. -/
def Legible (p : Plan) : Prop := ∀ node ∈ p.nodes, (∀ name ∈ node.names, Plain name) ∧
  ∀ e ∈ node.shownCondition?, '#' ∉ e.skeleton.toList

theorem Valid.validate (h : p.Valid) {e : Expr} (he : e ∈ p.exprs) :
    e.validate p.inputRow = .ok () := by
  cases h with
  | node hcheck _ => exact validate_of_check hcheck e he

theorem Legible.of_mem_nodes (h : p.Legible) {node : Plan} (hnode : node ∈ p.nodes) :
    node.Legible :=
  fun inner hinner => h inner (mem_nodes_trans hnode hinner)

end Plan
end Relational
