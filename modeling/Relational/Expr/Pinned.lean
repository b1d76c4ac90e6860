import Relational.Expr.Basic
import Relational.Value

/-!
# Pinned columns

The literals that a conjunctive predicate pins a column to: on a row that satisfies the predicate
the column has one of these values. There is no answer if the predicate restricts the column in
any other way.
-/
namespace Relational.Expr

def pin? (e : Expr) : Option Value := e.literal?.filter fun v => !v.isNull

def unpinned? (column : Nat) (e : Expr) : Option (List Value) :=
  if e.columnsRead.contains column then none else some []

def pinnedByEquation? (column : Nat) (left right : Expr) : Option (List Value) :=
  if left.column? = some column then right.pin?.map ([·])
  else if right.column? = some column then left.pin?.map ([·])
  else if left.columnsRead.contains column || right.columnsRead.contains column then none
  else some []

def pinnedByList? (column : Nat) (probe : Expr) (candidates : List Expr) : Option (List Value) :=
  if probe.column? = some column then candidates.mapM pin?
  else if (probe :: candidates).any fun e => e.columnsRead.contains column then none
  else some []

mutual
def pinned? (column : Nat) : Expr → Option (List Value)
  | call .and operands _ => pinnedByAll? column operands
  | call .or _ _ => none
  | call (.compare .eq) [left, right] _ => pinnedByEquation? column left right
  | call .isIn (probe :: candidates) _ => pinnedByList? column probe candidates
  | call op operands t => unpinned? column (call op operands t)
  | _ => some []

def pinnedByAll? (column : Nat) : List Expr → Option (List Value)
  | [] => some []
  | e :: rest => do return (← pinned? column e) ++ (← pinnedByAll? column rest)
end

end Relational.Expr
