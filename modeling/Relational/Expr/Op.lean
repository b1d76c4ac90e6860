/-!
# Scalar operators

Comparisons and arithmetic are families of their own, so that what holds for a whole family
is said once.
-/
namespace Relational

inductive Comparison
  | eq | ne | lt | le | gt | ge
  deriving DecidableEq

inductive Arithmetic
  | plus | minus | times | divide
  deriving DecidableEq

inductive Op
  | compare (c : Comparison)
  | arith (a : Arithmetic)
  | and | or | not
  | isNull | isNotNull
  | isIn | case | coalesce | cast
  deriving DecidableEq

namespace Comparison

def symbol : Comparison → String
  | eq => "="
  | ne => "<>"
  | lt => "<"
  | le => "<="
  | gt => ">"
  | ge => ">="

def reverse : Comparison → Comparison
  | lt => gt
  | le => ge
  | gt => lt
  | ge => le
  | c => c

def holds : Comparison → Ordering → Bool
  | eq, o => o == .eq
  | ne, o => o != .eq
  | lt, o => o == .lt
  | le, o => o != .gt
  | gt, o => o == .gt
  | ge, o => o != .lt

theorem holds_reverse (c : Comparison) (o : Ordering) : c.reverse.holds o.swap = c.holds o := by
  cases c <;> cases o <;> rfl

end Comparison

namespace Arithmetic

def symbol : Arithmetic → String
  | plus => "+"
  | minus => "-"
  | times => "*"
  | divide => "/"

def name : Arithmetic → String
  | plus => "Plus"
  | minus => "Minus"
  | times => "Multiply"
  | divide => "Divide"

end Arithmetic

namespace Op

def all : List Op :=
  [.compare .eq, .compare .ne, .compare .lt, .compare .le, .compare .gt, .compare .ge,
   .arith .plus, .arith .minus, .arith .times, .arith .divide,
   and, or, not, isNull, isNotNull, isIn, case, coalesce, cast]

def symbol : Op → String
  | compare c => c.symbol
  | arith a => a.symbol
  | and => "AND"
  | or => "OR"
  | not => "NOT"
  | isNull => "IS NULL"
  | isNotNull => "IS NOT NULL"
  | isIn => "IN"
  | case => "CASE"
  | coalesce => "COALESCE"
  | cast => "CAST"

def name : Op → String
  | compare .eq => "Eq"
  | compare .ne => "NotEq"
  | compare .lt => "Lt"
  | compare .le => "LtEq"
  | compare .gt => "Gt"
  | compare .ge => "GtEq"
  | arith a => a.name
  | and => "And"
  | or => "Or"
  | not => "Not"
  | isNull => "IsNull"
  | isNotNull => "IsNotNull"
  | isIn => "In"
  | case => "Case"
  | coalesce => "Coalesce"
  | cast => "Cast"

def ofName? (s : String) : Option Op := all.find? (·.name == s)

def isComparison : Op → Bool
  | compare _ => true
  | _ => false

def isArithmetic : Op → Bool
  | arith _ => true
  | _ => false

def reverse : Op → Op
  | compare c => compare c.reverse
  | op => op

theorem ofName?_name (op : Op) : ofName? op.name = some op := by
  rcases op with (_ | _ | _ | _ | _ | _) | (_ | _ | _ | _) | _ | _ | _ | _ | _ | _ | _ | _ | _
    <;> decide

end Op
end Relational
