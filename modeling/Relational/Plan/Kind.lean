/-!
# Kinds of plan nodes
-/
namespace Relational

inductive JoinType
  | inner | left | right | full | semi | anti
  deriving DecidableEq

namespace JoinType

def all : List JoinType := [inner, left, right, full, semi, anti]

def name : JoinType → String
  | inner => "Inner"
  | left => "Left"
  | right => "Right"
  | full => "Full"
  | semi => "Semi"
  | anti => "Anti"

def ofName? (s : String) : Option JoinType := all.find? (·.name == s)

def keepsRight : JoinType → Bool
  | semi | anti => false
  | _ => true

theorem ofName?_name (t : JoinType) : ofName? t.name = some t := by cases t <;> decide

end JoinType

inductive SetOp
  | union | intersect | minus
  deriving DecidableEq

namespace Plan

inductive Kind
  | scan | values | filter | project | aggregate | join | union | intersect | minus
  | sort | exchange | other
  deriving DecidableEq, Hashable

namespace Kind

def all : List Kind :=
  [scan, values, filter, project, aggregate, join, union, intersect, minus, sort, exchange, other]

def name : Kind → String
  | scan => "Scan"
  | values => "Values"
  | filter => "Filter"
  | project => "Project"
  | aggregate => "Aggregate"
  | join => "Join"
  | union => "Union"
  | intersect => "Intersect"
  | minus => "Minus"
  | sort => "Sort"
  | exchange => "Exchange"
  | other => "Other"

def ofName? (s : String) : Option Kind := all.find? (·.name == s)

theorem ofName?_name (k : Kind) : ofName? k.name = some k := by cases k <;> decide

end Kind
end Plan

def SetOp.kind : SetOp → Plan.Kind
  | union => .union
  | intersect => .intersect
  | minus => .minus

end Relational
