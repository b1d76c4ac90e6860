import Relational.Aggregate
import Relational.Collation
import Relational.Expr.Basic

/-!
# Plans

Operator trees over tables and literal rows. Every node has an id. `Plan.schema` is the shape of
the rows that a node emits, `Plan.nodes` lists a plan from the root, a node before its inputs.
-/
namespace Relational

structure TableRef where
  id : Nat
  schema : String
  name : String
  deriving DecidableEq

def TableRef.qualifiedName (t : TableRef) : String := t.schema ++ "." ++ t.name

structure Projection where
  expr : Expr
  name : String
  deriving DecidableEq

inductive Plan
  | scan (id : Nat) (table : TableRef) (shape : Schema) (notes : Notes := {})
  | values (id : Nat) (rows : List Row) (shape : Schema) (notes : Notes := {})
  | filter (id : Nat) (input : Plan) (predicate : Expr)
  | project (id : Nat) (input : Plan) (columns : List Projection)
  | aggregate (id : Nat) (input : Plan) (sets : List ColumnSet) (calls : List AggregateCall)
      (indicator : Bool)
  | join (id : Nat) (left right : Plan) (condition : Expr) (type : JoinType)
  | setOp (id : Nat) (op : SetOp) (inputs : List Plan) (all : Bool)
  | sort (id : Nat) (input : Plan) (collation : Collation) (offset fetch : Option Nat)
  | exchange (id : Nat) (input : Plan) (distribution : Distribution)
  | other (id : Nat) (name : String) (inputs : List Plan)
  deriving BEq

namespace Plan

instance : Inhabited Plan := ⟨.values 0 [] []⟩

def id : Plan → Nat
  | scan id .. | values id .. | filter id .. | project id .. | aggregate id .. | join id ..
  | setOp id .. | sort id .. | exchange id .. | other id .. => id

def kind : Plan → Kind
  | scan .. => .scan
  | values .. => .values
  | filter .. => .filter
  | project .. => .project
  | aggregate .. => .aggregate
  | join .. => .join
  | setOp _ op .. => op.kind
  | sort .. => .sort
  | exchange .. => .exchange
  | other .. => .other

def children : Plan → List Plan
  | scan .. | values .. => []
  | filter _ input _ | project _ input _ | aggregate _ input .. | sort _ input ..
  | exchange _ input _ => [input]
  | join _ left right .. => [left, right]
  | setOp _ _ inputs _ | other _ _ inputs => inputs

theorem sizeOf_lt_of_mem_children {p child : Plan} (h : child ∈ p.children) :
    sizeOf child < sizeOf p := by
  cases p <;> simp only [children, List.mem_cons, List.not_mem_nil, or_false] at h
  case join => rcases h with rfl | rfl <;> simp <;> omega
  case setOp | other =>
    have := List.sizeOf_lt_of_mem h
    simp only [setOp.sizeOf_spec, other.sizeOf_spec]
    omega
  all_goals subst h; simp; omega

def groupColumns (sets : List ColumnSet) : ColumnSet := sets.foldl .union .empty

def nullableField (nullable : Bool) (f : Field) : Field :=
  { f with type := f.type.withNullable (f.type.nullable || nullable) }

def joinedSchema (left right : Schema) (leftPadded rightPadded : Bool) : Schema :=
  left.map (nullableField leftPadded) ++ right.map (nullableField rightPadded)

def joinSchema (type : JoinType) (left right : Schema) : Schema :=
  match type with
  | .inner => joinedSchema left right false false
  | .left => joinedSchema left right false true
  | .right => joinedSchema left right true false
  | .full => joinedSchema left right true true
  | .semi | .anti => left

def groupFields (input : Schema) (sets : List ColumnSet) : Schema :=
  (groupColumns sets).columns.filterMap fun c =>
    input[c]?.map (nullableField !sets.all (·.contains c))

def indicatorFields (input : Schema) (sets : List ColumnSet) : Schema :=
  (groupColumns sets).columns.filterMap fun c =>
    input[c]?.map fun f => { name := "i$" ++ f.name, type := .boolean false }

def callFields (calls : List AggregateCall) : Schema :=
  calls.map fun c => { name := c.name, type := c.type }

/-- Names and types of the first input; nullable where any input is. -/
def setOpSchema : List Schema → Schema
  | [] => []
  | base :: rest => rest.foldl (fun merged s =>
      merged.zipWith (fun f g => nullableField g.type.nullable f) s) base

mutual
def schema : Plan → Schema
  | scan _ _ shape _ | values _ _ shape _ => shape
  | filter _ input _ | sort _ input .. | exchange _ input _ => input.schema
  | project _ _ columns => columns.map fun c => { name := c.name, type := c.expr.type }
  | aggregate _ input sets calls indicator =>
    groupFields input.schema sets
      ++ (if indicator then indicatorFields input.schema sets else []) ++ callFields calls
  | join _ left right _ type => joinSchema type left.schema right.schema
  | setOp _ _ inputs _ => setOpSchema (schemas inputs)
  | other _ _ inputs => (schemas inputs).head?.getD []

def schemas : List Plan → List Schema
  | [] => []
  | p :: rest => p.schema :: schemas rest
end

def width (p : Plan) : Nat := p.schema.length

mutual
def walk (depth : Nat) : Plan → List (Plan × Nat)
  | scan id t s ns => [(scan id t s ns, depth)]
  | values id rows s ns => [(values id rows s ns, depth)]
  | filter id input e => (filter id input e, depth) :: walk (depth + 1) input
  | project id input cs => (project id input cs, depth) :: walk (depth + 1) input
  | aggregate id input sets calls b =>
    (aggregate id input sets calls b, depth) :: walk (depth + 1) input
  | join id l r e t => (join id l r e t, depth) :: (walk (depth + 1) l ++ walk (depth + 1) r)
  | setOp id op inputs all => (setOp id op inputs all, depth) :: walkAll (depth + 1) inputs
  | sort id input c o n => (sort id input c o n, depth) :: walk (depth + 1) input
  | exchange id input d => (exchange id input d, depth) :: walk (depth + 1) input
  | other id name inputs => (other id name inputs, depth) :: walkAll (depth + 1) inputs

def walkAll (depth : Nat) : List Plan → List (Plan × Nat)
  | [] => []
  | p :: rest => walk depth p ++ walkAll depth rest
end

def nodes (p : Plan) : List Plan := (p.walk 0).map (·.1)

def size (p : Plan) : Nat := p.nodes.length

def find? (p : Plan) (id : Nat) : Option Plan := p.nodes.find? (·.id == id)

def table? : Plan → Option TableRef
  | scan _ table .. => some table
  | _ => none

def repeatedId? (seen : List Nat) : List Nat → Option Nat
  | [] => none
  | id :: rest => if seen.contains id then some id else repeatedId? (id :: seen) rest

def checkIds (p : Plan) : Except Error Unit :=
  match repeatedId? [] (p.nodes.map id) with
  | some id => .error (.invalidShape (.duplicateNode id))
  | none => .ok ()

end Plan
end Relational
