import Relational.Integer
import Relational.Plan.Basic

/-!
# Checked construction of plans

`Plan.check` says whether a node fits its inputs. A `Builder` hands out consecutive ids and adds
only nodes that pass; a failing step takes no id.
-/
namespace Relational.Plan

def requireColumns (columns : List Nat) (width : Nat) (fault : Nat → Nat → ShapeFault) :
    Except Error Unit :=
  match columns.find? (width ≤ ·) with
  | some c => .error (.invalidShape (fault c width))
  | none => .ok ()

def requirePredicate (what : String) (e : Expr) : Except Error Unit :=
  require (e.dataType == .boolean || e.dataType == .null) (.notBoolean what e.dataType)

def fits (v : Value) (f : Field) : Bool :=
  if v.isNull then f.type.nullable else v.dataType == f.type.dataType

def checkRow (shape : Schema) (r : Nat) (row : Row) : Except Error Unit := do
  require (row.length == shape.length) (.rowWidth r row.length shape.length)
  (row.zip shape).forM fun (v, f) => require (fits v f) (.rowValue r v f.name f.type.dataType)

def checkCall (input : Schema) (c : AggregateCall) : Except Error Unit := do
  requireColumns c.args input.length (.callArgument c.function.name)
  match c.filter with
  | none => return
  | some i => match input[i]? with
    | none => throw (.invalidShape (.filterArgument i input.length))
    | some f => require (f.type.dataType == .boolean) (.filterArgumentType i f.type.dataType)

def checkAggregate (input : Schema) (sets : List ColumnSet) (calls : List AggregateCall) :
    Except Error Unit := do
  require (!sets.isEmpty) .noGroupingSet
  requireColumns (groupColumns sets).greatest?.toList input.length .groupingColumn
  calls.forM (checkCall input)

def checkInputTypes (k : Kind) (i : Nat) (base input : Schema) : Except Error Unit := do
  require (input.length == base.length) (.inputWidth k i input.length base.length)
  (base.zip input).zipIdx.forM fun ((f, g), c) =>
    require (f.type.dataType == g.type.dataType)
      (.inputType k i c g.type.dataType f.type.dataType)

def checkSetOp (k : Kind) : List Schema → Except Error Unit
  | [] => .error (.invalidShape (.noInput k))
  | base :: rest => (rest.zipIdx 1).forM fun (input, i) => checkInputTypes k i base input

/-- Whether the node fits its inputs. The inputs themselves are not looked into. -/
def check : Plan → Except Error Unit
  | scan .. | other .. => .ok ()
  | values _ rows shape _ => rows.zipIdx.forM fun (row, r) => checkRow shape r row
  | filter _ input predicate => do
    predicate.validate input.schema
    requirePredicate "filter predicate" predicate
  | project _ input columns => columns.forM fun c => c.expr.validate input.schema
  | aggregate _ input sets calls _ => checkAggregate input.schema sets calls
  | join _ left right condition _ => do
    condition.validate (left.schema ++ right.schema)
    requirePredicate "join condition" condition
  | setOp _ op inputs _ => checkSetOp op.kind (schemas inputs)
  | sort _ input collation _ _ => requireColumns (collation.map (·.column)) input.width .sortKey
  | exchange _ input distribution =>
    requireColumns distribution.keys input.width .distributionKey

inductive Valid : Plan → Prop
  | node {p : Plan} : p.check = .ok () → (∀ c ∈ p.children, Valid c) → Valid p

def checked (p : Plan) : Except Error Plan := do
  p.check
  return p

theorem checked_eq_ok {p q : Plan} : checked p = .ok q ↔ p.check = .ok () ∧ p = q := by
  unfold checked
  cases p.check <;> simp [bind, Except.bind, pure, Except.pure]

/-- The node over other inputs, if there are as many as it has. -/
def withChildren (p : Plan) (inputs : List Plan) : Except Error Plan :=
  let wrongCount := Error.invalidShape (.inputCount p.kind p.children.length inputs.length)
  match p, inputs with
  | scan .., [] | values .., [] => checked p
  | filter id _ e, [input] => checked (.filter id input e)
  | project id _ columns, [input] => checked (.project id input columns)
  | aggregate id _ sets calls b, [input] => checked (.aggregate id input sets calls b)
  | join id _ _ e type, [left, right] => checked (.join id left right e type)
  | sort id _ collation offset fetch, [input] => checked (.sort id input collation offset fetch)
  | exchange id _ distribution, [input] => checked (.exchange id input distribution)
  | setOp id op old all, inputs =>
    if inputs.length = old.length then checked (.setOp id op inputs all) else .error wrongCount
  | other id name old, inputs =>
    if inputs.length = old.length then checked (.other id name inputs) else .error wrongCount
  | _, _ => .error wrongCount

structure Builder where
  next : Nat := 1

def Builder.add (b : Builder) (make : Nat → Plan) : Except Error (Plan × Builder) := do
  let p ← checked (make b.next)
  return (p, ⟨(b.next + 1) % Integer.wordCount⟩)

end Relational.Plan
