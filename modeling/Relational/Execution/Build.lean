import Relational.Execution.Unit

/-!
# Executing plans

`Plan.executable` composes the units of a plan; joins and the set operations other than
`UNION ALL` have none. A run is received row by row until its end or the first error.
-/
namespace Relational

def checkAggregateWidth (shape : Schema) (sets : List ColumnSet) (calls : Nat)
    (indicator : Bool) : Except Error Unit :=
  let groups := (Plan.groupColumns sets).size
  let expected := groups + (if indicator then groups else 0) + calls
  if shape.length = expected then .ok ()
  else .error (.invalidShape (.aggregateWidth shape.length expected))

namespace Plan

def notExecutable (p : Plan) : Except Error ExecUnit :=
  .error (.unsupported (.notExecutable p.kind p.id))

mutual
def executable (registry : UserAggregate.Registry) : Plan → Except Error ExecUnit
  | scan _ table shape _ => .ok (.scan table shape)
  | values _ rows shape _ => .ok (.values rows shape)
  | filter _ input predicate => do
    let input ← executable registry input
    return .filter input (← predicate.compile input.schema)
  | project id input columns => do
    let unit ← executable registry input
    let exprs ← columns.mapM fun c => c.expr.compile unit.schema
    return .project unit exprs (project id input columns).schema
  | aggregate id input sets calls indicator => do
    let shape := (aggregate id input sets calls indicator).schema
    checkAggregateWidth shape sets calls.length indicator
    ExecUnit.aggregate (← executable registry input) sets calls indicator shape registry
  | setOp id .union inputs true => do
    return .union (← executables registry inputs) (setOp id .union inputs true).schema
  | sort _ input collation offset fetch => do
    return .sort (← executable registry input) collation offset fetch
  | exchange _ input _ => do return .exchange (← executable registry input)
  | p => notExecutable p

def executables (registry : UserAggregate.Registry) : List Plan → Except Error (List ExecUnit)
  | [] => .ok []
  | p :: rest => do return (← executable registry p) :: (← executables registry rest)
end

def start (p : Plan) (registry : UserAggregate.Registry) (contents : Contents) :
    Except Error Emission := do
  (← p.executable registry).run contents

def collect (p : Plan) (registry : UserAggregate.Registry) (contents : Contents) :
    Except Error (List Row) := do
  (← p.start registry contents).result

end Plan

namespace Emission

def cancelledAfter (n : Nat) (e : Emission) : Emission :=
  if n ≤ e.rows.length then ⟨e.rows.take n, some .cancelled⟩ else e

structure Delivery where
  accepted : List Row
  failure : Option Error
  cancelled : Bool

/-- Hands over the rows to a sink that refuses with `refusal` once it holds `room` rows. -/
def deliver (room : Option Nat) (refusal : Error) (e : Emission) : Delivery :=
  match room with
  | some n =>
    if n < e.rows.length then ⟨e.rows.take n, some refusal, true⟩
    else ⟨e.rows, e.failure, e.failure.isSome⟩
  | none => ⟨e.rows, e.failure, e.failure.isSome⟩

end Emission

def Plan.deliver (p : Plan) (registry : UserAggregate.Registry) (contents : Contents)
    (room : Option Nat) (refusal : Error) : Emission.Delivery :=
  match p.start registry contents with
  | .ok e => e.deliver room refusal
  | .error e => ⟨[], some e, false⟩

end Relational
