import Relational.Aggregation.Grouping
import Relational.Execution.Emission
import Relational.Execution.Sort
import Relational.Plan.Basic

/-!
# Execution units

A unit has a name, the shape of its rows, and an emission that may depend on the contents of
the tables. Units are composed from the sources upward; an error travels to the root.
-/
namespace Relational

abbrev Contents := TableRef → List Row

structure ExecUnit where
  name : String
  schema : Schema
  run : Contents → Except Error Emission

namespace ExecUnit

def scan (table : TableRef) (shape : Schema) : ExecUnit :=
  ⟨"Scan", shape, fun contents =>
    let rows := contents table
    match rows.find? fun r => r.length != shape.length with
    | some bad => .error (.execution (.tableRow table.qualifiedName bad.length shape.length))
    | none => .ok ⟨rows, none⟩⟩

def values (rows : List Row) (shape : Schema) : ExecUnit := ⟨"Values", shape, fun _ => .ok ⟨rows, none⟩⟩

def filter (input : ExecUnit) (predicate : Compiled) : ExecUnit :=
  ⟨"Filter", input.schema, fun contents => do
    return (← input.run contents).through fun row => do
      return if (← predicate.eval row) = .boolean true then [row] else []⟩

def project (input : ExecUnit) (exprs : List Compiled) (shape : Schema) : ExecUnit :=
  ⟨"Project", shape, fun contents => do
    return (← input.run contents).through fun row => do
      return [← exprs.mapM fun c => c.eval row]⟩

def exchange (input : ExecUnit) : ExecUnit := ⟨"Exchange", input.schema, input.run⟩

def union (inputs : List ExecUnit) (shape : Schema) : ExecUnit :=
  ⟨"Union", shape, fun contents => do
    return Emission.concat (← inputs.mapM fun i => i.run contents)⟩

def sort (input : ExecUnit) (collation : Collation) (offset fetch : Option Nat) : ExecUnit :=
  ⟨"Sort", input.schema, fun contents => do
    let e ← input.run contents
    return Emission.ofResult ((window offset fetch <| collation.sort ·) <$> e.result)⟩

def aggregated (sets : List ColumnSet) (calls : List CallPlan) (indicator : Bool)
    (input : Emission) : Emission :=
  let groups := do
    let states ← input.rows.foldlM (Grouping.sendRow calls) (Grouping.start sets)
    let _ ← input.result
    return states
  match groups with
  | .error e => Emission.fail e
  | .ok states =>
    let all := Plan.groupColumns sets
    Emission.concat <| states.map fun s =>
      match s.close calls with
      | .error e => Emission.fail e
      | .ok groups => Emission.sequence none <| groups.map fun g => do
          return [← Grouping.outputRow all s.columns indicator g]

def grouped (input : ExecUnit) (sets : List ColumnSet) (calls : List CallPlan) (indicator : Bool)
    (shape : Schema) : ExecUnit :=
  ⟨"Aggregate", shape, fun contents => do
    return aggregated sets calls indicator (← input.run contents)⟩

def aggregate (input : ExecUnit) (sets : List ColumnSet) (calls : List AggregateCall)
    (indicator : Bool) (shape : Schema) (registry : UserAggregate.Registry) :
    Except Error ExecUnit := do
  let calls ← calls.mapM fun c => CallPlan.ofCall c input.schema registry
  if sets.isEmpty then throw (.invalidShape .noGroupingSet)
  return .grouped input sets calls indicator shape

end ExecUnit
end Relational
