import Relational.Aggregate
import Relational.Expr.Eval

/-!
# Aggregates as expressions

A program keeps a state of a few values and has an expression per state value for adding a row
and for merging another state. Adding evaluates over the row followed by the state, merging over
both states.
-/
namespace Relational

structure Program where
  inputWidth : Nat
  start : List Value
  add : List Compiled
  merge : List Compiled
  result : Compiled

namespace Program
open Relational.Expr

def isNull (e : Expr) : Except Error Expr := mkCall .isNull [e]

def skipNulls (op : Op) (acc v : Expr) : Except Error Expr := do
  mkCall .case [← isNull v, acc, ← isNull acc, v, ← mkCall op [acc, v]]

structure Source where
  state : Schema
  start : List Value
  add : List Expr
  merge : List Expr
  result : Expr

def field (name : String) (t : DataType) (nullable : Bool) : Field :=
  { name, type := ⟨t, nullable⟩ }

def averageState : Schema := [field "sum" .float64 true, field "count" .int64 false]

def averageAdd (input : Schema) (arg : Nat) : Except Error (List Expr) := do
  let buffer := input ++ averageState
  let x ← mkColumn buffer arg
  let sum ← mkColumn buffer input.length
  let count ← mkColumn buffer (input.length + 1)
  let nullX ← isNull x
  let started ← mkCall .coalesce [sum, mkLiteral (.float64 0)]
  let addSum ← mkCall .case [nullX, sum, ← mkCall (.arith .plus) [started, mkCast x .float64]]
  let addCount ← mkCall .case
    [nullX, count, ← mkCall (.arith .plus) [count, mkLiteral (.int64 1)]]
  return [addSum, addCount]

def averageMerge : Except Error (List Expr) := do
  let pair := averageState ++ averageState
  let mergeSum ← skipNulls (.arith .plus) (← mkColumn pair 0) (← mkColumn pair 2)
  let mergeCount ← mkCall (.arith .plus) [← mkColumn pair 1, ← mkColumn pair 3]
  return [mergeSum, mergeCount]

def averageResult : Except Error Expr := do
  let total ← mkColumn averageState 0
  let number ← mkColumn averageState 1
  mkCall .case [← mkCall (.compare .eq) [number, mkLiteral (.int64 0)],
    ← mkTypedLiteral .null (.float64 true),
    ← mkCall (.arith .divide) [total, mkCast number .float64]]

def average (input : Schema) (arg : Nat) : Except Error Source := do
  return ⟨averageState, [.null, .int64 0], ← averageAdd input arg, ← averageMerge,
    ← averageResult⟩

def folding (input : Schema) (arg : Nat) (type : DataType)
    (step : Expr → Expr → Except Error Expr) : Except Error Source := do
  let state := [field "acc" type true]
  let buffer := input ++ state
  let add ← step (← mkColumn buffer input.length) (← mkColumn buffer arg)
  let merge ← step (← mkColumn (state ++ state) 0) (← mkColumn (state ++ state) 1)
  return ⟨state, [.null], [add], [merge], ← mkColumn state 0⟩

def source (f : AggregateFunction) (arg : Nat) (input : Schema) : Except Error Source := do
  let some fieldOfArg := input[arg]? | throw (.invalidShape (.compiledArgument arg))
  let type := fieldOfArg.type.dataType
  match f with
  | .avg =>
    match type with
    | .int32 | .int64 | .float32 | .float64 => average input arg
    | t => throw (.invalidShape (.nonNumeric "AVG" t))
  | .boolAnd | .boolOr =>
    if type ≠ .boolean then throw (.invalidShape (.nonBoolean f.name type))
    folding input arg .boolean (skipNulls (if f = .boolAnd then .and else .or))
  | .anyValue => folding input arg type fun acc v => mkCall .coalesce [acc, v]
  | f => throw (.unsupported (.noProgram f.name))

def compile (f : AggregateFunction) (arg : Nat) (input : Schema) : Except Error Program := do
  let s ← source f arg input
  return {
    inputWidth := input.length
    start := s.start
    add := ← compileAll (input ++ s.state) s.add
    merge := ← compileAll (s.state ++ s.state) s.merge
    result := ← s.result.compile s.state }

def ofCall (c : AggregateCall) (input : Schema) : Except Error Program := do
  compile c.function (← c.onlyArgument) input

def step (exprs : List Compiled) (row : Row) : Except Error (List Value) :=
  exprs.mapM fun c => c.eval row

end Program
end Relational
