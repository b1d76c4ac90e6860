import Relational.Error
import Relational.Text.Blank

/-!
# Aggregate calls

The functions, the types of their results, and calls over the columns of an input.
-/
namespace Relational

inductive AggregateFunction
  | count | sum | sum0 | min | max | avg | boolAnd | boolOr | anyValue
  | user (name : String)
  deriving DecidableEq

namespace AggregateFunction

def name : AggregateFunction → String
  | count => "COUNT"
  | sum => "SUM"
  | sum0 => "$SUM0"
  | min => "MIN"
  | max => "MAX"
  | avg => "AVG"
  | boolAnd => "BOOL_AND"
  | boolOr => "BOOL_OR"
  | anyValue => "ANY_VALUE"
  | user name => name

def upper (s : String) : String := String.ofList (s.toList.map Char.toUpper)

def ofName (s : String) : AggregateFunction :=
  match upper s with
  | "COUNT" => count
  | "SUM" => sum
  | "$SUM0" | "SUM0" => sum0
  | "MIN" => min
  | "MAX" => max
  | "AVG" => avg
  | "BOOL_AND" | "EVERY" => boolAnd
  | "BOOL_OR" | "SOME" => boolOr
  | "ANY_VALUE" => anyValue
  | _ => user (Text.lower s)

def single (f : AggregateFunction) : List SqlType → Except Error SqlType
  | [t] => .ok t
  | args => .error (.invalidShape (.argumentCount f.name args.length))

def numeric (f : AggregateFunction) (t : SqlType) : Except Error Unit :=
  match t.dataType with
  | .int32 | .int64 | .float32 | .float64 => .ok ()
  | other => .error (.invalidShape (.numericArgument f.name other))

def resultType (f : AggregateFunction) (args : List SqlType) : Except Error SqlType :=
  match f with
  | count => .ok (.int64 false)
  | sum => do
    let t ← f.single args
    f.numeric t
    return t.withNullable true
  | sum0 => do
    let t ← f.single args
    f.numeric t
    return t.withNullable false
  | min | max | anyValue => do return (← f.single args).withNullable true
  | avg => do
    f.numeric (← f.single args)
    return .float64 true
  | boolAnd | boolOr => do
    let t ← f.single args
    if t.dataType = .boolean then return .boolean true
    throw (.invalidShape (.booleanArgument f.name t.dataType))
  | user name => .error (.planning (.resultType name))

end AggregateFunction

structure AggregateCall where
  function : AggregateFunction
  args : List Nat
  filter : Option Nat := none
  name : String
  type : SqlType
  deriving DecidableEq

namespace AggregateCall

def derive (function : AggregateFunction) (args : List Nat) (name : String) (input : Schema) :
    Except Error AggregateCall := do
  let types ← args.mapM fun i =>
    match input[i]? with
    | some field => .ok field.type
    | none => .error (.invalidShape (.aggregateArgument i input.length))
  return { function, args, name, type := ← function.resultType types }

def onlyArgument (c : AggregateCall) : Except Error Nat :=
  match c.args with
  | [arg] => .ok arg
  | args => .error (.invalidShape (.argumentCount c.function.name args.length))

def text (c : AggregateCall) : String :=
  c.function.name ++ "(" ++ ", ".intercalate (c.args.map fun i => s!"${i}") ++ ")"
    ++ c.filter.elim "" fun i => s!" FILTER ${i}"

end AggregateCall
end Relational
