import Relational.Aggregation.Program
import Relational.Aggregation.UserAggregate

/-!
# Accumulators

The running state of one aggregate call over one group. A `Recipe` is resolved once per call
and makes a fresh accumulator for every group.
-/
namespace Relational

inductive NumericType
  | int32 | int64 | float32 | float64
  deriving DecidableEq

namespace NumericType

def ofDataType? : DataType → Option NumericType
  | .int32 => some int32
  | .int64 => some int64
  | .float32 => some float32
  | .float64 => some float64
  | _ => none

def dataType : NumericType → DataType
  | int32 => .int32
  | int64 => .int64
  | float32 => .float32
  | float64 => .float64

def zero : NumericType → Value
  | int32 => .int32 0
  | int64 => .int64 0
  | float32 => .float32 0
  | float64 => .float64 0

def least : NumericType → Value
  | int32 => .int32 Int32.minValue
  | int64 => .int64 Int64.minValue
  | float32 => .float32 (.infinity true)
  | float64 => .float64 (.infinity true)

def greatest : NumericType → Value
  | int32 => .int32 Int32.maxValue
  | int64 => .int64 Int64.maxValue
  | float32 => .float32 (.infinity false)
  | float64 => .float64 (.infinity false)

end NumericType

def Value.add? : Value → Value → Option Value
  | .int32 a, .int32 b => (Integer.int32? (a.toInt + b.toInt)).map .int32
  | .int64 a, .int64 b => (Integer.int64? (a.toInt + b.toInt)).map .int64
  | .float32 a, .float32 b => some (.float32 (a + b))
  | .float64 a, .float64 b => some (.float64 (a + b))
  | _, _ => none

inductive Extreme
  | min | max
  deriving DecidableEq

namespace Extreme

def name : Extreme → String
  | min => "MIN"
  | max => "MAX"

def better : Extreme → Ordering
  | min => .lt
  | max => .gt

def seed : Extreme → NumericType → Value
  | min, t => t.greatest
  | max, t => t.least

end Extreme

inductive Accumulator
  | count (args : List Nat) (n : Nat)
  | sum (arg : Nat) (type : NumericType) (total : Value) (seen zeroWhenEmpty : Bool)
  /-- The extreme number so far; a value that has no order is passed over. -/
  | pick (extreme : Extreme) (arg : Nat) (type : NumericType) (current : Value) (seen : Bool)
  | best (extreme : Extreme) (arg : Nat) (current : Option Value)
  | program (program : Program) (state : List Value)
  | user (name : String) (arg : Nat) (entry : UserAggregate.Entry) (kept : List Value)
      (state : Value) (contributed : Bool)
  | filtered (column : Nat) (inner : Accumulator)

namespace Accumulator

def argument (row : Row) (arg : Nat) : Except Error Value :=
  match row[arg]? with
  | some v => .ok v
  | none => .error (.execution (.argumentMissing arg row.length))

def typed (t : NumericType) (function : String) (v : Value) : Except Error (Option Value) :=
  if v.isNull then .ok none
  else if v.dataType = t.dataType then .ok (some v)
  else .error (.accumulator (.unexpected function v))

def userError (name step : String) : Error → Error
  | .accumulator f => .accumulator f
  | .userStep f s e => .userStep f s e
  | .cancelled => .cancelled
  | e => .userStep name step e

def allPresent (row : Row) : List Nat → Except Error Bool
  | [] => .ok true
  | arg :: rest => do
    if (← argument row arg).isNull then return false
    allPresent row rest

def addRow (p : Program) (state : List Value) (row : Row) : Except Error (List Value) :=
  if row.length = p.inputWidth then Program.step p.add (row ++ state)
  else .error (.execution (.aggregateRow p.inputWidth row.length))

def passes (column : Nat) (row : Row) : Except Error Bool :=
  match row[column]? with
  | some (.boolean b) => .ok b
  | some .null => .ok false
  | some v => .error (.execution (.filterValue column v))
  | none => .error (.execution (.filterMissing column row.length))

def send : Accumulator → Row → Except Error Accumulator
  | count args n, row => do
    return .count args (if ← allPresent row args then n + 1 else n)
  | sum arg t total seen zeroWhenEmpty, row => do
    match ← typed t "SUM" (← argument row arg) with
    | none => return .sum arg t total seen zeroWhenEmpty
    | some v =>
      match total.add? v with
      | some total => return .sum arg t total true zeroWhenEmpty
      | none => throw (.accumulator (.sumOverflow v))
  | pick extreme arg t current seen, row => do
    match ← typed t extreme.name (← argument row arg) with
    | none => return .pick extreme arg t current seen
    | some v =>
      let better := v.compare? current = some extreme.better
      return .pick extreme arg t (if better then v else current) true
  | best extreme arg current, row => do
    let v ← argument row arg
    if v.isNull then return .best extreme arg current
    match current with
    | none => return .best extreme arg (some v)
    | some b =>
      match v.compare? b with
      | none => throw (.accumulator (.incomparable v b))
      | some o => return .best extreme arg (some (if o = extreme.better then v else b))
  | program p state, row => do return .program p (← addRow p state row)
  | user name arg entry kept state contributed, row => do
    let v ← argument row arg
    if v.isNull then return .user name arg entry kept state contributed
    let (kept, state) ← (entry.aggregate.add kept state v).mapError (userError name "add")
    return .user name arg entry kept state true
  | filtered column inner, row => do
    if ← passes column row then return .filtered column (← inner.send row)
    return .filtered column inner

/-- What is left after a row was refused: a user-defined aggregate has lost its state. -/
def afterRefusal : Accumulator → Row → Accumulator
  | user name arg entry kept state contributed, row =>
    let lost := match argument row arg with
      | .ok v => !v.isNull
      | .error _ => false
    .user name arg entry kept (if lost then .null else state) contributed
  | filtered column inner, row =>
    match passes column row with
    | .ok true => .filtered column (inner.afterRefusal row)
    | _ => .filtered column inner
  | acc, _ => acc

def finish : Accumulator → Except Error Value
  | count _ n => .ok (.int64 (.ofNat n))
  | sum _ _ total seen zeroWhenEmpty => .ok (if seen || zeroWhenEmpty then total else .null)
  | pick _ _ _ current seen => .ok (if seen then current else .null)
  | best _ _ current => .ok (current.getD .null)
  | program p state => p.result.eval state
  | user name _ entry kept state contributed =>
    if entry.nullWhenEmpty && !contributed then .ok .null
    else (entry.aggregate.result kept state).mapError (userError name "result")
  | filtered _ inner => inner.finish

def sendAll (acc : Accumulator) : List Row → Except Error Unit × Accumulator
  | [] => (.ok (), acc)
  | row :: rest =>
    match acc.send row with
    | .ok acc => acc.sendAll rest
    | .error e => (.error e, acc.afterRefusal row)

def mergeStates (p : Program) (state other : List Value) : Except Error (List Value) :=
  if state.length = other.length then Program.step p.merge (state ++ other)
  else .error (.accumulator .differentAggregates)

end Accumulator

inductive Recipe
  | count (args : List Nat)
  | sum (arg : Nat) (type : DataType) (zeroWhenEmpty : Bool)
  | pick (extreme : Extreme) (arg : Nat) (type : DataType)
  | program (program : Program)
  | user (name : String) (arg : Nat) (entry : UserAggregate.Entry)

namespace Recipe

def name : Recipe → String
  | count _ => "count"
  | sum .. => "sum"
  | pick .. => "pick"
  | program _ => "compiled"
  | user .. => "user"

def userArgument (name : String) : List Nat → Except Error Nat
  | [arg] => .ok arg
  | args => .error (.planning (.userArguments name args.length))

def typeOf (input : Schema) (arg : Nat) : DataType :=
  (input[arg]?.map (·.type.dataType)).getD .null

def ofCall (c : AggregateCall) (input : Schema) (registry : UserAggregate.Registry) :
    Except Error Recipe := do
  match (c.args ++ c.filter.toList).find? (input.length ≤ ·) with
  | some i => throw (.invalidShape (.callColumn c.text i input.length))
  | none => pure ()
  match c.function with
  | .count => return .count c.args
  | .sum => let arg ← c.onlyArgument; return .sum arg (typeOf input arg) false
  | .sum0 => let arg ← c.onlyArgument; return .sum arg (typeOf input arg) true
  | .min => let arg ← c.onlyArgument; return .pick .min arg (typeOf input arg)
  | .max => let arg ← c.onlyArgument; return .pick .max arg (typeOf input arg)
  | .avg | .boolAnd | .boolOr | .anyValue =>
    return .program (← Program.ofCall c input)
  | .user name =>
    match registry.find? name with
    | none => throw (.planning (.unknownAggregate name))
    | some entry => return .user name (← userArgument name c.args) entry

def make : Recipe → Except Error Accumulator
  | count args => .ok (.count args 0)
  | sum arg type zeroWhenEmpty =>
    match NumericType.ofDataType? type with
    | some t => .ok (.sum arg t t.zero false zeroWhenEmpty)
    | none => .error (.invalidShape (.nonNumeric "SUM" type))
  | pick extreme arg type =>
    match NumericType.ofDataType? type with
    | some t => .ok (.pick extreme arg t (extreme.seed t) false)
    | none => .ok (.best extreme arg none)
  | program p => .ok (.program p p.start)
  | user name arg entry => do
    let state ← entry.aggregate.init.mapError (Accumulator.userError name "init")
    return .user name arg entry [] state false

end Recipe

structure CallPlan where
  recipe : Recipe
  filter : Option Nat

namespace CallPlan

def ofCall (c : AggregateCall) (input : Schema) (registry : UserAggregate.Registry) :
    Except Error CallPlan := do
  return ⟨← Recipe.ofCall c input registry, c.filter⟩

def describe (p : CallPlan) : String :=
  let filter := p.filter.elim "None" fun i => s!"Some({i})"
  "AccumulatorFactory \x7b strategy: \"" ++ p.recipe.name ++ "\", filter_arg: " ++ filter ++ " \x7d"

def start (p : CallPlan) : Except Error Accumulator := do
  let inner ← p.recipe.make
  return p.filter.elim inner fun column => .filtered column inner

end CallPlan
end Relational
