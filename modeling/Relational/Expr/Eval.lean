import Relational.Expr.Typing
import Relational.Value.Cast

/-!
# Evaluation

Compiling an expression over a schema gives its result type and a function from rows to values,
in three-valued logic: null operands give null, except where a rule below says otherwise.
Operands are evaluated from left to right and no further than needed.
-/
namespace Relational

structure Compiled where
  type : DataType
  eval : Row → Except Error Value

namespace Compiled

def truth? (what : String) : Value → Except Error (Option Bool)
  | .null => .ok none
  | .boolean b => .ok (some b)
  | v => .error (.execution (.notBoolean what v))

def ofTruth : Option Bool → Value
  | none => .null
  | some b => .boolean b

def compareValues (c : Comparison) (l r : Value) : Except Error Value :=
  match l.compare? r with
  | some o => .ok (.boolean (c.holds o))
  | none => .error (.execution (.incomparable l r))

def floatArith (a : Arithmetic) (x y : Binary64) : Except Error Binary64 :=
  match a with
  | .plus => .ok (x + y)
  | .minus => .ok (x - y)
  | .times => .ok (x * y)
  | .divide => if y.equals 0 then .error (.execution .divisionByZero) else .ok (x / y)

def intArith (a : Arithmetic) (x y : Int) : Except Error Int :=
  match a with
  | .plus => .ok (x + y)
  | .minus => .ok (x - y)
  | .times => .ok (x * y)
  | .divide => .error (.execution (.notIntegral .divide))

/-- Arithmetic is done in doubles or 64-bit integers and then narrowed to the result type. -/
def arithValues (a : Arithmetic) (out : DataType) (l r : Value) : Except Error Value :=
  match out with
  | .float32 | .float64 =>
    match l.number?, r.number? with
    | some x, some y => do (Value.float64 (← floatArith a x y)).castTo out
    | _, _ => .error (.execution (.notNumeric a l r))
  | .int32 | .int64 =>
    match l.integer?, r.integer? with
    | some x, some y => do
      let n ← intArith a x y
      let outOfRange := Error.execution (.overflow a x y)
      let some word := Integer.int64? n | throw outOfRange
      match (Value.int64 word).castTo? out with
      | some v => return v
      | none => throw outOfRange
    | _, _ => .error (.execution (.notNumeric a l r))
  | _ => .error (.unsupported (.arithmetic out))

def binary (out : DataType) (f : Value → Value → Except Error Value) (l r : Compiled) : Compiled :=
  ⟨out, fun row => do
    let x ← l.eval row
    let y ← r.eval row
    if x.isNull || y.isNull then return .null
    f x y⟩

/-- Left to right until an operand decides: false decides a conjunction, true a disjunction. -/
def evalJunction (what : String) (neutral sawNull : Bool) (row : Row) :
    List Compiled → Except Error Value
  | [] => .ok (if sawNull then .null else .boolean neutral)
  | c :: rest => do
    match ← truth? what (← c.eval row) with
    | some b => if b = neutral then evalJunction what neutral sawNull row rest else return .boolean b
    | none => evalJunction what neutral true row rest

def evalIn (probe : Value) (sawNull : Bool) (row : Row) : List Compiled → Except Error Value
  | [] => .ok (if sawNull then .null else .boolean false)
  | c :: rest => do
    let candidate ← c.eval row
    if candidate.isNull then evalIn probe true row rest
    else if probe.compare? candidate = some .eq then return .boolean true
    else evalIn probe sawNull row rest

def evalCase (out : DataType) (row : Row) : List Compiled → Except Error Value
  | condition :: result :: rest => do
    if (← truth? "CASE WHEN" (← condition.eval row)) = some true then
      (← result.eval row).castTo out
    else evalCase out row rest
  | [otherwise] => do (← otherwise.eval row).castTo out
  | [] => .ok .null

def evalCoalesce (out : DataType) (row : Row) : List Compiled → Except Error Value
  | [] => .ok .null
  | c :: rest => do
    let v ← c.eval row
    if v.isNull then evalCoalesce out row rest else v.castTo out

def call (op : Op) (operands : List Compiled) (out : DataType) : Except Error Compiled :=
  let wrongCount := Error.invalidShape (.compiledOperands op operands.length)
  match op, operands with
  | .compare c, [l, r] => .ok (binary out (compareValues c) l r)
  | .arith a, [l, r] => .ok (binary out (arithValues a out) l r)
  | .and, cs => .ok ⟨.boolean, fun row => evalJunction "AND" true false row cs⟩
  | .or, cs => .ok ⟨.boolean, fun row => evalJunction "OR" false false row cs⟩
  | .not, [c] => .ok ⟨.boolean, fun row => do
      return ofTruth ((← truth? "NOT" (← c.eval row)).map (!·))⟩
  | .isNull, [c] => .ok ⟨.boolean, fun row => do return .boolean (← c.eval row).isNull⟩
  | .isNotNull, [c] => .ok ⟨.boolean, fun row => do return .boolean !(← c.eval row).isNull⟩
  | .isIn, probe :: c :: cs => .ok ⟨.boolean, fun row => do
      let v ← probe.eval row
      if v.isNull then return .null
      evalIn v false row (c :: cs)⟩
  | .case, cs =>
    if cs.length < 3 || cs.length % 2 == 0 then .error wrongCount
    else .ok ⟨out, fun row => evalCase out row cs⟩
  | .coalesce, cs => .ok ⟨out, fun row => evalCoalesce out row cs⟩
  | .cast, [c] => .ok ⟨out, fun row => do (← c.eval row).castTo out⟩
  | _, _ => .error wrongCount

end Compiled

namespace Expr

mutual
def compile (schema : Schema) : Expr → Except Error Compiled
  | column i _ =>
    match schema[i]? with
    | none => .error (.invalidShape (.compiledColumn i schema.length))
    | some field => .ok ⟨field.type.dataType, fun row =>
        match row[i]? with
        | some v => .ok v
        | none => .error (.execution (.missingColumn i row.length))⟩
  | literal v t => .ok ⟨t.dataType, fun _ => .ok v⟩
  | correlation id _ => .error (.unsupported (.correlation id))
  | tableColumn .. => .error (.invalidShape .compiledTableReference)
  | call op operands t => do Compiled.call op (← compileAll schema operands) t.dataType

def compileAll (schema : Schema) : List Expr → Except Error (List Compiled)
  | [] => .ok []
  | e :: rest => do return (← compile schema e) :: (← compileAll schema rest)
end

end Expr
end Relational
