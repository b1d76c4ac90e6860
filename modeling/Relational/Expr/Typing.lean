import Relational.Expr.Basic

/-!
# Checked construction of expressions

`Expr.mkCall` computes the type of a call from its operands, or says why there is none.
-/
namespace Relational.Expr

def requireCount (op : Op) (expected : Nat) (operands : List Expr) : Except Error Unit :=
  require (operands.length == expected) (.operandCount op expected operands.length)

def requireBoolean (e : Expr) : Except Error Unit :=
  require (e.dataType == .boolean || e.dataType == .null) (.booleanOperand e.dataType e.text)

def unifyTypes (types : List DataType) : Except Error DataType :=
  match DataType.unify types with
  | .ok t => .ok t
  | .error (a, b) => .error (.invalidShape (.noCommonType a b))

/-- A null operand takes the type of the other one; a quotient is a double. -/
def arithmeticType (a : Arithmetic) (l r : DataType) : Except Error DataType := do
  let fits (t : DataType) : Bool := t.isNumeric || t == .null
  require (fits l && fits r) (.arithmeticOperands l r)
  if a = .divide then return .float64
  if l = .null then return r
  return (l.wider? r).getD l

def caseBranches : List Expr → List Expr × List Expr
  | condition :: result :: rest =>
    let (conditions, results) := caseBranches rest
    (condition :: conditions, result :: results)
  | rest => ([], rest)

def callType (op : Op) (operands : List Expr) : Except Error SqlType :=
  let anyNullable := operands.any (·.nullable)
  match op with
  | .compare _ =>
    match operands with
    | [l, r] => do
      require (l.dataType.comparable r.dataType) (.incomparable l.dataType r.dataType)
      return .boolean anyNullable
    | _ => .error (.invalidShape (.operandCount op 2 operands.length))
  | .arith a =>
    match operands with
    | [l, r] => do return ⟨← arithmeticType a l.dataType r.dataType, anyNullable⟩
    | _ => .error (.invalidShape (.operandCount op 2 operands.length))
  | .and | .or => do
    require (2 ≤ operands.length) (.tooFewOperands op)
    operands.forM requireBoolean
    return .boolean anyNullable
  | .not => do
    requireCount op 1 operands
    operands.forM requireBoolean
    return .boolean anyNullable
  | .isNull | .isNotNull => do
    requireCount op 1 operands
    return .boolean false
  | .isIn =>
    match operands with
    | probe :: candidate :: rest => do
      (candidate :: rest).forM fun c =>
        require (probe.dataType.comparable c.dataType) (.candidate c.dataType probe.dataType)
      return .boolean anyNullable
    | _ => .error (.invalidShape .noCandidates)
  | .case => do
    require (3 ≤ operands.length && operands.length % 2 == 1) (.caseOperands operands.length)
    let (conditions, results) := caseBranches operands
    conditions.forM requireBoolean
    return ⟨← unifyTypes (results.map dataType), results.any (·.nullable)⟩
  | .coalesce => do
    require (!operands.isEmpty) .noAlternatives
    return ⟨← unifyTypes (operands.map dataType), operands.all (·.nullable)⟩
  | .cast => .error (.planning .castTarget)

def mkCall (op : Op) (operands : List Expr) : Except Error Expr := do
  return .call op operands (← callType op operands)

def mkLiteral (v : Value) : Expr := .literal v ⟨v.dataType, v.isNull⟩

def mkTypedLiteral (v : Value) (t : SqlType) : Except Error Expr :=
  if v.isNull || v.dataType == t.dataType then .ok (.literal v t)
  else .error (.invalidShape (.literalType v t))

def mkColumn (schema : Schema) (i : Nat) : Except Error Expr :=
  match schema[i]? with
  | some field => .ok (.column i field.type)
  | none => .error (.invalidShape (.columnIndex i schema.length))

def mkCast (e : Expr) (target : DataType) : Expr := .call .cast [e] ⟨target, e.nullable⟩

def conjunction : List Expr → Except Error Expr
  | [] => .ok (mkLiteral (.boolean true))
  | [e] => .ok e
  | exprs => mkCall .and exprs

end Relational.Expr
