import Relational.ColumnSet
import Relational.Error

/-!
# Scalar expressions

Typed trees over the columns of a row. The type of a node is part of it; `Expr.Typing` says
which type a call gets. `substitute` replaces the references to columns.
-/
namespace Relational

/-- One of the places where a plan scans a table. -/
structure TableOccurrence where
  table : String
  number : Nat
  deriving DecidableEq

def TableOccurrence.text (t : TableOccurrence) : String := s!"[{t.table}]:{t.number}"

inductive Expr
  | literal (value : Value) (type : SqlType)
  | column (index : Nat) (type : SqlType)
  | call (op : Op) (operands : List Expr) (type : SqlType)
  | correlation (id : Nat) (type : SqlType)
  | tableColumn (table : TableOccurrence) (column : Nat) (type : SqlType)

namespace Expr

instance : Inhabited Expr := ⟨.literal .null ⟨.null, true⟩⟩

mutual
def decEq : (a b : Expr) → Decidable (a = b)
  | literal v t, literal w u => decidable_of_iff (v = w ∧ t = u) (by simp)
  | column i t, column j u => decidable_of_iff (i = j ∧ t = u) (by simp)
  | call p xs t, call q ys u =>
    have := decEqList xs ys
    decidable_of_iff (p = q ∧ xs = ys ∧ t = u) (by simp)
  | correlation i t, correlation j u => decidable_of_iff (i = j ∧ t = u) (by simp)
  | tableColumn a i t, tableColumn b j u => decidable_of_iff (a = b ∧ i = j ∧ t = u) (by simp)
  | literal .., column .. | literal .., call .. | literal .., correlation ..
  | literal .., tableColumn .. | column .., literal .. | column .., call ..
  | column .., correlation .. | column .., tableColumn .. | call .., literal ..
  | call .., column .. | call .., correlation .. | call .., tableColumn ..
  | correlation .., literal .. | correlation .., column .. | correlation .., call ..
  | correlation .., tableColumn .. | tableColumn .., literal .. | tableColumn .., column ..
  | tableColumn .., call .. | tableColumn .., correlation .. => isFalse (by simp)

def decEqList : (xs ys : List Expr) → Decidable (xs = ys)
  | [], [] => isTrue rfl
  | [], _ :: _ | _ :: _, [] => isFalse (by simp)
  | x :: xs, y :: ys =>
    have := decEq x y
    have := decEqList xs ys
    decidable_of_iff (x = y ∧ xs = ys) (by simp)
end

instance : DecidableEq Expr := decEq

def type : Expr → SqlType
  | literal _ t | column _ t | call _ _ t | correlation _ t | tableColumn _ _ t => t

def dataType (e : Expr) : DataType := e.type.dataType
def nullable (e : Expr) : Bool := e.type.nullable

def literal? : Expr → Option Value
  | literal v _ => some v
  | _ => none

def column? : Expr → Option Nat
  | column i _ => some i
  | _ => none

def call? : Expr → Option (Op × List Expr)
  | call op operands _ => some (op, operands)
  | _ => none

mutual
def text : Expr → String
  | literal v _ => v.literalText
  | column i _ => s!"${i}"
  | correlation id _ => s!"$cor{id}"
  | tableColumn t c _ => s!"{t.text}.${c}"
  | call .cast operands t => "CAST(" ++ ", ".intercalate (texts operands) ++ "):" ++ t.dataType.name
  | call op operands _ => op.symbol ++ "(" ++ ", ".intercalate (texts operands) ++ ")"

def texts : List Expr → List String
  | [] => []
  | e :: rest => e.text :: texts rest
end

mutual
/-- The text with a placeholder of the declared type for every literal. -/
def skeleton : Expr → String
  | literal _ t => "?:" ++ t.dataType.name
  | call .cast operands t =>
    "CAST(" ++ ", ".intercalate (skeletons operands) ++ "):" ++ t.dataType.name
  | call op operands _ => op.symbol ++ "(" ++ ", ".intercalate (skeletons operands) ++ ")"
  | e => e.text

def skeletons : List Expr → List String
  | [] => []
  | e :: rest => e.skeleton :: skeletons rest
end

mutual
def readings : Expr → List (Nat × SqlType)
  | column i t => [(i, t)]
  | call _ operands _ => readingsOf operands
  | _ => []

def readingsOf : List Expr → List (Nat × SqlType)
  | [] => []
  | e :: rest => e.readings ++ readingsOf rest
end

def references (e : Expr) : List Nat := e.readings.map (·.1)

def columnsRead (e : Expr) : ColumnSet := .ofList e.references

mutual
def conjuncts : Expr → List Expr
  | call .and operands _ => conjunctsOf operands
  | e => [e]

def conjunctsOf : List Expr → List Expr
  | [] => []
  | e :: rest => e.conjuncts ++ conjunctsOf rest
end

mutual
def substitute {ε : Type} (f : Nat → SqlType → Except ε Expr) : Expr → Except ε Expr
  | column i t => f i t
  | call op operands t => do return .call op (← substituteAll f operands) t
  | e => .ok e

def substituteAll {ε : Type} (f : Nat → SqlType → Except ε Expr) :
    List Expr → Except ε (List Expr)
  | [] => .ok []
  | e :: rest => do return (← substitute f e) :: (← substituteAll f rest)
end

mutual
def validate (schema : Schema) : Expr → Except Error Unit
  | column i t =>
    match schema[i]? with
    | none => .error (.invalidShape (.reference i schema.length))
    | some field =>
      if field.type.dataType = t.dataType then .ok ()
      else .error (.invalidShape (.referenceType i t.dataType field.type.dataType field.name))
  | call _ operands _ => validateAll schema operands
  | literal .. | correlation .. => .ok ()
  | tableColumn .. => .error (.invalidShape .tableReference)

def validateAll (schema : Schema) : List Expr → Except Error Unit
  | [] => .ok ()
  | e :: rest => do validate schema e; validateAll schema rest
end

end Expr
end Relational
