import Relational.DataType
import Relational.Decimal.Layout
import Relational.Text.Quoted

/-!
# Values

A value is null or of one of six data types. Floats are their bits, so that equality of values
is content and they can be grouped; `compare?` is the order that predicates see, and
`sortOrder` the one that sorting uses.
-/
namespace Relational

inductive Value
  | null
  | boolean (value : Bool)
  | int32 (value : Int32)
  | int64 (value : Int64)
  | float32 (value : Binary32)
  | float64 (value : Binary64)
  | utf8 (value : String)
  deriving DecidableEq, Inhabited

abbrev Row := List Value

namespace Value

def isNull : Value → Bool
  | null => true
  | _ => false

def dataType : Value → DataType
  | null => .null
  | boolean _ => .boolean
  | int32 _ => .int32
  | int64 _ => .int64
  | float32 _ => .float32
  | float64 _ => .float64
  | utf8 _ => .utf8

def bool? : Value → Option Bool
  | boolean b => some b
  | _ => none

def integer? : Value → Option Int
  | int32 n => some n.toInt
  | int64 n => some n.toInt
  | _ => none

def number? : Value → Option Binary64
  | int32 n => some (.ofInt n.toInt)
  | int64 n => some (.ofInt n.toInt)
  | float32 x => some (x.convert Binary.double)
  | float64 x => some x
  | _ => none

def text? : Value → Option String
  | utf8 s => some s
  | _ => none

/-- The order that predicates see: none beside null, a NaN or a value of another sort. -/
def compare? (a b : Value) : Option Ordering :=
  match a, b with
  | boolean x, boolean y => some (compare x y)
  | utf8 x, utf8 y => some (compare x y)
  | a, b =>
    match a.integer?, b.integer? with
    | some x, some y => some (compare x y)
    | _, _ => do (← a.number?).compare? (← b.number?)

def sortRank : Value → Nat
  | null => 0
  | boolean _ => 1
  | int32 _ | int64 _ | float32 _ | float64 _ => 2
  | utf8 _ => 3

/-- The order that sorting uses: nulls last, values without a common order by their sort. -/
def sortOrder (a b : Value) : Ordering :=
  match a.isNull, b.isNull with
  | true, true => .eq
  | true, false => .gt
  | false, true => .lt
  | false, false => (a.compare? b).getD (compare a.sortRank b.sortRank)

def text : Value → String
  | null => "NULL"
  | boolean b => toString b
  | int32 n => toString n.toInt
  | int64 n => toString n.toInt
  | float32 x => x.text
  | float64 x => x.text
  | utf8 s => s

def literalText : Value → String
  | utf8 s => "'" ++ s.replace "'" "''" ++ "'"
  | null => "null"
  | v => v.text

def describe : Value → String
  | null => "Null"
  | boolean b => "Boolean(" ++ toString b ++ ")"
  | int32 n => "Int32(" ++ toString n.toInt ++ ")"
  | int64 n => "Int64(" ++ toString n.toInt ++ ")"
  | float32 x => "Float32(" ++ Decimal.marked.text x ++ ")"
  | float64 x => "Float64(" ++ Decimal.marked.text x ++ ")"
  | utf8 s => "Utf8(" ++ Text.quoted s ++ ")"

end Value
end Relational
