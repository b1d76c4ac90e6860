import Relational.Aggregation.Accumulator
import Relational.Plan.Basic

/-!
# Grouping

Rows are collected into groups, separately for each grouping set, by the encoded values of the
set's columns. Groups keep the order in which their first rows arrived.
-/
namespace Relational.Grouping

def bigEndian (count n : Nat) : List UInt8 :=
  (List.range count).reverse.map fun i => UInt8.ofNat (n / Nat.pow 256 i)

/-- A tag byte and a payload of a length that the tag or a count in front fixes. -/
def encodeValue : Value → List UInt8
  | .null => [0]
  | .boolean b => [1, if b then 1 else 0]
  | .int32 n => 2 :: bigEndian 4 n.toBitVec.toNat
  | .int64 n => 3 :: bigEndian 8 n.toBitVec.toNat
  | .float32 x => 4 :: bigEndian 4 x.bits.toNat
  | .float64 x => 5 :: bigEndian 8 x.bits.toNat
  | .utf8 s => 6 :: bigEndian 8 s.utf8ByteSize ++ s.toUTF8.data.toList

def keyOf (columns : ColumnSet) (row : Row) : Except Error (List Value) :=
  columns.columns.mapM fun c =>
    match row[c]? with
    | some v => .ok v
    | none => .error (.execution (.groupingMissing c row.length))

def encodeKey (key : List Value) : List UInt8 := key.flatMap encodeValue

structure Group where
  code : List UInt8
  key : List Value
  accumulators : List Accumulator

def Group.open (calls : List CallPlan) (key : List Value) : Except Error Group := do
  return ⟨encodeKey key, key, ← calls.mapM CallPlan.start⟩

def Group.send (g : Group) (row : Row) : Except Error Group := do
  return { g with accumulators := ← g.accumulators.mapM fun a => a.send row }

def collect (calls : List CallPlan) (key : List Value) (row : Row) :
    List Group → Except Error (List Group)
  | [] => do return [← (← Group.open calls key).send row]
  | g :: rest => do
    if g.code = encodeKey key then return (← g.send row) :: rest
    return g :: (← collect calls key row rest)

structure SetState where
  columns : ColumnSet
  groups : List Group

def SetState.send (calls : List CallPlan) (row : Row) (s : SetState) : Except Error SetState := do
  return { s with groups := ← collect calls (← keyOf s.columns row) row s.groups }

def sendRow (calls : List CallPlan) (sets : List SetState) (row : Row) :
    Except Error (List SetState) :=
  sets.mapM (SetState.send calls row)

def start (sets : List ColumnSet) : List SetState := sets.map fun columns => ⟨columns, []⟩

/-- An empty grouping set has one group even over no rows. -/
def SetState.close (calls : List CallPlan) (s : SetState) : Except Error (List Group) :=
  if s.columns.isEmpty && s.groups.isEmpty then do return [← Group.open calls []]
  else .ok s.groups

def outputRow (all set : ColumnSet) (indicator : Bool) (g : Group) : Except Error Row := do
  let keys := all.columns.map fun c => ((set.position? c).bind fun p => g.key[p]?).getD .null
  let marks := if indicator then all.columns.map fun c => Value.boolean (set.contains c) else []
  return keys ++ marks ++ (← g.accumulators.mapM Accumulator.finish)

end Relational.Grouping
