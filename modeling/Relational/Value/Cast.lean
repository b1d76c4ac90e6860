import Relational.Decimal.Reader
import Relational.Error
import Relational.Integer
import Relational.Text.Blank

/-!
# Casts

Conversion of a value to a data type. Null stays null; a conversion to an integer type is exact
or fails.
-/
namespace Relational.Value

open Integer (least64 greatest64 int32? int64?)

/-- Toward zero; one past the greatest integer is still read as the greatest. -/
def integerOfFloat? (x : Binary64) : Option Int :=
  if (Binary.Word.ofInt least64).le x && x.le (.ofInt greatest64) then
    x.truncate?.map (min greatest64)
  else none

def castInteger? : Value → Option Int
  | boolean b => some (if b then 1 else 0)
  | float32 x => integerOfFloat? (x.convert Binary.double)
  | float64 x => integerOfFloat? x
  | utf8 s => Decimal.readInt? least64 greatest64 (Text.trim s)
  | v => v.integer?

def castNumber? : Value → Option Binary64
  | boolean b => some (if b then 1 else 0)
  | utf8 s => Decimal.readWord? Binary.double (Text.trim s)
  | v => v.number?

def castBoolean? : Value → Option Bool
  | boolean b => some b
  | utf8 s =>
    let s := Text.lower s
    if s == "true" then some true else if s == "false" then some false else none
  | v => v.number?.map fun x => !x.equals 0

def castTo? (v : Value) : DataType → Option Value
  | .null => some .null
  | .boolean => v.castBoolean?.map .boolean
  | .int32 => (v.castInteger?.bind int32?).map .int32
  | .int64 => (v.castInteger?.bind int64?).map .int64
  | .float32 => v.castNumber?.map (.float32 <| ·.convert Binary.single)
  | .float64 => v.castNumber?.map .float64
  | .utf8 | .largeUtf8 => some (.utf8 v.text)
  | _ => none

def isCastTarget : DataType → Bool
  | .null | .boolean | .int32 | .int64 | .float32 | .float64 | .utf8 | .largeUtf8 => true
  | _ => false

def castTo (v : Value) (target : DataType) : Except Error Value :=
  if v.isNull then .ok .null
  else if !isCastTarget target then .error (.unsupported (.cast target))
  else match v.castTo? target with
    | some w => .ok w
    | none => .error (.execution (.cast v target))

end Relational.Value
