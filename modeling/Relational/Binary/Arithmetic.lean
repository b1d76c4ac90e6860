import Relational.Binary.Format

/-!
# Arithmetic on words

Each operation is exact on the data and rounds once. A NaN operand is passed on, the first one
if both are; a result without a value is `Word.undefined`.
-/
namespace Relational.Binary.Word
variable {f : Format}

def signedInt (negative : Bool) (n : Nat) : Int := if negative then -n else n

def add (x y : Word f) : Word f :=
  match x.datum, y.datum with
  | .nan _, _ => x
  | _, .nan _ => y
  | .infinite s, .infinite t => if s = t then .infinity s else .undefined
  | .infinite s, .finite .. => .infinity s
  | .finite .., .infinite t => .infinity t
  | .finite s m e, .finite t n d =>
    let low := min e d
    .ofScaled (signedInt s (scaleUp m (e - low)) + signedInt t (scaleUp n (d - low))) low (s && t)

def neg (x : Word f) : Word f := ⟨x.bits ^^^ BitVec.ofNat _ f.signBit⟩

def sub (x y : Word f) : Word f := if y.isNaN then x.add y else x.add y.neg

def mul (x y : Word f) : Word f :=
  match x.datum, y.datum with
  | .nan _, _ => x
  | _, .nan _ => y
  | .infinite s, .infinite t => .infinity (s ^^ t)
  | .infinite s, .finite t n _ => if n = 0 then .undefined else .infinity (s ^^ t)
  | .finite s m _, .infinite t => if m = 0 then .undefined else .infinity (s ^^ t)
  | .finite s m e, .finite t n d =>
    .round (s ^^ t) (scaleUp (m * n) (e + d)) (scaleUp 1 (-(e + d)))

def div (x y : Word f) : Word f :=
  match x.datum, y.datum with
  | .nan _, _ => x
  | _, .nan _ => y
  | .infinite _, .infinite _ => .undefined
  | .infinite s, .finite t .. => .infinity (s ^^ t)
  | .finite s .., .infinite t => .zero (s ^^ t)
  | .finite s m e, .finite t n d =>
    if n = 0 then if m = 0 then .undefined else .infinity (s ^^ t)
    else .round (s ^^ t) (scaleUp m (e - d)) (scaleUp n (d - e))

def least (x y : Word f) : Word f :=
  if x.isNaN then y else if y.isNaN then x else if y.lt x then y else x

def greatest (x y : Word f) : Word f :=
  if x.isNaN then y else if y.isNaN then x else if x.lt y then y else x

def clamp (x low high : Word f) : Word f :=
  if x.lt low then low else if high.lt x then high else x

instance : Add (Word f) := ⟨add⟩
instance : Sub (Word f) := ⟨sub⟩
instance : Mul (Word f) := ⟨mul⟩
instance : Div (Word f) := ⟨div⟩

end Relational.Binary.Word

namespace Relational

abbrev Binary32 := Binary.Word Binary.single
abbrev Binary64 := Binary.Word Binary.double

namespace Binary64

private def toMachine (x : Binary64) : Float := Float.ofBits ⟨x.bits⟩
private def ofMachine (x : Float) : Binary64 := ⟨x.toBits.toBitVec⟩

/-- The machine's exponential function. -/
def exp (x : Binary64) : Binary64 := ofMachine (toMachine x).exp

def log2 (x : Binary64) : Binary64 := ofMachine (toMachine x).log2

end Binary64
end Relational
