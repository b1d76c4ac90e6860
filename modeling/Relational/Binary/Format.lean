/-!
# Binary floating-point words

A finite word is a signed natural number times a power of two. `Word.round` is the only way
from an exact ratio back to a word: to the nearest one, ties to the even significand.
-/
namespace Relational.Binary

/-- Widths of the fraction and exponent fields; one sign bit comes on top. -/
structure Format where
  fraction : Nat
  exponent : Nat
  deriving DecidableEq

def single : Format := ⟨23, 8⟩
def double : Format := ⟨52, 11⟩

/-- What a word stands for: a finite one for `± significand * 2 ^ exponent`. -/
inductive Datum
  | nan (negative : Bool)
  | infinite (negative : Bool)
  | finite (negative : Bool) (significand : Nat) (exponent : Int)
  deriving DecidableEq

namespace Format

def width (f : Format) : Nat := f.fraction + f.exponent + 1
def signBit (f : Format) : Nat := Nat.pow 2 (f.fraction + f.exponent)
def infinity (f : Format) : Nat := (Nat.pow 2 f.exponent - 1) * Nat.pow 2 f.fraction
def bias (f : Format) : Nat := Nat.pow 2 (f.exponent - 1)

def leastExponent (f : Format) : Int := 2 - f.bias - f.fraction

def datum (f : Format) (bits : Nat) : Datum :=
  let negative := decide (f.signBit ≤ bits)
  let fraction := bits % Nat.pow 2 f.fraction
  let field := bits / Nat.pow 2 f.fraction % Nat.pow 2 f.exponent
  if field = Nat.pow 2 f.exponent - 1 then
    if fraction = 0 then .infinite negative else .nan negative
  else if field = 0 then .finite negative fraction f.leastExponent
  else .finite negative (Nat.pow 2 f.fraction + fraction) (f.leastExponent + field - 1)

/-- The fraction of a NaN in another format: filled up or cut off on the right, and that of the NaN
which operations yield if nothing is left of it. -/
def payload (f g : Format) (fraction : Nat) : Nat :=
  let kept := fraction * Nat.pow 2 g.fraction / Nat.pow 2 f.fraction
  if kept = 0 then Nat.pow 2 (g.fraction - 1) else kept

end Format

def nearestQuotient (num den : Nat) : Nat :=
  let q := num / den
  let twice := 2 * (num % den)
  if den < twice ∨ (twice = den ∧ q % 2 = 1) then q + 1 else q

def scaleUp (n : Nat) (e : Int) : Nat := n * Nat.pow 2 e.toNat

/-- The bits of the magnitude nearest to `num / den`, infinity from the overflow threshold on.
Counting in units of the last place, a carry into the next binade is an ordinary increment. -/
def Format.magnitude (f : Format) (num den : Nat) : Nat :=
  if num = 0 then 0 else
  let estimate : Int := (num.log2 : Int) - den.log2 - 1 - f.fraction
  let fits (q : Int) : Bool := scaleUp num (-q) / scaleUp den q < Nat.pow 2 (f.fraction + 1)
  let q := max (if fits estimate then estimate else estimate + 1) f.leastExponent
  let significand := nearestQuotient (scaleUp num (-q)) (scaleUp den q)
  min (((q - f.leastExponent).toNat) * Nat.pow 2 f.fraction + significand) f.infinity

structure Word (f : Format) where
  bits : BitVec f.width
  deriving DecidableEq

namespace Word
variable {f : Format}

def ofNat (f : Format) (negative : Bool) (magnitude : Nat) : Word f :=
  ⟨BitVec.ofNat _ (if negative then f.signBit + magnitude else magnitude)⟩

def zero (negative : Bool) : Word f := .ofNat f negative 0
def infinity (negative : Bool) : Word f := .ofNat f negative f.infinity
def nan (negative : Bool) : Word f := .ofNat f negative (f.infinity + Nat.pow 2 (f.fraction - 1))

def undefined : Word f := .nan true

def datum (x : Word f) : Datum := f.datum x.bits.toNat

def round (negative : Bool) (num den : Nat) : Word f :=
  .ofNat f negative (f.magnitude num den)

def ofScaled (v e : Int) (zeroSign : Bool) : Word f :=
  if v = 0 then .zero zeroSign
  else .round (decide (v < 0)) (scaleUp v.natAbs e) (scaleUp 1 (-e))

def ofInt (v : Int) : Word f := .ofScaled v 0 false

instance : OfNat (Word f) n := ⟨.ofInt n⟩

/-- The word of another format nearest to `x`; a NaN keeps its sign and its payload. -/
def convert (g : Format) (x : Word f) : Word g :=
  match x.datum with
  | .nan s => .ofNat g s (g.infinity + f.payload g (x.bits.toNat % Nat.pow 2 f.fraction))
  | .infinite s => .infinity s
  | .finite s m e => .round s (scaleUp m e) (scaleUp 1 (-e))

def isNaN (x : Word f) : Bool := match x.datum with | .nan _ => true | _ => false
def isFinite (x : Word f) : Bool := match x.datum with | .finite .. => true | _ => false

/-- Position on the number line: order-preserving, and one for both zeros. -/
def rank (x : Word f) : Int :=
  if f.signBit ≤ x.bits.toNat then -(x.bits.toNat - f.signBit : Nat) else x.bits.toNat

def compare? (x y : Word f) : Option Ordering :=
  if x.isNaN || y.isNaN then none else some (compare x.rank y.rank)

def lt (x y : Word f) : Bool := x.compare? y == some .lt
def le (x y : Word f) : Bool := x.lt y || x.compare? y == some .eq
def equals (x y : Word f) : Bool := x.compare? y == some .eq

def truncate? (x : Word f) : Option Int :=
  match x.datum with
  | .finite s m e =>
    let n : Nat := scaleUp m e / scaleUp 1 (-e)
    some (if s then -n else n)
  | _ => none

end Word

end Relational.Binary
