import Relational.Binary.Arithmetic

/-!
# Quantities

The arithmetic of estimates. Rules are written over any `Quantity`; estimates are computed in
doubles.
-/
namespace Relational.Metadata

class Quantity (Q : Type) extends Add Q, Sub Q, Mul Q, Div Q where
  ofNat : Nat → Q
  /-- The neutral element of addition; for floats it is the negative zero. -/
  neutral : Q
  infinity : Q
  decay : Q → Q
  log2 : Q → Q
  lt : Q → Q → Bool
  le : Q → Q → Bool
  isInfinite : Q → Bool
  least : Q → Q → Q
  greatest : Q → Q → Q

namespace Quantity
variable {Q : Type} [Quantity Q]

def zero : Q := ofNat 0
def one : Q := ofNat 1
def ratio (a b : Nat) : Q := ofNat a / ofNat b

def isZero (x : Q) : Bool := le x zero && le zero x
def isPositive (x : Q) : Bool := lt zero x
def atLeastZero (x : Q) : Q := greatest zero x

def unit (x : Q) : Q := if lt x zero then zero else if lt one x then one else x

def sum (xs : List Q) : Q := xs.foldl (· + ·) neutral

def times (x y : Q) : Q := if isZero x || isZero y then zero else x * y

def share (part whole : Q) : Q := if isZero whole then one else unit (part / whole)

end Quantity

instance : Quantity Binary64 where
  ofNat n := .ofInt n
  neutral := .zero true
  infinity := .infinity false
  decay x := Binary64.exp x.neg
  log2 := Binary64.log2
  lt := Binary.Word.lt
  le := Binary.Word.le
  isInfinite x := match x.datum with | .infinite _ => true | _ => false
  least := Binary.Word.least
  greatest := Binary.Word.greatest

end Relational.Metadata
