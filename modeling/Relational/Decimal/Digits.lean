import Relational.Binary.Format

/-!
# Decimal digits of words

`Decimal.shortest` picks the fewest digits that read back to the same word, and of those the
nearest to it. `Decimal.word` reads digits back: one rounding of the exact ratio.
-/
namespace Relational

structure Decimal where
  coefficient : Nat
  exponent : Int
  deriving DecidableEq

namespace Decimal
open Binary

inductive Tie
  | up
  | even

def tenfold (n : Nat) (e : Int) : Nat := n * Nat.pow 10 e.toNat

/-- The numbers that round to a word, all over one denominator. -/
structure Interval where
  low : Nat
  value : Nat
  high : Nat
  denominator : Nat
  closed : Bool

/-- Half a unit in the last place to each side; below a power of two the units are finer. -/
def Interval.around (f : Format) (significand : Nat) (exponent : Int) : Interval :=
  let unit := exponent - 2
  let below := if significand = Nat.pow 2 f.fraction ∧ f.leastExponent < exponent then 1 else 2
  { low := scaleUp (4 * significand - below) unit
    value := scaleUp (4 * significand) unit
    high := scaleUp (4 * significand + 2) unit
    denominator := scaleUp 1 (-unit)
    closed := significand % 2 == 0 }

def Interval.candidate? (i : Interval) (tie : Tie) (p : Int) : Option Decimal :=
  let den := tenfold i.denominator p
  let inside (d : Nat) : Bool :=
    let x := d * den
    if i.closed then tenfold i.low (-p) ≤ x && x ≤ tenfold i.high (-p)
    else tenfold i.low (-p) < x && x < tenfold i.high (-p)
  let value := tenfold i.value (-p)
  let d := value / den
  let twice := 2 * (value % den)
  let upper : Bool := match tie with
    | .up => den ≤ twice
    | .even => den < twice || (twice == den && d % 2 == 1)
  let (first, second) := if upper then (d + 1, d) else (d, d + 1)
  if inside first then some ⟨first, p⟩
  else if inside second then some ⟨second, p⟩
  else none

def leadingPower (significand : Nat) (exponent : Int) : Int :=
  (significand.log2 + 1 + exponent) * 30103 / 100000 + 1

/-- Grids are tried from coarse to fine; seventeen digits always suffice. -/
def shortest (f : Format) (tie : Tie) (significand : Nat) (exponent : Int) : Decimal :=
  if significand = 0 then ⟨0, 0⟩ else
  let i := Interval.around f significand exponent
  let top := leadingPower significand exponent
  ((List.range 20).findSome? fun (k : Nat) => i.candidate? tie (top - k)).getD ⟨significand, 0⟩

/-- The word nearest to the decimal. Far outside the range the power of ten is not computed. -/
def word (f : Format) (negative : Bool) (d : Decimal) : Word f :=
  let limit : Int := f.bias + f.fraction
  let leading : Int := d.coefficient.log2 + d.exponent
  if d.coefficient = 0 then .zero negative
  else if limit < d.exponent then .infinity negative
  else if leading < -limit then .zero negative
  else .round negative (tenfold d.coefficient d.exponent) (tenfold 1 (-d.exponent))

end Decimal
end Relational
