import Relational.Binary.Arithmetic
import Relational.Decimal.Digits

/-!
# Number text

`Layout` holds the choices of a written form: which magnitudes are positional, how a whole
number is marked, which way a tie between two shortest forms goes.
-/
namespace Relational.Decimal

open Binary (Format single)

structure Layout where
  tie : Tie
  positional : Option (Int × Int)
  whole : String
  exponentSign : String := ""

def plain : Layout := { tie := .up, positional := none, whole := "" }

def marked : Layout := { tie := .up, positional := some (-4, 15), whole := ".0" }

def tabular (f : Format) : Layout :=
  { tie := .even, positional := some (if f = single then (-6, 12) else (-5, 15)), whole := ".0" }

def documented (f : Format) : Layout := { tabular f with exponentSign := "+" }

def zeros (n : Nat) : String := String.ofList (List.replicate n '0')

def positionalText (digits : List Char) (exponent : Int) (whole : String) : String :=
  if 0 ≤ exponent then String.ofList digits ++ zeros exponent.toNat ++ whole
  else
    let places := exponent.natAbs
    let padded := List.replicate (places + 1 - digits.length) '0' ++ digits
    let split := padded.length - places
    String.ofList (padded.take split) ++ "." ++ String.ofList (padded.drop split)

private def exponentText (digits : List Char) (leading : Int) (sign : String) : String :=
  let mantissa := match digits with
    | [d] => [d]
    | d :: rest => d :: '.' :: rest
    | [] => []
  String.ofList mantissa ++ "e" ++ (if 0 ≤ leading then sign else "") ++ toString leading

def Layout.decimal (l : Layout) (d : Decimal) : String :=
  let digits := Nat.toDigits 10 d.coefficient
  let leading := d.exponent + digits.length - 1
  let inRange := match l.positional with
    | none => true
    | some (low, high) => d.coefficient == 0 || (low ≤ leading && leading ≤ high)
  if inRange then positionalText digits d.exponent l.whole
  else exponentText digits leading l.exponentSign

def Layout.text (l : Layout) {f : Binary.Format} (x : Binary.Word f) : String :=
  match x.datum with
  | .nan _ => "NaN"
  | .infinite s => if s then "-inf" else "inf"
  | .finite s m e => (if s then "-" else "") ++ l.decimal (shortest f l.tie m e)

end Relational.Decimal

namespace Relational

def Binary.Word.text {f : Binary.Format} (x : Binary.Word f) : String := Decimal.plain.text x

end Relational
