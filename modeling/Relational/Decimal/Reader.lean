import Relational.Binary.Arithmetic
import Relational.Decimal.Digits

/-!
# Reading numbers

Texts of integers and of floating-point numbers. A text is taken whole or not at all.
-/
namespace Relational.Decimal

def digits? (cs : List Char) : Option Nat :=
  if cs.isEmpty || !cs.all Char.isDigit then none
  else some (cs.foldl (fun n c => 10 * n + (c.toNat - '0'.toNat)) 0)

def sign (cs : List Char) : Bool × List Char :=
  match cs with
  | '-' :: rest => (true, rest)
  | '+' :: rest => (false, rest)
  | _ => (false, cs)

def integer? (cs : List Char) : Option Int :=
  let (negative, rest) := sign cs
  (digits? rest).map fun n => if negative then -n else n

def natural? (cs : List Char) : Option Nat :=
  match cs with
  | '+' :: rest => digits? rest
  | _ => digits? cs

def mantissa? (cs : List Char) : Option Decimal :=
  let whole := cs.takeWhile (· ≠ '.')
  let fraction := (cs.dropWhile (· ≠ '.')).drop 1
  (digits? (whole ++ fraction)).map fun n => ⟨n, -fraction.length⟩

def unsigned? (cs : List Char) : Option Decimal :=
  let marks (c : Char) : Bool := c == 'e' || c == 'E'
  let m := mantissa? (cs.takeWhile (!marks ·))
  match cs.dropWhile (!marks ·) with
  | [] => m
  | _ :: power => do
    let m ← m
    let e ← integer? power
    some ⟨m.coefficient, m.exponent + e⟩

def readWord? (f : Binary.Format) (text : String) : Option (Binary.Word f) :=
  let (negative, rest) := sign text.toList
  let name := String.ofList (rest.map Char.toLower)
  if name == "nan" then some (.nan negative)
  else if name == "inf" || name == "infinity" then some (.infinity negative)
  else (unsigned? rest).map (Decimal.word f negative)

def readInt? (low high : Int) (text : String) : Option Int :=
  (integer? text.toList).filter fun n => low ≤ n && n ≤ high

def readNat? (high : Nat) (text : String) : Option Nat :=
  (natural? text.toList).filter (· ≤ high)

end Relational.Decimal
