import Relational.Decimal.Reader
import Relational.Integer
import Relational.Json.Document

/-!
# Numbers of documents

Digits without a needless leading zero, then optionally a fraction and an exponent. What is not
an integer of a machine word is read in steps that are each rounded: the leading digits that fit
a machine word, then their scaling by a power of ten.
-/
namespace Relational.Json

structure Numeral where
  negative : Bool
  whole : List Char
  fraction : List Char
  exponent : Option Int

namespace Numeral

def parse? (cs : List Char) : Option Numeral := do
  let (negative, body) := match cs with
    | '-' :: rest => (true, rest)
    | _ => (false, cs)
  let whole := body.takeWhile Char.isDigit
  if whole.isEmpty || (whole.length ≠ 1 && whole.head? = some '0') then none
  let (fraction, rest) ← match body.dropWhile Char.isDigit with
    | '.' :: rest =>
      if (rest.takeWhile Char.isDigit).isEmpty then none
      else some (rest.takeWhile Char.isDigit, rest.dropWhile Char.isDigit)
    | rest => some ([], rest)
  let exponent ← match rest with
    | [] => some none
    | 'e' :: power | 'E' :: power => (Decimal.integer? power).map some
    | _ => none
  return { negative, whole, fraction, exponent }

/-- The digits as far as they fit a machine word, behind those of `n`, and the digits left. -/
def takeDigits (n : Nat) : List Char → Nat × List Char
  | [] => (n, [])
  | c :: rest =>
    let longer := 10 * n + (c.toNat - '0'.toNat)
    if longer < Integer.wordCount then takeDigits longer rest else (n, c :: rest)

def integer? (n : Numeral) : Option Int :=
  if !n.fraction.isEmpty || n.exponent.isSome then none
  else do
    let magnitude ← Decimal.digits? n.whole
    let v : Int := if n.negative then -magnitude else magnitude
    if (n.negative && magnitude == 0) || v < Integer.least64 || Integer.wordCount ≤ v then none
    else some v

def greatestPower : Nat := 308

def power (e : Nat) : Binary64 := .ofInt (Nat.pow 10 (min e greatestPower))

def scaled? (n : Nat) (e : Int) : Option Binary64 :=
  let x : Binary64 := .ofInt n
  if 0 ≤ e then
    let y := x * power e.toNat
    if y.isFinite && (n = 0 || e ≤ greatestPower) then some y else none
  else some (x / power e.natAbs / power (e.natAbs - greatestPower))

def double? (n : Numeral) : Option Binary64 :=
  let (leading, more) := takeDigits 0 n.whole
  let (digits, rest) := takeDigits leading n.fraction
  let exponent : Int := more.length + rest.length - n.fraction.length + n.exponent.getD 0
  (scaled? digits exponent).map fun x => if n.negative then x.neg else x

def toJson (n : Numeral) : Json :=
  match n.integer? with
  | some v => .integer v
  | none => n.double?.elim (.flawed .unusable) .double

end Numeral

end Relational.Json
