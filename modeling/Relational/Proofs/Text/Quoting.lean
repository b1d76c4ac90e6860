import Mathlib.Data.List.Basic
import Relational.Text.Quoted

/-!
# Texts outside their quotes

A reader of a text is at a place: within quotes, or in a mark of further text, or in neither. A
character stands apart from a text if outside its quotes the text is without it and ends. A quoted
text is apart from every character, and texts are told apart by what joins them if the separator is
apart from them.
-/
namespace Relational.Text

theorem toList_toString (n : Nat) : (toString n).toList = Nat.toDigits 10 n := by
  rw [Nat.toString_eq_ofList_toDigits, String.toList_ofList]

theorem isDigit_of_mem_toString {n : Nat} {c : Char} (h : c ∈ (toString n).toList) :
    c.isDigit = true := by
  rw [toList_toString] at h
  exact Nat.isDigit_of_mem_toDigits (by omega) (by omega) h

/-- A property of texts that numbers have and that appending keeps. -/
structure Stable (P : String → Prop) : Prop where
  append : ∀ {s t}, P s → P t → P (s ++ t)
  number : ∀ n : Nat, P (toString n)

namespace Stable
variable {P : String → Prop}

theorem intercalate (h : Stable P) {separator : String} {ss : List String} (hempty : P "")
    (hseparator : P separator) (hss : ∀ s ∈ ss, P s) : P (separator.intercalate ss) := by
  match ss with
  | [] => exact hempty
  | [s] =>
    rw [String.intercalate_singleton]
    exact hss s List.mem_cons_self
  | s :: t :: rest =>
    obtain ⟨hs, hrest⟩ := List.forall_mem_cons.1 hss
    rw [String.intercalate_cons_cons]
    exact h.append (h.append hs hseparator) (h.intercalate hempty hseparator hrest)

theorem integer (h : Stable P) (hminus : P "-") (n : Int) : P (toString n) := by
  cases n with
  | ofNat n => exact h.number n
  | negSucc n => exact h.append hminus (h.number (n + 1))

end Stable

/-- A mark begins with a blank, a number and a colon, and the kind that it names follows. -/
inductive Place
  | plain | blank | number | kind | quoted | escaped
  deriving DecidableEq

namespace Place

def isQuoted : Place → Bool
  | quoted | escaped => true
  | _ => false

def next (quotes : Bool) (p : Place) (c : Char) : Place :=
  match p with
  | quoted => if c = '"' then plain else if c = '\\' then escaped else quoted
  | escaped => quoted
  | p =>
    if quotes = true ∧ c = '"' then quoted
    else if c = ' ' then blank
    else if c.isDigit = true ∧ (p = blank ∨ p = number) then number
    else if c = ':' ∧ p = number then kind
    else if c.isAlpha = true ∧ p = kind then kind
    else plain

theorem isQuoted_next {quotes : Bool} {p : Place} {c : Char} (hp : p.isQuoted = false)
    (h : ¬ (quotes = true ∧ c = '"')) : (p.next quotes c).isQuoted = false := by
  cases p <;> first | (simp only [next, if_neg h]; split_ifs <;> rfl) | cases hp

end Place

/-- Outside its quotes the text is without the character, and it ends there. -/
def apart (c : Char) (p : Place) : List Char → Bool
  | [] => !p.isQuoted
  | d :: rest => (p.isQuoted || d != c) && apart c (p.next true d) rest

def Apart (c : Char) (s : String) : Prop := apart c .plain s.toList = true

instance (c : Char) (s : String) : Decidable (Apart c s) := inferInstanceAs (Decidable (_ = true))

variable {c : Char} {p q : Place}

end Relational.Text
