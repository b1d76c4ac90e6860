import Relational.Decimal.Layout
import Relational.Json.Document

/-!
# Writing documents

On one line without blanks, or indented by two per level.
-/
namespace Relational.Json

def escape (c : Char) : String :=
  match c with
  | '"' => "\\\""
  | '\\' => "\\\\"
  | '\n' => "\\n"
  | '\r' => "\\r"
  | '\t' => "\\t"
  | '\x08' => "\\b"
  | '\x0c' => "\\f"
  | c =>
    if c.toNat < 0x20 then
      let digits := Nat.toDigits 16 c.toNat
      "\\u" ++ String.ofList (List.replicate (4 - digits.length) '0' ++ digits)
    else c.toString

def quote (s : String) : String := "\"" ++ String.join (s.toList.map escape) ++ "\""

/-- A number that is not finite has no written form and becomes null. -/
def numberText {f : Binary.Format} (x : Binary.Word f) : String :=
  if x.isFinite then (Decimal.documented f).text x else "null"

structure Spacing where
  indent : Nat
  newline : String
  colon : String

def Spacing.line (s : Spacing) (level : Nat) : String :=
  s.newline ++ String.ofList (List.replicate (s.indent * level) ' ')

def compact : Spacing := ⟨0, "", ":"⟩
def pretty : Spacing := ⟨2, "\n", ": "⟩

mutual
def render (s : Spacing) (level : Nat) : Json → String
  | .null | .flawed _ => "null"
  | .bool b => if b then "true" else "false"
  | .integer n => toString n
  | .single x => numberText x
  | .double x => numberText x
  | .string t => quote t
  | .array [] => "[]"
  | .array items => "[" ++ renderItems s (level + 1) items ++ s.line level ++ "]"
  | .object [] => "\x7b\x7d"
  | .object fields => "\x7b" ++ renderFields s (level + 1) fields ++ s.line level ++ "\x7d"

def renderItems (s : Spacing) (level : Nat) : List Json → String
  | [] => ""
  | [j] => s.line level ++ render s level j
  | j :: rest => s.line level ++ render s level j ++ "," ++ renderItems s level rest

def renderFields (s : Spacing) (level : Nat) : List (String × Json) → String
  | [] => ""
  | [(key, j)] => s.line level ++ quote key ++ s.colon ++ render s level j
  | (key, j) :: rest =>
    s.line level ++ quote key ++ s.colon ++ render s level j ++ "," ++ renderFields s level rest
end

def text (j : Json) : String := render compact 0 j
def prettyText (j : Json) : String := render pretty 0 j

end Relational.Json
