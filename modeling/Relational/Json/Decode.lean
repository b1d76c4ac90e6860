import Relational.Integer
import Relational.Json.Document

/-!
# Taking documents apart

Partial readers for numbers, texts, lists, records and tagged choices. A record may also be
written as the list of its members; members it does not know are skipped.
-/
namespace Relational.Json

def natural? : Json → Option Nat
  | integer n => Integer.word? n
  | _ => none

def natural32? (j : Json) : Option Nat := j.natural?.filter (· < 4294967296)

def bool? : Json → Option Bool
  | bool b => some b
  | _ => none

def text? : Json → Option String
  | string s => some s
  | _ => none

def int8? : Json → Option Int8
  | integer n => Integer.int8? n
  | _ => none

def uint8? : Json → Option UInt8
  | integer n => Integer.uint8? n
  | _ => none

def int32? : Json → Option Int32
  | integer n => Integer.int32? n
  | _ => none

def int64? : Json → Option Int64
  | integer n => Integer.int64? n
  | _ => none

def float64? : Json → Option Binary64
  | integer n => some (.ofInt n)
  | single x => some (x.convert _)
  | double x => some x
  | _ => none

def float32? : Json → Option Binary32
  | integer n => some (.ofInt n)
  | single x => some x
  | double x => some (x.convert _)
  | _ => none

def sound? (j : Json) : Option Json := if j.sound then some j else none

def optional? {α : Type} (read : Json → Option α) : Json → Option (Option α)
  | null => some none
  | j => (read j).map some

def list? {α : Type} (read : Json → Option α) : Json → Option (List α)
  | array items => items.mapM read
  | _ => none

def members? (names : List String) : Json → Option (List (String × Json))
  | object fields =>
    if fields.any (·.2 matches .flawed .unnamed) then none
    else if names.all fun n => (fields.filter (·.1 == n)).length ≤ 1 then some fields
    else none
  | array items => if items.length ≤ names.length then some (names.zip items) else none
  | _ => none

def member? {α : Type} (name : String) (read : Json → Option α)
    (members : List (String × Json)) : Option α :=
  (lookup name members).bind read

def memberOr? {α : Type} (name : String) (default : α) (read : Json → Option α)
    (members : List (String × Json)) : Option α :=
  match lookup name members with
  | some j => read j
  | none => some default

def tagged? : Json → Option (String × Json)
  | string tag => some (tag, .null)
  | object [(tag, content)] => some (tag, content)
  | _ => none

def named? {α : Type} (ofName? : String → Option α) (j : Json) : Option α := do
  let (tag, content) ← j.tagged?
  match content with
  | .null => ofName? tag
  | _ => none

end Relational.Json
