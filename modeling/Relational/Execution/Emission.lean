import Relational.Error

/-!
# Emissions

What a unit of an execution emits: rows, and after them its end or an error.
-/
namespace Relational

structure Emission where
  rows : List Row
  failure : Option Error := none

namespace Emission

def result (e : Emission) : Except Error (List Row) :=
  match e.failure with
  | none => .ok e.rows
  | some error => .error error

def fail (error : Error) : Emission := ⟨[], some error⟩

def ofResult : Except Error (List Row) → Emission
  | .ok rows => ⟨rows, none⟩
  | .error e => fail e

def prepend (rows : List Row) (e : Emission) : Emission := ⟨rows ++ e.rows, e.failure⟩

def append (a : Emission) (b : Emission) : Emission :=
  match a.failure with
  | some _ => a
  | none => b.prepend a.rows

def concat : List Emission → Emission
  | [] => ⟨[], none⟩
  | e :: rest => e.append (concat rest)

def sequence (last : Option Error) : List (Except Error (List Row)) → Emission
  | [] => ⟨[], last⟩
  | .ok rows :: rest => (sequence last rest).prepend rows
  | .error e :: _ => fail e

def through (f : Row → Except Error (List Row)) (e : Emission) : Emission :=
  sequence e.failure (e.rows.map f)

end Emission
end Relational
