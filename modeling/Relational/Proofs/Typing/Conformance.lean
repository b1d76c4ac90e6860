import Relational.Execution.Emission
import Relational.Proofs.Outcome
import Relational.Value.Cast

/-!
# Conforming values

What a column of a data type may hold, and which errors depend on the data alone. A step yields a
property if its result has it or its error is such an error.
-/
namespace Relational

namespace Value

/-- Null conforms to every type; text is held alike by both types of text. -/
def Conforms (v : Value) (t : DataType) : Prop :=
  v = .null ∨ v.dataType = t ∨ v.dataType = .utf8 ∧ t = .largeUtf8

@[simp] theorem null_conforms (t : DataType) : null.Conforms t := .inl rfl

@[simp] theorem conforms_dataType (v : Value) : v.Conforms v.dataType := .inr (.inl rfl)

@[simp] theorem boolean_conforms (b : Bool) : (boolean b).Conforms .boolean := .inr (.inl rfl)

@[simp] theorem isNull_iff (v : Value) : v.isNull = true ↔ v = .null := by
  cases v <;> simp [isNull]

def IsNaN (v : Value) : Prop := ∃ x, v.number? = some x ∧ x.isNaN = true

end Value

def Row.Conforms (row : Row) (schema : Schema) : Prop :=
  List.Forall₂ (fun v f => v.Conforms f.type.dataType) row schema

namespace Row.Conforms
variable {row : Row} {schema : Schema}

theorem length_eq (h : row.Conforms schema) : row.length = schema.length :=
  List.Forall₂.length_eq h

theorem getElem (h : row.Conforms schema) {i : Nat} {f : Field} (hf : schema[i]? = some f) :
    ∃ v, row[i]? = some v ∧ v.Conforms f.type.dataType := by
  induction h generalizing i with
  | nil => cases hf
  | cons hv hrest ih =>
    cases i with
    | zero =>
      cases hf
      exact ⟨_, rfl, hv⟩
    | succ i => exact ih hf

theorem append {other : Row} {more : Schema} (h : row.Conforms schema)
    (hother : other.Conforms more) : Row.Conforms (row ++ other) (schema ++ more) :=
  List.rel_append h hother

end Row.Conforms

/-- An error that no check of a plan can rule out. -/
inductive Error.DataDependent : Error → Prop
  | overflow (a : Arithmetic) (l r : Int) : DataDependent (.execution (.overflow a l r))
  | sumOverflow (v : Value) : DataDependent (.accumulator (.sumOverflow v))
  | divisionByZero : DataDependent (.execution .divisionByZero)
  | failedCast (v : Value) (t : DataType) : DataDependent (.execution (.cast v t))
  | unsupportedCast (t : DataType) : DataDependent (.unsupported (.cast t))
  | notANumber {l r : Value} (h : l.IsNaN ∨ r.IsNaN) :
    DataDependent (.execution (.incomparable l r))

/-- The result has the property, or an error depends on the data. -/
def Yields {α : Type} (P : α → Prop) : Except Error α → Prop
  | .ok a => P a
  | .error e => e.DataDependent

namespace Yields
variable {α β : Type} {P : α → Prop} {R : β → Prop} {x : Except Error α}

theorem mono (h : Yields P x) {P' : α → Prop} (hP : ∀ a, P a → P' a) : Yields P' x := by
  cases x with
  | ok a => exact hP a h
  | error e => exact h

theorem bind (h : Yields P x) {f : α → Except Error β} (hf : ∀ a, P a → Yields R (f a)) :
    Yields R (x >>= f) := by
  cases x with
  | ok a => exact hf a h
  | error e => exact h

theorem mapM {S : α → β → Prop} {f : α → Except Error β} {xs : List α}
    (h : ∀ a ∈ xs, Yields (S a) (f a)) : Yields (List.Forall₂ S xs) (xs.mapM f) := by
  induction xs with
  | nil => exact .nil
  | cons a rest ih =>
    rw [List.mapM_cons]
    refine (h a List.mem_cons_self).bind fun b hb => ?_
    refine (ih fun a ha => h a (List.mem_cons_of_mem _ ha)).bind fun bs hbs => ?_
    exact .cons hb hbs

theorem foldlM {f : β → α → Except Error β} {xs : List α} {b : β} (hb : R b)
    (h : ∀ b a, R b → a ∈ xs → Yields R (f b a)) : Yields R (xs.foldlM f b) := by
  induction xs generalizing b with
  | nil => exact hb
  | cons a rest ih =>
    rw [List.foldlM_cons]
    refine (h b a hb List.mem_cons_self).bind fun b' hb' => ?_
    exact ih hb' fun b a hb ha => h b a hb (List.mem_cons_of_mem _ ha)

end Yields

namespace Value

theorem castTo?_conforms {v w : Value} {t : DataType} (h : v.castTo? t = some w) :
    w.Conforms t := by
  cases t <;> simp only [castTo?, Option.map_eq_some_iff, Option.some.injEq, reduceCtorEq] at h
  case null => exact h ▸ null_conforms _
  case utf8 => exact h ▸ .inr (.inl rfl)
  case largeUtf8 => exact h ▸ .inr (.inr ⟨rfl, rfl⟩)
  all_goals
    obtain ⟨x, -, rfl⟩ := h
    exact .inr (.inl rfl)

theorem castTo_yields (v : Value) (t : DataType) : Yields (·.Conforms t) (v.castTo t) := by
  unfold castTo
  split
  · exact null_conforms t
  · split
    · exact .unsupportedCast t
    · split
      next h => exact castTo?_conforms h
      · exact .failedCast v t

end Value
end Relational
