import Relational.Expr.Pinned
import Relational.Proofs.Expr.Evaluation
import Relational.Proofs.Typing.Conformance

/-!
# What pinned columns hold

On a row that satisfies a predicate, a column that the predicate pins holds one of the pinned
values. An equal value is known by its text, except for floats.
-/
namespace Relational

namespace Value
variable {v w : Value}

def IsFloat : Value → Prop
  | float32 _ | float64 _ => True
  | _ => False

theorem text_eq_of_compare? (hv : ¬ v.IsFloat) (hw : ¬ w.IsFloat)
    (h : v.compare? w = some .eq) : v.text = w.text := by
  cases v <;> cases w <;> simp_all [compare?, integer?, number?, IsFloat, text]

end Value

namespace Compiled
variable {row : Row} {cs : List Compiled}

theorem evalJunction_and_eq_true {what : String} {sawNull : Bool}
    (h : evalJunction what true sawNull row cs = .ok (.boolean true)) :
    sawNull = false ∧ ∀ c ∈ cs, c.eval row = .ok (.boolean true) := by
  induction cs generalizing sawNull with
  | nil => cases sawNull <;> simp_all [evalJunction]
  | cons c rest ih =>
    unfold evalJunction at h
    obtain ⟨v, hv, h⟩ := bind_eq_ok.1 h
    obtain ⟨truth, htruth, h⟩ := bind_eq_ok.1 h
    split at h
    next b =>
      split at h
      next hb =>
        obtain ⟨hsaw, hrest⟩ := ih h
        have hvalue : v = .boolean b := by cases v <;> simp_all [truth?]
        exact ⟨hsaw, List.forall_mem_cons.2 ⟨by rw [hv, hvalue, hb], hrest⟩⟩
      next hb =>
        cases h
        exact absurd rfl hb
    · exact absurd (ih h).1 (by simp)

theorem evalIn_eq_true {probe : Value} {sawNull : Bool}
    (h : evalIn probe sawNull row cs = .ok (.boolean true)) :
    ∃ c ∈ cs, ∃ v, c.eval row = .ok v ∧ probe.compare? v = some .eq := by
  induction cs generalizing sawNull with
  | nil => cases sawNull <;> simp [evalIn] at h
  | cons c rest ih =>
    unfold evalIn at h
    obtain ⟨v, hv, h⟩ := bind_eq_ok.1 h
    have hlater : ∀ {saw}, evalIn probe saw row rest = .ok (.boolean true) →
        ∃ c' ∈ c :: rest, ∃ v, c'.eval row = .ok v ∧ probe.compare? v = some .eq := by
      intro saw hrest
      obtain ⟨c', hc', hfound⟩ := ih hrest
      exact ⟨c', List.mem_cons_of_mem _ hc', hfound⟩
    split at h
    · exact hlater h
    · split at h
      next heq => exact ⟨c, List.mem_cons_self, v, hv, heq⟩
      · exact hlater h

theorem binary_eq_true {out : DataType} {l r : Compiled}
    (h : (binary out (compareValues .eq) l r).eval row = .ok (.boolean true)) :
    ∃ x y, l.eval row = .ok x ∧ r.eval row = .ok y ∧ x.compare? y = some .eq := by
  obtain ⟨x, hx, h⟩ := bind_eq_ok.1 h
  obtain ⟨y, hy, h⟩ := bind_eq_ok.1 h
  refine ⟨x, y, hx, hy, ?_⟩
  split at h
  · cases h
  · unfold compareValues at h
    split at h
    next o ho =>
      simp only [Comparison.holds, Except.ok.injEq, Value.boolean.injEq, beq_iff_eq] at h
      rw [ho, h]
    · cases h

end Compiled

namespace Expr
variable {schema : Schema} {row : Row} {e left right probe : Expr} {candidates es : List Expr}
  {column : Nat} {v w : Value} {ws : List Value}

/-- The expression compares the column with a float literal, or looks for one among the other. -/
def FacesFloat (column : Nat) : Expr → Prop
  | call op operands _ => (op.isComparison ∨ op = .isIn) ∧
      (∃ o ∈ operands, o.column? = some column) ∧
      ∃ o ∈ operands, ∃ v, o.literal? = some v ∧ v.IsFloat
  | _ => False

theorem literal?_of_pin? (h : e.pin? = some w) : e.literal? = some w :=
  (Option.filter_eq_some_iff.1 h).1

theorem eval_literal {c : Compiled} (hliteral : e.literal? = some w)
    (hcompile : e.compile schema = .ok c) (h : c.eval row = .ok v) : v = w := by
  cases e <;> cases hliteral
  cases hcompile
  exact (Except.ok.inj h).symm

/-- A pinned list that is not empty has a value that reads like the column's. -/
def Pins (ws : List Value) (v : Value) : Prop := ws = [] ∨ ∃ w ∈ ws, v.text = w.text

theorem pins_append {us : List Value} (hws : Pins ws v) (hus : Pins us v) :
    Pins (ws ++ us) v := by
  rcases hws with rfl | ⟨w, hw, htext⟩
  · exact hus
  · exact .inr ⟨w, List.mem_append_left _ hw, htext⟩

theorem pins_of_unpinned? (h : e.unpinned? column = some ws) : Pins ws v := by
  unfold unpinned? at h
  split at h
  · cases h
  · exact .inl (Option.some.inj h).symm

theorem mem_conjunctsOf {part : Expr} (he : e ∈ es) (hpart : part ∈ e.conjuncts) :
    part ∈ conjunctsOf es := by
  induction es with
  | nil => cases he
  | cons first rest ih =>
    rw [conjunctsOf]
    rcases List.mem_cons.1 he with rfl | he
    · exact List.mem_append_left _ hpart
    · exact List.mem_append_right _ (ih he)

theorem pins_all (hes : ∀ e ∈ es, ∀ ws, e.pinned? column = some ws → Pins ws v)
    (hpinned : pinnedByAll? column es = some ws) : Pins ws v := by
  induction es generalizing ws with
  | nil => exact .inl (Option.some.inj hpinned).symm
  | cons e rest ih =>
    simp only [pinnedByAll?, Option.bind_eq_bind, Option.bind_eq_some_iff, Option.pure_def,
      Option.some.injEq] at hpinned
    obtain ⟨us, hus, vs, hvs, rfl⟩ := hpinned
    obtain ⟨he, hrest⟩ := List.forall_mem_cons.1 hes
    exact pins_append (he us hus) (ih hrest hvs)

section
variable (hv : row[column]? = some v) (hexact : ¬ v.IsFloat)
include hv hexact

theorem pins_equation {t : SqlType}
    (hfloat : ¬ FacesFloat column (call (.compare .eq) [left, right] t))
    (hpinned : pinnedByEquation? column left right = some ws)
    (h : (call (.compare .eq) [left, right] t).evaluate schema row = .ok (.boolean true)) :
    Pins ws v := by
  obtain ⟨cs, c, hcs, hc, heval⟩ := evaluate_call_eq_ok.1 h
  cases hcs with | @cons _ l _ _ hl hcs =>
  cases hcs with | @cons _ r _ _ hr hcs =>
  cases hcs
  cases hc
  obtain ⟨x, y, hx, hy, heq⟩ := Compiled.binary_eq_true heval
  have hliteral {o o' : Expr} {w : Value} (ho : o ∈ [left, right]) (ho' : o' ∈ [left, right])
      (hcolumn : o.column? = some column) (hw : o'.literal? = some w) : ¬ w.IsFloat :=
    fun hwfloat => hfloat ⟨.inl rfl, ⟨o, ho, hcolumn⟩, o', ho', w, hw, hwfloat⟩
  have hleft : left ∈ [left, right] := List.mem_cons_self
  have hright : right ∈ [left, right] := List.mem_cons_of_mem _ List.mem_cons_self
  unfold pinnedByEquation? at hpinned
  split at hpinned
  next hcolumn =>
    obtain ⟨w, hw, rfl⟩ := Option.map_eq_some_iff.1 hpinned
    have hw := literal?_of_pin? hw
    obtain rfl := Option.some.inj (hv.symm.trans (eval_column hcolumn hl hx))
    obtain rfl := eval_literal hw hr hy
    exact .inr ⟨y, List.mem_singleton_self y,
      Value.text_eq_of_compare? hexact (hliteral hleft hright hcolumn hw) heq⟩
  · split at hpinned
    next hcolumn =>
      obtain ⟨w, hw, rfl⟩ := Option.map_eq_some_iff.1 hpinned
      have hw := literal?_of_pin? hw
      obtain rfl := Option.some.inj (hv.symm.trans (eval_column hcolumn hr hy))
      obtain rfl := eval_literal hw hl hx
      exact .inr ⟨x, List.mem_singleton_self x,
        (Value.text_eq_of_compare? (hliteral hright hleft hcolumn hw) hexact heq).symm⟩
    · split at hpinned
      · cases hpinned
      · exact .inl (Option.some.inj hpinned).symm

theorem pins_list {t : SqlType}
    (hfloat : ¬ FacesFloat column (call .isIn (probe :: candidates) t))
    (hpinned : pinnedByList? column probe candidates = some ws)
    (h : (call .isIn (probe :: candidates) t).evaluate schema row = .ok (.boolean true)) :
    Pins ws v := by
  unfold pinnedByList? at hpinned
  split at hpinned
  next hcolumn =>
    obtain ⟨cs, c, hcs, hc, heval⟩ := evaluate_call_eq_ok.1 h
    cases hcs with | @cons _ p _ rest hp hrest =>
    cases rest with
    | nil => cases hc
    | cons first rest =>
      cases hc
      obtain ⟨x, hx, heval⟩ := bind_eq_ok.1 heval
      obtain rfl := Option.some.inj (hv.symm.trans (eval_column hcolumn hp hx))
      split at heval
      · cases heval
      · obtain ⟨found, hfound, y, hy, heq⟩ := Compiled.evalIn_eq_true heval
        obtain ⟨candidate, hcandidate, hcompile⟩ := forall₂_exists_mem hrest hfound
        obtain ⟨w, hw, hpin⟩ := forall₂_exists_mem
          (List.Forall₂.flip (R := fun w o => pin? o = some w) (mapM_eq_some.1 hpinned)) hcandidate
        have hliteral := literal?_of_pin? hpin
        obtain rfl := eval_literal hliteral hcompile hy
        have hyexact : ¬ y.IsFloat := fun hyfloat => hfloat ⟨.inr rfl,
          ⟨probe, List.mem_cons_self, hcolumn⟩, candidate, List.mem_cons_of_mem _ hcandidate, y,
          hliteral, hyfloat⟩
        exact .inr ⟨y, hw, Value.text_eq_of_compare? hexact hyexact heq⟩
  · split at hpinned
    · cases hpinned
    · exact .inl (Option.some.inj hpinned).symm

/-- On a row that satisfies the predicate, the column reads like one of its pinned values. -/
theorem pins_of_true (hfloat : ∀ part ∈ e.conjuncts, ¬ part.FacesFloat column)
    (hpinned : e.pinned? column = some ws)
    (h : e.evaluate schema row = .ok (.boolean true)) : Pins ws v := by
  induction e using operandInduction generalizing ws with
  | call op operands t ih =>
    unfold pinned? at hpinned
    split at hpinned
    next operands t heq =>
      cases heq
      obtain ⟨cs, c, hcs, hc, heval⟩ := evaluate_call_eq_ok.1 h
      cases hc
      have htrue := (Compiled.evalJunction_and_eq_true heval).2
      refine pins_all (fun o ho us hus => ih o ho ?_ hus ?_) hpinned
      · intro part hpart
        exact hfloat part (mem_conjunctsOf ho hpart)
      · obtain ⟨i, hi⟩ := List.getElem?_of_mem ho
        obtain ⟨code, hcode, hcompile⟩ := forall₂_exists_getElem? hcs hi
        exact evaluate_eq_ok.2 ⟨code, hcompile, htrue code (List.mem_of_getElem? hcode)⟩
    · cases hpinned
    next l r t heq =>
      cases heq
      exact pins_equation hv hexact (hfloat _ List.mem_cons_self) hpinned h
    next probe candidates t heq =>
      cases heq
      exact pins_list hv hexact (hfloat _ List.mem_cons_self) hpinned h
    next heq =>
      cases heq
      exact pins_of_unpinned? hpinned
    next hother => exact absurd rfl (hother _ _ _)
  | _ =>
    cases hpinned
    exact .inl rfl

end

end Expr
end Relational
