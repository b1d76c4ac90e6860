import Relational.Proofs.Expr.Evaluation
import Relational.Proofs.Typing.Expression

/-!
# Nulls of expressions

Over a row that respects the schema, an expression that is typed not null has no null for a value,
provided that nothing in it is declared not null against the schema or against its own value: a
reference to a nullable column, a null literal, a cast to the type of null.
-/
namespace Relational

namespace Value
variable {v : Value} {t : DataType}

def Respects (v : Value) (t : SqlType) : Prop :=
  v.Conforms t.dataType ∧ (v = .null → t.nullable = true)

theorem castTo?_eq_null (h : v.castTo? t = some .null) : t = .null := by
  cases t <;> simp only [castTo?, Option.map_eq_some_iff, Option.some.injEq, reduceCtorEq,
    and_false, exists_false] at h
  rfl

theorem castTo_eq_null (h : v.castTo t = .ok .null) : v = .null ∨ t = .null := by
  unfold castTo at h
  split at h
  next hnull => exact .inl (v.isNull_iff.1 hnull)
  · split at h
    · cases h
    · split at h
      next hw =>
        cases h
        exact .inr (castTo?_eq_null hw)
      · cases h

end Value

namespace DataType
variable {a b : DataType}

theorem eq_null_of_wider? (h : a.wider? b = some null) : a = null ∨ b = null := by
  unfold wider? at h
  split at h
  · simp only [Option.some.injEq] at h
    split at h
    · exact .inl h
    · exact .inr h
  · cases h

theorem join?_eq_null (h : a.join? b = some null) : a = null ∧ b = null := by
  unfold join? at h
  split at h
  next hb => exact ⟨Option.some.inj h, hb⟩
  next hb =>
    split at h
    · exact absurd (Option.some.inj h) hb
    next ha =>
      split at h
      · exact absurd (Option.some.inj h) ha
      · split at h
        next hw =>
          obtain rfl := Option.some.inj h
          exact ((eq_null_of_wider? hw).elim ha hb).elim
        · split at h <;> cases h

theorem unify_eq_null {types : List DataType} (h : unify types = .ok null) :
    ∀ t ∈ types, t = null := by
  have hfold (types : List DataType) (first : DataType)
      (h : types.foldlM (fun a b => (a.join? b).elim (.error (a, b)) Except.ok) first =
        .ok null) : first = null ∧ ∀ t ∈ types, t = null := by
    induction types generalizing first with
    | nil => exact ⟨Except.ok.inj h, by simp⟩
    | cons t rest ih =>
      rw [List.foldlM_cons, bind_eq_ok] at h
      obtain ⟨joined, hjoined, h⟩ := h
      obtain ⟨rfl, hrest⟩ := ih joined h
      cases hjoin : first.join? t with
      | none => simp [hjoin] at hjoined
      | some s =>
        rw [hjoin] at hjoined
        cases hjoined
        obtain ⟨hfirst, ht⟩ := join?_eq_null hjoin
        exact ⟨hfirst, List.forall_mem_cons.2 ⟨ht, hrest⟩⟩
  exact (hfold types null h).2

end DataType

def Row.Respects (row : Row) (schema : Schema) : Prop :=
  List.Forall₂ (fun v f => v.Respects f.type) row schema

namespace Row.Respects
variable {row : Row} {schema : Schema}

theorem conforms (h : row.Respects schema) : row.Conforms schema :=
  h.imp fun _ _ hv => hv.1

theorem getElem (h : row.Respects schema) {i : Nat} {f : Field} (hf : schema[i]? = some f) :
    ∃ v, row[i]? = some v ∧ v.Respects f.type := by
  obtain ⟨v, hv, -⟩ := h.conforms.getElem hf
  exact ⟨v, hv, forall₂_getElem? h hv hf⟩

end Row.Respects

namespace Compiled
open Relational.Expr Value
variable {row : Row} {es : List Expr} {c : Compiled} {cs : List Compiled}

def Answers (row : Row) (t : SqlType) (c : Compiled) : Prop :=
  ∀ v, c.eval row = .ok v → v.Respects t

theorem truth?_eq_none {what : String} {v : Value} (h : truth? what v = .ok none) : v = .null := by
  cases v <;> cases h
  rfl

theorem compareValues_ne_null (k : Comparison) (x y : Value) :
    compareValues k x y ≠ .ok .null := by
  unfold compareValues
  split <;> simp

theorem arithValues_ne_null (a : Arithmetic) (out : DataType) (x y : Value) :
    arithValues a out x y ≠ .ok .null := by
  intro h
  unfold arithValues at h
  split at h
  case h_1 | h_2 =>
    split at h
    · obtain ⟨z, -, hz⟩ := bind_eq_ok.1 h
      rcases castTo_eq_null hz with h | h <;> cases h
    · cases h
  case h_3 | h_4 =>
    split at h
    · obtain ⟨n, -, h⟩ := bind_eq_ok.1 h
      split at h
      · split at h
        next hv =>
          cases h
          cases castTo?_eq_null hv
        · cases h
      · cases h
    · cases h
  case h_5 => cases h

theorem binary_eq_null {out : DataType} {f : Value → Value → Except Error Value} {l r : Compiled}
    (hf : ∀ x y, f x y ≠ .ok .null) (h : (binary out f l r).eval row = .ok .null) :
    l.eval row = .ok .null ∨ r.eval row = .ok .null := by
  obtain ⟨x, hx, h⟩ := bind_eq_ok.1 h
  obtain ⟨y, hy, h⟩ := bind_eq_ok.1 h
  split at h
  next hnull =>
    simp only [Bool.or_eq_true, isNull_iff] at hnull
    rcases hnull with rfl | rfl
    · exact .inl hx
    · exact .inr hy
  · exact absurd h (hf x y)

theorem evalJunction_eq_null {what : String} {neutral sawNull : Bool}
    (h : evalJunction what neutral sawNull row cs = .ok .null) :
    sawNull = true ∨ ∃ c ∈ cs, c.eval row = .ok .null := by
  induction cs generalizing sawNull with
  | nil =>
    unfold evalJunction at h
    split at h
    next hsaw => exact .inl hsaw
    · cases h
  | cons c rest ih =>
    unfold evalJunction at h
    obtain ⟨v, hv, h⟩ := bind_eq_ok.1 h
    obtain ⟨b, hb, h⟩ := bind_eq_ok.1 h
    split at h
    · split at h
      · rcases ih h with hsaw | ⟨c', hc', hnull⟩
        · exact .inl hsaw
        · exact .inr ⟨c', List.mem_cons_of_mem _ hc', hnull⟩
      · cases h
    · obtain rfl := truth?_eq_none hb
      exact .inr ⟨c, List.mem_cons_self, hv⟩

theorem evalIn_eq_null {probe : Value} {sawNull : Bool}
    (h : evalIn probe sawNull row cs = .ok .null) :
    sawNull = true ∨ ∃ c ∈ cs, c.eval row = .ok .null := by
  induction cs generalizing sawNull with
  | nil =>
    unfold evalIn at h
    split at h
    next hsaw => exact .inl hsaw
    · cases h
  | cons c rest ih =>
    unfold evalIn at h
    obtain ⟨v, hv, h⟩ := bind_eq_ok.1 h
    split at h
    next hnull =>
      obtain rfl := v.isNull_iff.1 hnull
      exact .inr ⟨c, List.mem_cons_self, hv⟩
    · split at h
      · cases h
      · rcases ih h with hsaw | ⟨c', hc', hnull⟩
        · exact .inl hsaw
        · exact .inr ⟨c', List.mem_cons_of_mem _ hc', hnull⟩

theorem evalCoalesce_eq_null {out : DataType} (h : evalCoalesce out row cs = .ok .null) :
    (∀ c ∈ cs, c.eval row = .ok .null) ∨
      out = .null ∧ ∃ c ∈ cs, ∃ v, c.eval row = .ok v ∧ v ≠ .null := by
  induction cs with
  | nil => exact .inl fun _ hc => absurd hc List.not_mem_nil
  | cons c rest ih =>
    unfold evalCoalesce at h
    obtain ⟨v, hv, h⟩ := bind_eq_ok.1 h
    split at h
    next hnull =>
      obtain rfl := v.isNull_iff.1 hnull
      rcases ih h with hall | ⟨hout, c', hc', hvalue⟩
      · exact .inl (List.forall_mem_cons.2 ⟨hv, hall⟩)
      · exact .inr ⟨hout, c', List.mem_cons_of_mem _ hc', hvalue⟩
    next hnull =>
      have hvalue : v ≠ .null := by simpa using hnull
      have hout : out = .null := (castTo_eq_null h).resolve_left hvalue
      exact .inr ⟨hout, c, List.mem_cons_self, v, hv, hvalue⟩

theorem evalCase_eq_null {R : Expr → Compiled → Prop} {out : DataType}
    (hes : List.Forall₂ R es cs) (hodd : es.length % 2 = 1)
    (h : evalCase out row cs = .ok .null) :
    ∃ e ∈ (caseBranches es).2, ∃ c v, R e c ∧ c.eval row = .ok v ∧ (v = .null ∨ out = .null) := by
  -- by the pairs of a condition and a result
  induction es using caseBranches.induct generalizing cs with
  | case1 condition result rest _ _ _ ih =>
    cases hes with | cons hcondition hes =>
    cases hes with | @cons _ c _ _ hresult hrest =>
    unfold evalCase at h
    obtain ⟨w, -, h⟩ := bind_eq_ok.1 h
    obtain ⟨b, -, h⟩ := bind_eq_ok.1 h
    split at h
    · obtain ⟨v, hv, h⟩ := bind_eq_ok.1 h
      exact ⟨result, List.mem_cons_self, c, v, hresult, hv, castTo_eq_null h⟩
    · have hodd : rest.length % 2 = 1 := by
        simp only [List.length_cons] at hodd
        omega
      obtain ⟨e, he, hnull⟩ := ih hrest hodd h
      exact ⟨e, List.mem_cons_of_mem _ he, hnull⟩
  | case2 rest hpair =>
    cases hes with
    | nil => cases hodd
    | @cons e c _ _ hc hes =>
      cases hes with
      | nil =>
        obtain ⟨v, hv, h⟩ := bind_eq_ok.1 h
        exact ⟨e, List.mem_cons_self, c, v, hc, hv, castTo_eq_null h⟩
      | cons _ _ => exact absurd rfl (hpair _ _ _)

theorem any_nullable (h : List.Forall₂ (fun e c => c.Answers row e.type) es cs)
    (hnull : ∃ c ∈ cs, c.eval row = .ok .null) : es.any (·.nullable) = true := by
  obtain ⟨c, hc, hnull⟩ := hnull
  obtain ⟨e, he, hanswers⟩ := forall₂_exists_mem h hc
  exact List.any_eq_true.2 ⟨e, he, (hanswers _ hnull).2 rfl⟩

theorem any_nullable_binary {l r : Expr} {out : DataType}
    {f : Value → Value → Except Error Value} {cl cr : Compiled} (hf : ∀ x y, f x y ≠ .ok .null)
    (h : List.Forall₂ (fun e c => c.Answers row e.type) [l, r] [cl, cr])
    (hnull : (binary out f cl cr).eval row = .ok .null) : [l, r].any (·.nullable) = true := by
  refine any_nullable h ?_
  rcases binary_eq_null hf hnull with hl | hr
  · exact ⟨cl, by simp, hl⟩
  · exact ⟨cr, by simp, hr⟩

theorem eq_null_of_unifyTypes (hunify : unifyTypes (es.map Expr.dataType) = .ok .null) :
    ∀ e ∈ es, e.dataType = .null := by
  unfold unifyTypes at hunify
  split at hunify
  next hnull =>
    cases hunify
    exact List.forall_mem_map.1 (DataType.unify_eq_null hnull)
  · cases hunify

theorem any_nullable_case {out : DataType}
    (h : List.Forall₂ (fun e c => c.Answers row e.type) es cs) (hodd : es.length % 2 = 1)
    (hunify : unifyTypes ((caseBranches es).2.map Expr.dataType) = .ok out)
    (hnull : evalCase out row cs = .ok .null) :
    (caseBranches es).2.any (·.nullable) = true := by
  obtain ⟨e, he, c, v, hanswers, hv, hvalue⟩ := evalCase_eq_null h hodd hnull
  refine List.any_eq_true.2 ⟨e, he, ?_⟩
  obtain ⟨hconforms, hnullable⟩ := hanswers v hv
  rcases hvalue with rfl | rfl
  · exact hnullable rfl
  · have htype : e.type.dataType = .null := eq_null_of_unifyTypes hunify e he
    exact hnullable (htype ▸ hconforms).eq_null

theorem all_nullable_coalesce {out : DataType}
    (h : List.Forall₂ (fun e c => c.Answers row e.type) es cs)
    (hunify : unifyTypes (es.map Expr.dataType) = .ok out)
    (hnull : evalCoalesce out row cs = .ok .null) : es.all (·.nullable) = true := by
  rcases evalCoalesce_eq_null hnull with hall | ⟨rfl, c, hc, v, hv, hvalue⟩
  · refine List.all_eq_true.2 fun e he => ?_
    obtain ⟨c, hc, hanswers⟩ := forall₂_exists_mem h.flip he
    exact (hanswers _ (hall c hc)).2 rfl
  · obtain ⟨e, he, hanswers⟩ := forall₂_exists_mem h hc
    have htype : e.type.dataType = .null := eq_null_of_unifyTypes hunify e he
    exact absurd (htype ▸ (hanswers v hv).1).eq_null hvalue

theorem nullable_of_call {op : Op} {t : SqlType} (ht : callType op es = .ok t)
    (hcall : call op cs t.dataType = .ok c)
    (h : List.Forall₂ (fun e c => c.Answers row e.type) es cs)
    (hnull : c.eval row = .ok .null) : t.nullable = true := by
  cases op with
  | compare k =>
    simp only [callType] at ht
    split at ht
    next l r =>
      simp only [bind_eq_ok, pure_eq_ok, Except.ok.injEq] at ht
      obtain ⟨_, -, rfl⟩ := ht
      obtain ⟨cl, cr, rfl⟩ := List.length_eq_two.1 h.length_eq.symm
      cases hcall
      exact any_nullable_binary (compareValues_ne_null k) h hnull
    · cases ht
  | arith a =>
    simp only [callType] at ht
    split at ht
    next l r =>
      simp only [bind_eq_ok, pure_eq_ok, Except.ok.injEq] at ht
      obtain ⟨out, -, rfl⟩ := ht
      obtain ⟨cl, cr, rfl⟩ := List.length_eq_two.1 h.length_eq.symm
      cases hcall
      exact any_nullable_binary (arithValues_ne_null a out) h hnull
    · cases ht
  | and | or =>
    simp only [callType, bind_eq_ok, pure_eq_ok, Except.ok.injEq] at ht
    obtain ⟨_, -, _, -, rfl⟩ := ht
    cases hcall
    exact any_nullable h ((evalJunction_eq_null hnull).resolve_left Bool.false_ne_true)
  | not =>
    simp only [callType, requireCount, bind_eq_ok, require_eq_ok, beq_iff_eq, pure_eq_ok,
      Except.ok.injEq] at ht
    obtain ⟨_, hcount, _, -, rfl⟩ := ht
    obtain ⟨c', rfl⟩ := List.length_eq_one_iff.1 (h.length_eq.symm.trans hcount)
    cases hcall
    obtain ⟨v, hv, hnull⟩ := bind_eq_ok.1 hnull
    obtain ⟨b, hb, hnull⟩ := bind_eq_ok.1 hnull
    cases b with
    | some b => cases hnull
    | none =>
      obtain rfl := truth?_eq_none hb
      exact any_nullable h ⟨c', List.mem_cons_self, hv⟩
  | isNull | isNotNull =>
    simp only [callType, requireCount, bind_eq_ok, require_eq_ok, beq_iff_eq, pure_eq_ok,
      Except.ok.injEq] at ht
    obtain ⟨_, hcount, rfl⟩ := ht
    obtain ⟨c', rfl⟩ := List.length_eq_one_iff.1 (h.length_eq.symm.trans hcount)
    cases hcall
    obtain ⟨v, -, hnull⟩ := bind_eq_ok.1 hnull
    cases hnull
  | isIn =>
    simp only [callType] at ht
    split at ht
    next probe candidate rest =>
      simp only [bind_eq_ok, pure_eq_ok, Except.ok.injEq] at ht
      obtain ⟨_, -, rfl⟩ := ht
      refine any_nullable h ?_
      cases h with | @cons _ cprobe _ _ _ h =>
      cases h with | @cons _ c _ cs _ h =>
      cases hcall
      obtain ⟨v, hv, hnull⟩ := bind_eq_ok.1 hnull
      split at hnull
      next hprobe =>
        obtain rfl := v.isNull_iff.1 hprobe
        exact ⟨cprobe, List.mem_cons_self, hv⟩
      · obtain ⟨c', hc', hnull⟩ := (evalIn_eq_null hnull).resolve_left Bool.false_ne_true
        exact ⟨c', List.mem_cons_of_mem _ hc', hnull⟩
    · cases ht
  | case =>
    simp only [callType, bind_eq_ok, require_eq_ok, pure_eq_ok, Except.ok.injEq,
      Bool.and_eq_true, beq_iff_eq] at ht
    obtain ⟨_, ⟨-, hodd⟩, _, -, out, hunify, rfl⟩ := ht
    simp only [call] at hcall
    split at hcall
    · cases hcall
    cases hcall
    exact any_nullable_case h hodd hunify hnull
  | coalesce =>
    simp only [callType, bind_eq_ok, pure_eq_ok, Except.ok.injEq] at ht
    obtain ⟨_, -, out, hunify, rfl⟩ := ht
    cases hcall
    exact all_nullable_coalesce h hunify hnull
  | cast => cases ht

end Compiled

namespace Expr
open Compiled
variable {schema : Schema} {row : Row} {e : Expr} {v : Value}

inductive Made : Expr → Prop
  | reference (i : Nat) (t : SqlType) : Made (.column i t)
  | literal (v : Value) : Made (mkLiteral v)
  | typedLiteral {v : Value} {t : SqlType} {e : Expr} (h : mkTypedLiteral v t = .ok e) : Made e
  | call {op : Op} {operands : List Expr} {e : Expr} (h : mkCall op operands = .ok e)
      (made : ∀ o ∈ operands, Made o) : Made e
  | cast {e : Expr} (target : DataType) (made : Made e) : Made (mkCast e target)

/-- Declared nullable if it reads a nullable column, is a null literal, or is a cast to the type of
null. -/
def Honest (schema : Schema) : Expr → Prop
  | .column i t => ∀ f ∈ schema[i]?, f.type.nullable = true → t.nullable = true
  | .literal v t => v = .null → t.nullable = true
  | .call .cast _ t => t.dataType = .null → t.nullable = true
  | _ => True

instance (schema : Schema) : DecidablePred (Honest schema)
  | .column i t =>
    inferInstanceAs (Decidable (∀ f ∈ schema[i]?, f.type.nullable = true → t.nullable = true))
  | .literal v t => inferInstanceAs (Decidable (v = .null → t.nullable = true))
  | .call op _ t =>
    if h : op = .cast then
      decidable_of_iff (t.dataType = .null → t.nullable = true) (by subst h; rfl)
    else isTrue (by cases op <;> trivial)
  | .correlation .. | .tableColumn .. => isTrue trivial

theorem column_of_validate {i : Nat} {t : SqlType}
    (h : (column i t).validate schema = .ok ()) :
    ∃ f, schema[i]? = some f ∧ f.type.dataType = t.dataType := by
  unfold validate at h
  split at h
  · cases h
  next f hf =>
    split at h
    next ht => exact ⟨f, hf, ht⟩
    · cases h

theorem validate_of_mkCall {op : Op} {operands : List Expr} (h : mkCall op operands = .ok e)
    (hvalid : e.validate schema = .ok ()) : ∀ o ∈ operands, o.validate schema = .ok () := by
  obtain ⟨t, -, h⟩ := bind_eq_ok.1 h
  cases h
  exact validateAll_eq_ok.1 hvalid

theorem Made.compiles (h : e.Made) (hvalid : e.validate schema = .ok ()) : Compiles schema e := by
  induction h with
  | reference i t =>
    obtain ⟨f, hf, ht⟩ := column_of_validate hvalid
    exact compiles_reference hf ht
  | literal v => exact compiles_literal v.conforms_dataType
  | typedLiteral h => exact compiles_typedLiteral h
  | call h made ih => exact compiles_call h fun o ho => ih o ho (validate_of_mkCall h hvalid o ho)
  | cast target made ih =>
    exact compiles_cast target (ih (validateAll_eq_ok.1 hvalid _ List.mem_cons_self))

theorem Compiles.conforms (h : Compiles schema e) (hrow : row.Conforms schema)
    (hv : e.evaluate schema row = .ok v) : v.Conforms e.dataType := by
  obtain ⟨c, hc, htype, hsound⟩ := h
  rw [evaluate_of_compile hc] at hv
  have hconforms := hsound row hrow
  rw [hv, htype] at hconforms
  exact hconforms

theorem Made.nullable (h : e.Made) (hvalid : e.validate schema = .ok ())
    (honest : ∀ part ∈ e.parts, part.Honest schema) (hrow : row.Respects schema)
    (hnull : e.evaluate schema row = .ok .null) : e.nullable = true := by
  induction h with
  | reference i t =>
    obtain ⟨c, hc, hvalue⟩ := evaluate_eq_ok.1 hnull
    have hread : row[i]? = some .null := eval_column rfl hc hvalue
    obtain ⟨f, hf, -⟩ := column_of_validate hvalid
    exact honest _ (self_mem_parts _) f hf ((forall₂_getElem? hrow hread hf).2 rfl)
  | literal v =>
    cases hnull
    rfl
  | @typedLiteral v t e h =>
    unfold mkTypedLiteral at h
    split at h
    · cases h
      cases hnull
      exact honest _ (self_mem_parts _) rfl
    · cases h
  | @call op operands e h made ih =>
    have hoperands := validate_of_mkCall h hvalid
    obtain ⟨t, ht, h⟩ := bind_eq_ok.1 h
    cases h
    obtain ⟨cs, c, hcs, hcall, hvalue⟩ := evaluate_call_eq_ok.1 hnull
    refine nullable_of_call ht hcall (forall₂_imp_of_mem hcs fun o ho c hc v hv => ?_) hvalue
    rw [← evaluate_of_compile hc] at hv
    refine ⟨((made o ho).compiles (hoperands o ho)).conforms hrow.conforms hv, ?_⟩
    rintro rfl
    refine ih o ho (hoperands o ho) (fun part hpart => ?_) hv
    exact honest part (mem_parts_of_operand ho hpart)
  | @cast e target made ih =>
    have hoperand := validateAll_eq_ok.1 hvalid e List.mem_cons_self
    obtain ⟨cs, c, hcs, hcall, hvalue⟩ := evaluate_call_eq_ok.1 hnull
    obtain ⟨c', rfl⟩ := List.length_eq_one_iff.1 hcs.length_eq.symm
    have hc' := (List.forall₂_cons.1 hcs).1
    cases hcall
    obtain ⟨v, hv, hcast⟩ := bind_eq_ok.1 hvalue
    rcases Value.castTo_eq_null hcast with rfl | htarget
    · refine ih hoperand (fun part hpart => ?_) (by rw [evaluate_of_compile hc', hv])
      exact honest part (mem_parts_of_operand List.mem_cons_self hpart)
    · exact honest _ (self_mem_parts _) htarget

/-- A value of an expression has the expression's type, nullability included, if all that is
declared not null in the expression is so. -/
theorem Made.respects (h : e.Made) (hvalid : e.validate schema = .ok ())
    (honest : ∀ part ∈ e.parts, part.Honest schema) (hrow : row.Respects schema)
    (hv : e.evaluate schema row = .ok v) : v.Respects e.type := by
  refine ⟨(h.compiles hvalid).conforms hrow.conforms hv, ?_⟩
  rintro rfl
  exact h.nullable hvalid honest hrow hv

end Expr
end Relational
