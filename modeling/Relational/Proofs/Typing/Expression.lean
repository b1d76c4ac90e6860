import Relational.Proofs.Typing.Evaluation

/-!
# Type soundness of expressions

Every expression that the checked constructors make over a schema compiles there, and over a
conforming row it yields a value of its type.
-/
namespace Relational

namespace Expr
variable {schema : Schema}

inductive Built (schema : Schema) : Expr → Prop
  | column {i : Nat} {e : Expr} (h : mkColumn schema i = .ok e) : Built schema e
  | literal (v : Value) : Built schema (mkLiteral v)
  | typedLiteral {v : Value} {t : SqlType} {e : Expr} (h : mkTypedLiteral v t = .ok e) :
    Built schema e
  | call {op : Op} {operands : List Expr} {e : Expr} (h : mkCall op operands = .ok e)
      (built : ∀ o ∈ operands, Built schema o) : Built schema e
  | cast {e : Expr} (target : DataType) (built : Built schema e) : Built schema (mkCast e target)
  | conjunction {exprs : List Expr} {e : Expr} (h : conjunction exprs = .ok e)
      (built : ∀ o ∈ exprs, Built schema o) : Built schema e

theorem requireBoolean_eq_ok {e : Expr} {u : Unit} :
    requireBoolean e = .ok u ↔ e.dataType = .boolean ∨ e.dataType = .null := by
  simp [requireBoolean, require_eq_ok]

end Expr

namespace Compiled
open Relational.Expr Value
variable {schema : Schema} {row : Row} {e : Expr} {es : List Expr} {c : Compiled}
  {cs : List Compiled} {t : SqlType}

def For (schema : Schema) (e : Expr) (c : Compiled) : Prop :=
  c.type = e.dataType ∧ c.Sound schema

theorem sound_of_forall₂ (h : List.Forall₂ (For schema) es cs) : ∀ c ∈ cs, c.Sound schema := by
  induction h with
  | nil => simp
  | cons hc _ ih => exact List.forall_mem_cons.2 ⟨hc.2, ih⟩

theorem boolean_of_forall₂ (h : List.Forall₂ (For schema) es cs)
    (hes : ∀ e ∈ es, requireBoolean e = .ok ()) :
    ∀ c ∈ cs, c.Sound schema ∧ (c.type = .boolean ∨ c.type = .null) := by
  induction h with
  | nil => simp
  | cons hc _ ih =>
    obtain ⟨he, hes⟩ := List.forall_mem_cons.1 hes
    exact List.forall_mem_cons.2 ⟨⟨hc.2, hc.1 ▸ requireBoolean_eq_ok.1 he⟩, ih hes⟩

theorem evalCase_yields (out : DataType) (hrow : row.Conforms schema)
    (h : List.Forall₂ (For schema) es cs)
    (hconditions : ∀ e ∈ (caseBranches es).1, requireBoolean e = .ok ()) :
    Yields (·.Conforms out) (evalCase out row cs) := by
  -- by the pairs of a condition and a result
  induction es using caseBranches.induct generalizing cs with
  | case1 condition result rest _ _ _ ih =>
    cases h with | cons hcondition h =>
    cases h with | cons hresult hrest =>
    obtain ⟨hboolean, hconditions⟩ := List.forall_mem_cons.1 hconditions
    have htype := hcondition.1 ▸ requireBoolean_eq_ok.1 hboolean
    unfold evalCase
    refine (hcondition.2 row hrow).bind fun v hv => ?_
    refine (truth?_yields _ hv htype).bind fun b _ => ?_
    split
    · exact (hresult.2 row hrow).bind fun w _ => castTo_yields w out
    · exact ih hrest hconditions
  | case2 rest hpair =>
    cases h with
    | nil => exact null_conforms out
    | cons hc h =>
      cases h with
      | nil => exact (hc.2 row hrow).bind fun v _ => castTo_yields v out
      | cons _ _ => exact absurd rfl (hpair _ _ _)

theorem evalCall_sound {op : Op} (ht : callType op es = .ok t)
    (h : List.Forall₂ (For schema) es cs) :
    ∃ c, call op cs t.dataType = .ok c ∧ c.type = t.dataType ∧ c.Sound schema := by
  have hsound := sound_of_forall₂ h
  cases op with
  | compare k =>
    simp only [callType] at ht
    split at ht
    next l r =>
      simp only [bind_eq_ok, require_eq_ok, pure_eq_ok, Except.ok.injEq] at ht
      obtain ⟨_, hcomparable, rfl⟩ := ht
      cases h with | cons hl h =>
      cases h with | cons hr h =>
      cases h
      rw [← hl.1, ← hr.1] at hcomparable
      exact ⟨_, rfl, rfl, binary_sound hl.2 hr.2 fun x y hx hy hxnull hynull =>
        compareValues_yields k hcomparable hx hy hxnull hynull⟩
    · cases ht
  | arith a =>
    simp only [callType] at ht
    split at ht
    next l r =>
      simp only [bind_eq_ok, pure_eq_ok, Except.ok.injEq] at ht
      obtain ⟨out, hout, rfl⟩ := ht
      cases h with | cons hl h =>
      cases h with | cons hr h =>
      cases h
      rw [← hl.1, ← hr.1] at hout
      exact ⟨_, rfl, rfl, binary_sound hl.2 hr.2 fun x y hx hy hxnull hynull =>
        arithValues_yields hout hx hy hxnull hynull⟩
    · cases ht
  | and | or =>
    simp only [callType, bind_eq_ok, pure_eq_ok, Except.ok.injEq] at ht
    obtain ⟨_, -, _, hboolean, rfl⟩ := ht
    have hcs := boolean_of_forall₂ h (forM_eq_ok.1 hboolean)
    exact ⟨_, rfl, rfl, fun row hrow => evalJunction_yields _ _ _ hrow hcs⟩
  | not =>
    simp only [callType, requireCount, bind_eq_ok, require_eq_ok, pure_eq_ok, Except.ok.injEq] at ht
    obtain ⟨_, hcount, _, hboolean, rfl⟩ := ht
    have hcs := boolean_of_forall₂ h (forM_eq_ok.1 hboolean)
    obtain ⟨c, rfl⟩ : ∃ c, cs = [c] := List.length_eq_one_iff.1 (by simp_all [h.length_eq])
    obtain ⟨hc, htype⟩ := hcs c List.mem_cons_self
    refine ⟨_, rfl, rfl, fun row hrow => (hc row hrow).bind fun v hv => ?_⟩
    exact (truth?_yields _ hv htype).bind fun b _ => ofTruth_conforms _
  | isNull | isNotNull =>
    simp only [callType, requireCount, bind_eq_ok, require_eq_ok, pure_eq_ok, Except.ok.injEq] at ht
    obtain ⟨_, hcount, rfl⟩ := ht
    obtain ⟨c, rfl⟩ : ∃ c, cs = [c] := List.length_eq_one_iff.1 (by simp_all [h.length_eq])
    refine ⟨_, rfl, rfl, fun row hrow => ?_⟩
    exact (hsound c List.mem_cons_self row hrow).bind fun v _ => boolean_conforms _
  | isIn =>
    simp only [callType] at ht
    split at ht
    next probe candidate rest =>
      simp only [bind_eq_ok, pure_eq_ok, Except.ok.injEq] at ht
      obtain ⟨_, -, rfl⟩ := ht
      cases h with | cons hprobe h =>
      cases h with | cons hc h =>
      refine ⟨_, rfl, rfl, fun row hrow => (hprobe.2 row hrow).bind fun v _ => ?_⟩
      split
      · exact null_conforms _
      · exact evalIn_yields v false hrow fun c hc => hsound c (List.mem_cons_of_mem _ hc)
    · cases ht
  | case =>
    simp only [callType, bind_eq_ok, require_eq_ok, pure_eq_ok, Except.ok.injEq,
      Bool.and_eq_true, decide_eq_true_eq, beq_iff_eq] at ht
    obtain ⟨_, ⟨hfew, hodd⟩, _, hconditions, out, -, rfl⟩ := ht
    rw [h.length_eq] at hfew hodd
    refine ⟨⟨out, fun row => evalCase out row cs⟩, ?_, rfl, fun row hrow => ?_⟩
    · simp [call, hodd, Nat.not_lt.2 hfew]
    · exact evalCase_yields out hrow h (forM_eq_ok.1 hconditions)
  | coalesce =>
    simp only [callType, bind_eq_ok, pure_eq_ok, Except.ok.injEq] at ht
    obtain ⟨_, -, out, -, rfl⟩ := ht
    exact ⟨_, rfl, rfl, fun row hrow => evalCoalesce_yields out hrow hsound⟩
  | cast => cases ht

end Compiled

namespace Expr
open Compiled
variable {schema : Schema} {e : Expr} {es : List Expr}

def Compiles (schema : Schema) (e : Expr) : Prop :=
  ∃ c, e.compile schema = .ok c ∧ c.For schema e

theorem compileAll_of_compiles (h : ∀ e ∈ es, Compiles schema e) :
    ∃ cs, compileAll schema es = .ok cs ∧ List.Forall₂ (For schema) es cs := by
  induction es with
  | nil => exact ⟨[], rfl, .nil⟩
  | cons e rest ih =>
    obtain ⟨⟨c, hcompile, hc⟩, hrest⟩ := List.forall_mem_cons.1 h
    obtain ⟨cs, hcompileAll, hcs⟩ := ih hrest
    exact ⟨c :: cs, by simp [compileAll, hcompile, hcompileAll], .cons hc hcs⟩

theorem compiles_reference {i : Nat} {t : SqlType} {f : Field} (hf : schema[i]? = some f)
    (ht : f.type.dataType = t.dataType) : Compiles schema (.column i t) := by
  refine ⟨_, by simp only [compile, hf]; rfl, ht, fun row hrow => ?_⟩
  obtain ⟨v, hv, hconforms⟩ := hrow.getElem hf
  simp only [hv]
  exact hconforms

theorem compiles_column {i : Nat} (h : mkColumn schema i = .ok e) : Compiles schema e := by
  unfold mkColumn at h
  split at h
  next f hf =>
    cases h
    exact compiles_reference hf rfl
  · cases h

theorem compiles_literal {v : Value} {t : SqlType} (h : v.Conforms t.dataType) :
    Compiles schema (.literal v t) :=
  ⟨_, rfl, rfl, fun _ _ => h⟩

theorem compiles_typedLiteral {v : Value} {t : SqlType} (h : mkTypedLiteral v t = .ok e) :
    Compiles schema e := by
  simp only [mkTypedLiteral, Bool.or_eq_true, Value.isNull_iff, beq_iff_eq] at h
  split at h
  next hv =>
    cases h
    exact compiles_literal (hv.imp id .inl)
  · cases h

theorem compiles_call {op : Op} (h : mkCall op es = .ok e) (hes : ∀ o ∈ es, Compiles schema o) :
    Compiles schema e := by
  simp only [mkCall, bind_eq_ok, pure_eq_ok, Except.ok.injEq] at h
  obtain ⟨t, ht, rfl⟩ := h
  obtain ⟨cs, hcompileAll, hcs⟩ := compileAll_of_compiles hes
  obtain ⟨c, hcall, htype, hsound⟩ := evalCall_sound ht hcs
  exact ⟨c, by simp [compile, hcompileAll, hcall], htype, hsound⟩

theorem compiles_cast (target : DataType) (h : Compiles schema e) :
    Compiles schema (mkCast e target) := by
  obtain ⟨c, hcompile, hc⟩ := h
  refine ⟨_, by simp only [mkCast, compile, compileAll, hcompile, pure_eq_ok, ok_bind]; rfl, rfl,
    fun row hrow => ?_⟩
  exact (hc.2 row hrow).bind fun v _ => v.castTo_yields target

theorem Built.compiles (h : Built schema e) : Compiles schema e := by
  induction h with
  | column h => exact compiles_column h
  | literal v => exact compiles_literal v.conforms_dataType
  | typedLiteral h => exact compiles_typedLiteral h
  | call h _ ih => exact compiles_call h ih
  | cast target _ ih => exact compiles_cast target ih
  | @conjunction exprs e h _ ih =>
    cases exprs with
    | nil =>
      cases h
      exact compiles_literal (Value.boolean_conforms true)
    | cons first rest =>
      cases rest with
      | nil =>
        cases h
        exact ih _ List.mem_cons_self
      | cons second rest => exact compiles_call h ih

end Expr
end Relational
