import Relational.Proofs.Expr.Substitution
import Relational.Proofs.Plan.Document
import Relational.Proofs.Typing.Expression

/-!
# Conditions

What keeps a predicate fit for a conjunction while it is taken apart, rewritten over other columns
and put together again: it and its conjuncts are boolean, and a conjunct that is a column has the
type of that column. Nothing else need be kept, and is not: substitution leaves the type of a call
as it was over the former columns.
-/
namespace Relational.Expr
variable {ε : Type} {schema schema' : Schema} {e e' part : Expr} {es operands : List Expr}
  {t : SqlType}

def IsTruth (e : Expr) : Prop := e.dataType = .boolean ∨ e.dataType = .null

/-- A boolean that is no conjunction; a column of the schema with its type if it is a column. -/
structure Conjunct (schema : Schema) (e : Expr) : Prop where
  truth : e.IsTruth
  column : ∀ i t, e = .column i t → ∃ f, schema[i]? = some f ∧ f.type.dataType = t.dataType

structure Condition (schema : Schema) (e : Expr) : Prop where
  truth : e.IsTruth
  conjuncts : ∀ part ∈ e.conjuncts, Conjunct schema part

theorem conjunctsOf_eq_flatMap : conjunctsOf es = es.flatMap conjuncts := by
  induction es with
  | nil => rfl
  | cons e rest ih => rw [conjunctsOf, ih, List.flatMap_cons]

theorem conjuncts_eq_singleton (h : ∀ operands t, e ≠ .call .and operands t) :
    e.conjuncts = [e] := by
  unfold conjuncts
  split
  next operands t => exact absurd rfl (h operands t)
  · rfl

theorem ne_and_of_mem_conjuncts (h : part ∈ e.conjuncts) :
    ∀ operands t, part ≠ .call .and operands t := by
  induction e using operandInduction with
  | call op operands t ih =>
    by_cases hop : op = .and
    · subst hop
      rw [conjuncts, conjunctsOf_eq_flatMap] at h
      obtain ⟨o, ho, hpart⟩ := List.mem_flatMap.1 h
      exact ih o ho hpart
    · rw [conjuncts_eq_singleton (by simp [hop])] at h
      simp [List.mem_singleton.1 h, hop]
  | _ => simp [List.mem_singleton.1 h]

theorem Condition.of_mem (h : Condition schema e) (hpart : part ∈ e.conjuncts) :
    Condition schema part := by
  have hconjunct := h.conjuncts part hpart
  refine ⟨hconjunct.truth, ?_⟩
  rw [conjuncts_eq_singleton (ne_and_of_mem_conjuncts hpart)]
  exact List.forall_mem_singleton.2 hconjunct

theorem Condition.column {i : Nat} (h : Condition schema (.column i t)) :
    ∃ f, schema[i]? = some f ∧ f.type.dataType = t.dataType :=
  (h.conjuncts _ (List.mem_singleton_self _)).column i t rfl

/-! Conjunction -/

theorem conjunction_isTruth (h : ∀ e ∈ es, e.IsTruth) : ∃ e, conjunction es = .ok e := by
  match es with
  | [] => exact ⟨_, rfl⟩
  | [e] => exact ⟨e, rfl⟩
  | first :: second :: rest =>
    have htype : ((first :: second :: rest).forM requireBoolean) = .ok () :=
      forM_eq_ok.2 fun e he => requireBoolean_eq_ok.2 (h e he)
    exact ⟨_, by simp [conjunction, mkCall, callType, require, htype]; rfl⟩

theorem condition_of_conjunction (h : ∀ e ∈ es, Condition schema e)
    (he : conjunction es = .ok e) : Condition schema e := by
  match es with
  | [] =>
    cases he
    exact ⟨.inl rfl, List.forall_mem_singleton.2 ⟨.inl rfl, by simp [mkLiteral]⟩⟩
  | [e] =>
    cases he
    exact h e (List.mem_singleton_self e)
  | first :: second :: rest =>
    simp only [conjunction, mkCall, callType, bind_eq_ok] at he
    obtain ⟨t, ⟨_, -, _, -, ht⟩, he⟩ := he
    cases he
    cases ht
    refine ⟨.inl rfl, fun part hpart => ?_⟩
    rw [conjuncts, conjunctsOf_eq_flatMap] at hpart
    obtain ⟨o, ho, hpart⟩ := List.mem_flatMap.1 hpart
    exact (h o ho).conjuncts part hpart

/-! Substitution -/

theorem dataType_substitute {f : Nat → SqlType → Except ε Expr} (h : e.substitute f = .ok e')
    (hcolumn : ∀ i t, e ≠ .column i t) : e'.dataType = e.dataType := by
  cases e with
  | column i t => exact absurd rfl (hcolumn i t)
  | call op operands t =>
    obtain ⟨operands', -, rfl⟩ := substitute_call_eq_ok.1 h
    rfl
  | _ =>
    cases h
    rfl

theorem conjuncts_substitute {f : Nat → SqlType → Except ε Expr} (h : e.substitute f = .ok e')
    {part' : Expr} (hpart : part' ∈ e'.conjuncts) :
    ∃ part ∈ e.conjuncts, ∃ replaced, part.substitute f = .ok replaced ∧
      part' ∈ replaced.conjuncts := by
  induction e using operandInduction generalizing e' with
  | call op operands t ih =>
    by_cases hop : op = .and
    · subst hop
      obtain ⟨operands', hoperands, rfl⟩ := substitute_call_eq_ok.1 h
      rw [conjuncts, conjunctsOf_eq_flatMap] at hpart
      obtain ⟨o', ho', hpart⟩ := List.mem_flatMap.1 hpart
      obtain ⟨o, ho, hreplaced⟩ := forall₂_exists_mem hoperands ho'
      obtain ⟨part, hmem, found⟩ := ih o ho hreplaced hpart
      rw [conjuncts, conjunctsOf_eq_flatMap]
      exact ⟨part, List.mem_flatMap.2 ⟨o, ho, hmem⟩, found⟩
    · rw [conjuncts_eq_singleton (by simp [hop])]
      exact ⟨_, List.mem_singleton_self _, e', h, hpart⟩
  | _ => exact ⟨_, List.mem_singleton_self _, e', h, hpart⟩

theorem Condition.substitute {f : Nat → SqlType → Except ε Expr} (h : Condition schema e)
    (he : e.substitute f = .ok e')
    (hf : ∀ i t replaced, Condition schema (.column i t) → f i t = .ok replaced →
      Condition schema' replaced) : Condition schema' e' := by
  by_cases hcolumn : ∃ i t, e = .column i t
  · obtain ⟨i, t, rfl⟩ := hcolumn
    exact hf i t e' h he
  refine ⟨?_, fun part' hpart' => ?_⟩
  · rw [IsTruth, dataType_substitute he (by simpa using hcolumn)]
    exact h.truth
  obtain ⟨part, hpart, replaced, hreplaced, hpart'⟩ := conjuncts_substitute he hpart'
  have hcondition := h.of_mem hpart
  cases part with
  | column i t => exact (hf i t replaced hcondition hreplaced).conjuncts part' hpart'
  | call op operands t =>
    obtain ⟨operands', -, rfl⟩ := substitute_call_eq_ok.1 hreplaced
    have hop : op ≠ .and := fun hop => ne_and_of_mem_conjuncts hpart operands t (by rw [hop])
    rw [conjuncts_eq_singleton (by simp [hop])] at hpart'
    obtain rfl := List.mem_singleton.1 hpart'
    exact ⟨hcondition.truth, by simp⟩
  | _ =>
    cases hreplaced
    obtain rfl := List.mem_singleton.1 hpart'
    exact ⟨hcondition.truth, by simp⟩

/-! Checked expressions -/

theorem Condition.mono (h : Condition schema e)
    (hschema : ∀ (i : Nat) (f : Field), schema[i]? = some f →
      ∃ g : Field, schema'[i]? = some g ∧ g.type.dataType = f.type.dataType) :
    Condition schema' e := by
  refine ⟨h.truth, fun part hpart => ⟨(h.conjuncts part hpart).truth, fun i t he => ?_⟩⟩
  obtain ⟨f, hf, htype⟩ := (h.conjuncts part hpart).column i t he
  obtain ⟨g, hg, hsame⟩ := hschema i f hf
  exact ⟨g, hg, hsame.trans htype⟩

theorem isTruth_of_formed_and (h : Formed (.call .and operands t)) :
    ∀ o ∈ operands, o.Formed ∧ o.IsTruth := by
  cases h with
  | call htype hformed =>
    simp only [callType, bind_eq_ok] at htype
    obtain ⟨_, -, _, hboolean, -⟩ := htype
    exact fun o ho => ⟨hformed o ho, requireBoolean_eq_ok.1 (forM_eq_ok.1 hboolean o ho)⟩

theorem conjuncts_of_formed (hformed : e.Formed) (hvalid : e.validate schema = .ok ())
    (htruth : e.IsTruth) : ∀ part ∈ e.conjuncts, Conjunct schema part := by
  induction e using operandInduction with
  | column i t =>
    refine List.forall_mem_singleton.2 ⟨htruth, fun j u he => ?_⟩
    cases he
    exact readings_of_validate hvalid (i, t) (List.mem_singleton_self _)
  | call op operands t ih =>
    by_cases hop : op = .and
    · subst hop
      rw [validate, validateAll_eq_ok] at hvalid
      intro part hpart
      rw [conjuncts, conjunctsOf_eq_flatMap] at hpart
      obtain ⟨o, ho, hpart⟩ := List.mem_flatMap.1 hpart
      obtain ⟨hoFormed, hoTruth⟩ := isTruth_of_formed_and hformed o ho
      exact ih o ho hoFormed (hvalid o ho) hoTruth part hpart
    · rw [conjuncts_eq_singleton (by simp [hop])]
      exact List.forall_mem_singleton.2 ⟨htruth, by simp⟩
  | _ => exact List.forall_mem_singleton.2 ⟨htruth, by simp⟩

theorem condition_of_formed (hformed : e.Formed) (hvalid : e.validate schema = .ok ())
    (htruth : e.IsTruth) : Condition schema e :=
  ⟨htruth, conjuncts_of_formed hformed hvalid htruth⟩

end Relational.Expr
