import Relational.Expr.Eval
import Relational.Proofs.Outcome

/-!
# Evaluating an expression

The parts of an expression; compiling and running it in one step, and what that does to a call: the
operands are compiled first, and the call runs their code.
-/
namespace Relational.Expr
variable {schema : Schema} {row : Row} {e : Expr} {es operands : List Expr} {op : Op} {t : SqlType}
  {v : Value} {cs : List Compiled}

@[elab_as_elim]
theorem operandInduction {motive : Expr → Prop}
    (literal : ∀ v t, motive (.literal v t))
    (column : ∀ i t, motive (.column i t))
    (call : ∀ op operands t, (∀ o ∈ operands, motive o) → motive (.call op operands t))
    (correlation : ∀ id t, motive (.correlation id t))
    (tableColumn : ∀ table i t, motive (.tableColumn table i t)) : ∀ e, motive e
  | .literal v t => literal v t
  | .column i t => column i t
  | .call op operands t => call op operands t fun o _ =>
    operandInduction literal column call correlation tableColumn o
  | .correlation id t => correlation id t
  | .tableColumn table i t => tableColumn table i t

mutual
def parts : Expr → List Expr
  | call op operands t => call op operands t :: partsOf operands
  | e => [e]

def partsOf : List Expr → List Expr
  | [] => []
  | e :: rest => e.parts ++ partsOf rest
end

theorem partsOf_eq_flatMap (es : List Expr) : partsOf es = es.flatMap parts := by
  induction es with
  | nil => rfl
  | cons e rest ih => rw [partsOf, ih, List.flatMap_cons]

theorem mem_parts_of_operand {o part : Expr} (ho : o ∈ operands) (h : part ∈ o.parts) :
    part ∈ (call op operands t).parts := by
  rw [parts, partsOf_eq_flatMap]
  exact List.mem_cons_of_mem _ (List.mem_flatMap.2 ⟨o, ho, h⟩)

theorem self_mem_parts (e : Expr) : e ∈ e.parts := by
  cases e <;> simp [parts]

theorem validateAll_eq_ok :
    validateAll schema es = .ok () ↔ ∀ e ∈ es, e.validate schema = .ok () := by
  induction es with
  | nil => simp [validateAll]
  | cons e rest ih =>
    rw [validateAll, bind_eq_ok, List.forall_mem_cons, ← ih]
    exact ⟨fun ⟨_, he, hrest⟩ => ⟨he, hrest⟩, fun ⟨he, hrest⟩ => ⟨(), he, hrest⟩⟩

def evaluate (schema : Schema) (e : Expr) (row : Row) : Except Error Value := do
  (← e.compile schema).eval row

theorem compileAll_eq_mapM (schema : Schema) (es : List Expr) :
    compileAll schema es = es.mapM (compile schema) := by
  induction es with
  | nil => rfl
  | cons e rest ih => simp only [compileAll, List.mapM_cons, ih]

theorem compileAll_eq_ok :
    compileAll schema es = .ok cs ↔
      List.Forall₂ (fun e c => e.compile schema = .ok c) es cs := by
  rw [compileAll_eq_mapM, mapM_eq_ok]

theorem evaluate_of_compile {c : Compiled} (h : e.compile schema = .ok c) :
    e.evaluate schema row = c.eval row := by
  rw [evaluate, h, ok_bind]

theorem evaluate_eq_ok :
    e.evaluate schema row = .ok v ↔ ∃ c, e.compile schema = .ok c ∧ c.eval row = .ok v :=
  bind_eq_ok

theorem evaluate_call_eq_ok :
    (call op operands t).evaluate schema row = .ok v ↔
      ∃ cs c, List.Forall₂ (fun e c => e.compile schema = .ok c) operands cs ∧
        Compiled.call op cs t.dataType = .ok c ∧ c.eval row = .ok v := by
  simp only [evaluate_eq_ok, compile, bind_eq_ok, compileAll_eq_ok]
  constructor
  · rintro ⟨c, ⟨cs, hcs, hc⟩, hv⟩
    exact ⟨cs, c, hcs, hc, hv⟩
  · rintro ⟨cs, c, hcs, hc, hv⟩
    exact ⟨c, ⟨cs, hcs, hc⟩, hv⟩

theorem eval_column {i : Nat} {c : Compiled} (hcolumn : e.column? = some i)
    (hcompile : e.compile schema = .ok c) (h : c.eval row = .ok v) : row[i]? = some v := by
  cases e with
  | column j t =>
    cases hcolumn
    simp only [compile] at hcompile
    split at hcompile
    · cases hcompile
    · cases hcompile
      simp only at h
      split at h
      next hv =>
        cases h
        exact hv
      · cases h
  | _ => cases hcolumn

end Relational.Expr
