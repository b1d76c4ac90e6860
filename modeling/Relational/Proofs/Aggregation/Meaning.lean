import Relational.Proofs.Expr.Evaluation
import Relational.Proofs.Typing.Program
import Relational.Proofs.Value.IntegerCast

/-!
# What expressions of programs come to

On one row, from what the operands come to: the operators of which the programs of the aggregates
are made. A value is its own conversion to its type.
-/
namespace Relational

namespace Value
variable {v : Value} {t : DataType}

@[simp] theorem null_castTo (t : DataType) : null.castTo t = .ok .null := rfl

theorem castTo_self (hv : v.Conforms t) : v.castTo t = .ok v := by
  by_cases hnull : v = .null
  · rw [hnull, null_castTo]
  rcases hv.cases hnull with rfl | ⟨htext, rfl⟩
  · cases v with
    | null => exact absurd rfl hnull
    | int32 n =>
      have hcast : (int32 n).castTo? .int32 = some (int32 n) := by
        simp [castTo?, castInteger?, integer?, int32?_toInt]
      simp [castTo, dataType, isNull, isCastTarget, hcast]
    | int64 n =>
      have hcast : (int64 n).castTo? .int64 = some (int64 n) := by
        simp [castTo?, castInteger?, integer?, int64?_toInt]
      simp [castTo, dataType, isNull, isCastTarget, hcast]
    | float32 x =>
      have hcast : (float32 x).castTo? .float32 = some (float32 x) :=
        congrArg (some <| float32 ·) (Binary.Word.convert_single_double x)
      simp [castTo, dataType, isNull, isCastTarget, hcast]
    | boolean | float64 | utf8 => rfl
  · cases v <;> cases htext
    rfl

end Value

namespace Expr
open Value Compiled
variable {schema : Schema} {row : Row} {a b c e : Expr} {es : List Expr} {s t : DataType} {op : Op}
  {v w : Value} {x y : Except Error Value} {cs : List Compiled} {c' : Compiled}

/-- Made over the schema, and to that outcome on the row. -/
structure Means (schema : Schema) (row : Row) (e : Expr) (t : DataType)
    (outcome : Except Error Value) : Prop where
  makes : Makes schema e t
  value : e.evaluate schema row = outcome

theorem Means.code (h : Means schema row e t x) :
    ∃ c, e.compile schema = .ok c ∧ c.eval row = x := by
  obtain ⟨c, hc, -⟩ := h.makes.1.compiles
  exact ⟨c, hc, (evaluate_of_compile hc).symm.trans h.value⟩

theorem Makes.evaluate_call (h : Makes schema e t) (hcall : mkCall op es = .ok e)
    (hcs : List.Forall₂ (fun e c => e.compile schema = .ok c) es cs)
    (hcode : Compiled.call op cs t = .ok c') : e.evaluate schema row = c'.eval row := by
  simp only [mkCall, bind_eq_ok, pure_eq_ok, Except.ok.injEq] at hcall
  obtain ⟨u, -, rfl⟩ := hcall
  have hu : u.dataType = t := h.2
  refine evaluate_of_compile ?_
  rw [compile, compileAll_eq_ok.2 hcs, ok_bind, hu, hcode]

theorem means_column (schema : Schema) (row : Row) {i : Nat} {f : Field} (hf : schema[i]? = some f)
    (hv : row[i]? = some v) :
    ∃ e, mkColumn schema i = .ok e ∧ Means schema row e f.type.dataType (.ok v) := by
  obtain ⟨e, he, makes⟩ := makes_column hf
  refine ⟨e, he, makes, ?_⟩
  simp only [mkColumn, hf, Except.ok.injEq] at he
  subst he
  simp only [evaluate, compile, hf, ok_bind, hv]

theorem means_literal (v : Value) : Means schema row (mkLiteral v) v.dataType (.ok v) :=
  ⟨makes_literal v, rfl⟩

theorem means_cast (h : Means schema row a s (.ok v)) (t : DataType) :
    Means schema row (mkCast a t) t (v.castTo t) := by
  obtain ⟨c, hc, hv⟩ := h.code
  refine ⟨makes_cast h.makes t, ?_⟩
  simp only [evaluate, mkCast, compile, compileAll, hc, ok_bind, pure_eq_ok, Compiled.call, hv]

theorem means_isNull (h : Means schema row a t (.ok v)) :
    ∃ e, Program.isNull a = .ok e ∧ Means schema row e .boolean (.ok (.boolean v.isNull)) := by
  obtain ⟨e, he, makes⟩ := makes_isNull h.makes
  obtain ⟨c, hc, hv⟩ := h.code
  refine ⟨e, he, makes, ?_⟩
  rw [makes.evaluate_call he (.cons hc .nil) rfl]
  simp only [hv, ok_bind, pure_eq_ok]

theorem means_arith {f : Arithmetic} {out : DataType} (ha : Means schema row a s (.ok v))
    (hb : Means schema row b t (.ok w)) (h : arithmeticType f s t = .ok out) :
    ∃ e, mkCall (.arith f) [a, b] = .ok e ∧ Means schema row e out
      (if v.isNull || w.isNull then .ok .null else arithValues f out v w) := by
  obtain ⟨e, he, makes⟩ := makes_arith ha.makes hb.makes h
  obtain ⟨ca, hca, hv⟩ := ha.code
  obtain ⟨cb, hcb, hw⟩ := hb.code
  refine ⟨e, he, makes, ?_⟩
  rw [makes.evaluate_call he (.cons hca (.cons hcb .nil)) rfl]
  simp only [binary, hv, hw, ok_bind, pure_eq_ok]

theorem means_compare (k : Comparison) (ha : Means schema row a s (.ok v))
    (hb : Means schema row b t (.ok w)) (h : s.comparable t) :
    ∃ e, mkCall (.compare k) [a, b] = .ok e ∧ Means schema row e .boolean
      (if v.isNull || w.isNull then .ok .null else compareValues k v w) := by
  obtain ⟨e, he, makes⟩ := makes_compare k ha.makes hb.makes h
  obtain ⟨ca, hca, hv⟩ := ha.code
  obtain ⟨cb, hcb, hw⟩ := hb.code
  refine ⟨e, he, makes, ?_⟩
  rw [makes.evaluate_call he (.cons hca (.cons hcb .nil)) rfl]
  simp only [binary, hv, hw, ok_bind, pure_eq_ok]

theorem means_coalesce (ha : Means schema row a t (.ok v)) (hb : Means schema row b t (.ok w)) :
    ∃ e, mkCall .coalesce [a, b] = .ok e ∧
      Means schema row e t ((if v.isNull then w else v).castTo t) := by
  obtain ⟨e, he, makes⟩ := makes_coalesce ha.makes hb.makes
  obtain ⟨ca, hca, hv⟩ := ha.code
  obtain ⟨cb, hcb, hw⟩ := hb.code
  refine ⟨e, he, makes, ?_⟩
  rw [makes.evaluate_call he (.cons hca (.cons hcb .nil)) rfl]
  simp only [evalCoalesce, hv, hw, ok_bind]
  cases hnull : v.isNull with
  | false => rfl
  | true =>
    cases hnull' : w.isNull with
    | false => rfl
    | true =>
      rw [(isNull_iff w).1 hnull']
      rfl

theorem means_choice {holds : Bool} (hc : Means schema row c .boolean (.ok (.boolean holds)))
    (ha : Means schema row a t x) (hb : Means schema row b t y) :
    ∃ e, mkCall .case [c, a, b] = .ok e ∧
      Means schema row e t ((if holds then x else y) >>= (·.castTo t)) := by
  obtain ⟨e, he, makes⟩ := makes_choice hc.makes ha.makes hb.makes
  obtain ⟨cc, hcc, hholds⟩ := hc.code
  obtain ⟨ca, hca, hx⟩ := ha.code
  obtain ⟨cb, hcb, hy⟩ := hb.code
  have hcode : Compiled.call .case [cc, ca, cb] t =
      .ok ⟨t, fun row => evalCase t row [cc, ca, cb]⟩ := if_neg (by simp)
  refine ⟨e, he, makes, ?_⟩
  rw [makes.evaluate_call he (.cons hcc (.cons hca (.cons hcb .nil))) hcode]
  cases holds <;> simp [evalCase, hholds, hx, hy, truth?]

theorem means_skipNulls (ha : Means schema row a t (.ok v)) (hb : Means schema row b t (.ok w))
    (hop : ∃ e, mkCall op [a, b] = .ok e ∧ Means schema row e t x) :
    ∃ e, Program.skipNulls op a b = .ok e ∧ Means schema row e t
      ((if w.isNull then .ok v else if v.isNull then .ok w else x) >>= (·.castTo t)) := by
  obtain ⟨nullA, hnullA, hA⟩ := means_isNull ha
  obtain ⟨nullB, hnullB, hB⟩ := means_isNull hb
  obtain ⟨both, hboth, hop⟩ := hop
  obtain ⟨e, he, makes⟩ := makes_skipNulls ha.makes hb.makes ⟨both, hboth, hop.makes⟩
  obtain ⟨ca, hca, hv⟩ := ha.code
  obtain ⟨cb, hcb, hw⟩ := hb.code
  obtain ⟨cA, hcA, hvA⟩ := hA.code
  obtain ⟨cB, hcB, hvB⟩ := hB.code
  obtain ⟨cx, hcx, hx⟩ := hop.code
  have hcall : mkCall .case [nullB, a, nullA, b, both] = .ok e := by
    simpa only [Program.skipNulls, hnullA, hnullB, hboth, ok_bind] using he
  have hcode : Compiled.call .case [cB, ca, cA, cb, cx] t =
      .ok ⟨t, fun row => evalCase t row [cB, ca, cA, cb, cx]⟩ := if_neg (by simp)
  refine ⟨e, he, makes, ?_⟩
  rw [makes.evaluate_call hcall
    (.cons hcB (.cons hca (.cons hcA (.cons hcb (.cons hcx .nil))))) hcode]
  cases hnull : w.isNull <;> cases hnull' : v.isNull <;>
    simp [evalCase, hvA, hvB, hv, hw, hx, truth?, hnull, hnull']

theorem means_junction (hop : op = .and ∨ op = .or) (ha : Means schema row a .boolean (.ok v))
    (hb : Means schema row b .boolean (.ok w)) :
    ∃ e, mkCall op [a, b] = .ok e ∧ ∃ x, Means schema row e .boolean x ∧
      ∀ p q, v = .boolean p → w = .boolean q →
        x = .ok (.boolean (if op = .and then p && q else p || q)) := by
  obtain ⟨e, he, makes⟩ := makes_junction hop ha.makes hb.makes
  obtain ⟨ca, hca, hv⟩ := ha.code
  obtain ⟨cb, hcb, hw⟩ := hb.code
  refine ⟨e, he, _, ⟨makes, rfl⟩, ?_⟩
  rintro p q rfl rfl
  rcases hop with rfl | rfl
  · rw [makes.evaluate_call he (.cons hca (.cons hcb .nil)) rfl]
    cases p <;> cases q <;> simp [evalJunction, hv, hw, truth?]
  · rw [makes.evaluate_call he (.cons hca (.cons hcb .nil)) rfl]
    cases p <;> cases q <;> simp [evalJunction, hv, hw, truth?]

end Expr
end Relational
