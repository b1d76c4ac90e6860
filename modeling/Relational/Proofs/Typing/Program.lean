import Relational.Aggregation.Program
import Relational.Proofs.Typing.Expression

/-!
# Typed programs

The programs of the aggregates that are folded by expressions are compiled from expressions of the
types of their states, and so a state keeps its types from row to row.
-/
namespace Relational

namespace DataType

@[simp] theorem join?_self (t : DataType) : t.join? t = some t := by
  by_cases h : t = null <;> simp [join?, h]

theorem unify_of_forall_eq {t : DataType} {types : List DataType} (h : ∀ s ∈ types, s = t)
    (hne : types ≠ []) : unify types = .ok t := by
  have hfold : ∀ types : List DataType, (∀ s ∈ types, s = t) →
      types.foldlM (fun a b => (a.join? b).elim (.error (a, b)) Except.ok) t = .ok t := by
    intro types h
    induction types with
    | nil => rfl
    | cons s rest ih =>
      obtain ⟨rfl, hrest⟩ := List.forall_mem_cons.1 h
      rw [List.foldlM_cons, join?_self]
      exact ih hrest
  cases types with
  | nil => exact absurd rfl hne
  | cons s rest =>
    obtain ⟨rfl, hrest⟩ := List.forall_mem_cons.1 h
    have hstart : null.join? s = some s := by
      by_cases hs : s = null <;> simp [join?, hs]
    rw [unify, List.foldlM_cons, hstart]
    exact hfold rest hrest

end DataType

namespace Expr
variable {schema : Schema} {a b c : Expr} {s t : DataType}

def Makes (schema : Schema) (e : Expr) (t : DataType) : Prop := Built schema e ∧ e.dataType = t

theorem makes_column {i : Nat} {f : Field} (h : schema[i]? = some f) :
    ∃ e, mkColumn schema i = .ok e ∧ Makes schema e f.type.dataType := by
  have hcolumn : mkColumn schema i = .ok (.column i f.type) := by simp only [mkColumn, h]
  exact ⟨_, hcolumn, .column hcolumn, rfl⟩

theorem makes_literal (v : Value) : Makes schema (mkLiteral v) v.dataType := ⟨.literal v, rfl⟩

theorem makes_cast (h : Makes schema a s) (t : DataType) : Makes schema (mkCast a t) t :=
  ⟨.cast t h.1, rfl⟩

theorem makes_call {op : Op} {es : List Expr} {u : SqlType} (h : callType op es = .ok u)
    (hes : ∀ e ∈ es, Built schema e) :
    ∃ e, mkCall op es = .ok e ∧ Makes schema e u.dataType := by
  have hcall : mkCall op es = .ok (.call op es u) := by simp [mkCall, h]
  exact ⟨_, hcall, .call hcall hes, rfl⟩

theorem makes_isNull (h : Makes schema a t) :
    ∃ e, Program.isNull a = .ok e ∧ Makes schema e .boolean :=
  makes_call (u := .boolean false) rfl (by simpa using h.1)

theorem makes_arith {op : Arithmetic} {out : DataType} (ha : Makes schema a s)
    (hb : Makes schema b t) (h : arithmeticType op s t = .ok out) :
    ∃ e, mkCall (.arith op) [a, b] = .ok e ∧ Makes schema e out := by
  obtain ⟨ha, rfl⟩ := ha
  obtain ⟨hb, rfl⟩ := hb
  exact makes_call (u := ⟨out, [a, b].any (·.nullable)⟩) (by simp [callType, h])
    (by simpa using ⟨ha, hb⟩)

theorem makes_compare (k : Comparison) (ha : Makes schema a s) (hb : Makes schema b t)
    (h : s.comparable t) : ∃ e, mkCall (.compare k) [a, b] = .ok e ∧ Makes schema e .boolean := by
  obtain ⟨ha, rfl⟩ := ha
  obtain ⟨hb, rfl⟩ := hb
  exact makes_call (u := .boolean ([a, b].any (·.nullable))) (by simp [callType, require, h])
    (by simpa using ⟨ha, hb⟩)

theorem makes_junction {op : Op} (hop : op = .and ∨ op = .or) (ha : Makes schema a .boolean)
    (hb : Makes schema b .boolean) :
    ∃ e, mkCall op [a, b] = .ok e ∧ Makes schema e .boolean := by
  have hboolean : [a, b].forM requireBoolean = .ok () :=
    forM_eq_ok.2 (by simp [requireBoolean_eq_ok, ha.2, hb.2])
  have hes : ∀ e ∈ [a, b], Built schema e := by simpa using ⟨ha.1, hb.1⟩
  rcases hop with rfl | rfl <;>
    exact makes_call (u := .boolean ([a, b].any (·.nullable)))
      (by simp only [callType, hboolean]; rfl) hes

theorem unifyTypes_of_forall_eq {types : List DataType} (h : ∀ s ∈ types, s = t)
    (hne : types ≠ []) : unifyTypes types = .ok t := by
  simp only [unifyTypes, DataType.unify_of_forall_eq h hne]

theorem makes_coalesce (ha : Makes schema a t) (hb : Makes schema b t) :
    ∃ e, mkCall .coalesce [a, b] = .ok e ∧ Makes schema e t := by
  have hunify : unifyTypes ([a, b].map dataType) = .ok t :=
    unifyTypes_of_forall_eq (by simp [ha.2, hb.2]) (by simp)
  exact makes_call (u := ⟨t, [a, b].all (·.nullable)⟩)
    (by simp only [callType, hunify]; rfl) (by simpa using ⟨ha.1, hb.1⟩)

theorem makes_case {es : List Expr} (hes : ∀ e ∈ es, Built schema e)
    (hfew : 3 ≤ es.length) (hodd : es.length % 2 = 1)
    (hconditions : ∀ e ∈ (caseBranches es).1, e.dataType = .boolean)
    (hresults : ∀ e ∈ (caseBranches es).2, e.dataType = t) (hne : (caseBranches es).2 ≠ []) :
    ∃ e, mkCall .case es = .ok e ∧ Makes schema e t := by
  have hboolean : (caseBranches es).1.forM requireBoolean = .ok () :=
    forM_eq_ok.2 fun e he => requireBoolean_eq_ok.2 (.inl (hconditions e he))
  have hunify : unifyTypes ((caseBranches es).2.map dataType) = .ok t :=
    unifyTypes_of_forall_eq (by simpa using hresults) (by simpa using hne)
  exact makes_call (u := ⟨t, (caseBranches es).2.any (·.nullable)⟩)
    (by simp [callType, require, hfew, hodd, hboolean, hunify]) hes

theorem makes_choice (hc : Makes schema c .boolean) (ha : Makes schema a t)
    (hb : Makes schema b t) : ∃ e, mkCall .case [c, a, b] = .ok e ∧ Makes schema e t :=
  makes_case (by simpa using ⟨hc.1, ha.1, hb.1⟩) (by simp) (by simp) (by simp [caseBranches, hc.2])
    (by simp [caseBranches, ha.2, hb.2]) (by simp [caseBranches])

theorem makes_skipNulls {op : Op} (ha : Makes schema a t) (hb : Makes schema b t)
    (hop : ∃ e, mkCall op [a, b] = .ok e ∧ Makes schema e t) :
    ∃ e, Program.skipNulls op a b = .ok e ∧ Makes schema e t := by
  obtain ⟨nullA, hnullA, hA⟩ := makes_isNull ha
  obtain ⟨nullB, hnullB, hB⟩ := makes_isNull hb
  obtain ⟨both, hboth, hop⟩ := hop
  simp only [Program.skipNulls, hnullA, hnullB, hboth, ok_bind]
  exact makes_case (by simpa using ⟨hB.1, ha.1, hA.1, hb.1, hop.1⟩) (by simp) (by simp)
    (by simp [caseBranches, hA.2, hB.2]) (by simp [caseBranches, ha.2, hb.2, hop.2])
    (by simp [caseBranches])

end Expr

namespace Program
open Relational.Expr
variable {input : Schema} {arg : Nat} {argument : Field} {t : DataType}

def Fills (schema : Schema) (es : List Expr) (state : Schema) : Prop :=
  List.Forall₂ (fun e f => Makes schema e f.type.dataType) es state

structure Source.Typed (input : Schema) (t : DataType) (s : Source) : Prop where
  start : Row.Conforms s.start s.state
  add : Fills (input ++ s.state) s.add s.state
  merge : Fills (s.state ++ s.state) s.merge s.state
  result : Makes s.state s.result t

theorem makes_argument (state : Schema) (h : input[arg]? = some argument) :
    ∃ e, mkColumn (input ++ state) arg = .ok e ∧
      Makes (input ++ state) e argument.type.dataType := by
  refine makes_column ?_
  rw [List.getElem?_append_left (List.getElem?_eq_some_iff.1 h).1, h]

theorem makes_state (input : Schema) {state : Schema} {i : Nat} {f : Field}
    (h : state[i]? = some f) :
    ∃ e, mkColumn (input ++ state) (input.length + i) = .ok e ∧
      Makes (input ++ state) e f.type.dataType := by
  refine makes_column ?_
  rw [List.getElem?_append_right (Nat.le_add_right _ _), Nat.add_sub_cancel_left, h]

theorem plus_float : arithmeticType .plus .float64 .float64 = .ok .float64 := rfl

theorem plus_integer : arithmeticType .plus .int64 .int64 = .ok .int64 := rfl

theorem averageAdd_typed (h : input[arg]? = some argument) :
    ∃ es, averageAdd input arg = .ok es ∧ Fills (input ++ averageState) es averageState := by
  obtain ⟨x, hx, tx⟩ := makes_argument averageState h
  obtain ⟨sum, hsum, tsum⟩ := makes_state input (show averageState[0]? = some _ from rfl)
  obtain ⟨count, hcount, tcount⟩ := makes_state input (show averageState[1]? = some _ from rfl)
  obtain ⟨nullX, hnullX, tnullX⟩ := makes_isNull tx
  obtain ⟨started, hstarted, tstarted⟩ := makes_coalesce tsum (makes_literal (.float64 0))
  obtain ⟨more, hmore, tmore⟩ := makes_arith tstarted (makes_cast tx .float64) plus_float
  obtain ⟨addSum, haddSum, taddSum⟩ := makes_choice tnullX tsum tmore
  obtain ⟨next, hnext, tnext⟩ := makes_arith tcount (makes_literal (.int64 1)) plus_integer
  obtain ⟨addCount, haddCount, taddCount⟩ := makes_choice tnullX tcount tnext
  refine ⟨[addSum, addCount], ?_, .cons taddSum (.cons taddCount .nil)⟩
  rw [Nat.add_zero] at hsum
  simp only [averageAdd, hx, hsum, hcount, hnullX, hstarted, hmore, haddSum, hnext, haddCount,
    ok_bind, pure_eq_ok]

theorem averageMerge_typed :
    ∃ es, averageMerge = .ok es ∧ Fills (averageState ++ averageState) es averageState := by
  obtain ⟨sumL, hsumL, tsumL⟩ :=
    makes_column (show (averageState ++ averageState)[0]? = some _ from rfl)
  obtain ⟨countL, hcountL, tcountL⟩ :=
    makes_column (show (averageState ++ averageState)[1]? = some _ from rfl)
  obtain ⟨sumR, hsumR, tsumR⟩ :=
    makes_column (show (averageState ++ averageState)[2]? = some _ from rfl)
  obtain ⟨countR, hcountR, tcountR⟩ :=
    makes_column (show (averageState ++ averageState)[3]? = some _ from rfl)
  obtain ⟨mergeSum, hmergeSum, tmergeSum⟩ :=
    makes_skipNulls tsumL tsumR (makes_arith tsumL tsumR plus_float)
  obtain ⟨mergeCount, hmergeCount, tmergeCount⟩ := makes_arith tcountL tcountR plus_integer
  refine ⟨[mergeSum, mergeCount], ?_, .cons tmergeSum (.cons tmergeCount .nil)⟩
  simp only [averageMerge, hsumL, hcountL, hsumR, hcountR, hmergeSum, hmergeCount, ok_bind,
    pure_eq_ok]

theorem averageResult_typed :
    ∃ e, averageResult = .ok e ∧ Makes averageState e .float64 := by
  obtain ⟨total, htotal, ttotal⟩ := makes_column (show averageState[0]? = some _ from rfl)
  obtain ⟨number, hnumber, tnumber⟩ := makes_column (show averageState[1]? = some _ from rfl)
  obtain ⟨isZero, hisZero, tisZero⟩ := makes_compare .eq tnumber (makes_literal (.int64 0)) rfl
  have hmissing : mkTypedLiteral .null (.float64 true) = .ok (.literal .null (.float64 true)) := rfl
  have tmissing : Makes averageState (.literal .null (.float64 true)) .float64 :=
    ⟨.typedLiteral hmissing, rfl⟩
  obtain ⟨quotient, hquotient, tquotient⟩ :=
    makes_arith ttotal (makes_cast tnumber .float64)
      (show arithmeticType .divide .float64 .float64 = .ok .float64 from rfl)
  obtain ⟨result, hresult, tresult⟩ := makes_choice tisZero tmissing tquotient
  refine ⟨result, ?_, tresult⟩
  simp only [averageResult, htotal, hnumber, hisZero, hmissing, hquotient, hresult, ok_bind]

theorem average_typed (h : input[arg]? = some argument) :
    ∃ s, average input arg = .ok s ∧ s.Typed input .float64 := by
  obtain ⟨add, hadd, tadd⟩ := averageAdd_typed h
  obtain ⟨merge, hmerge, tmerge⟩ := averageMerge_typed
  obtain ⟨result, hresult, tresult⟩ := averageResult_typed
  refine ⟨⟨averageState, [.null, .int64 0], add, merge, result⟩, ?_, ?_, tadd, tmerge, tresult⟩
  · simp only [average, hadd, hmerge, hresult, ok_bind, pure_eq_ok]
  · exact .cons (Value.null_conforms _) (.cons (.inr (.inl rfl)) .nil)

theorem folding_typed (h : input[arg]? = some argument) (ht : argument.type.dataType = t)
    {step : Expr → Expr → Except Error Expr}
    (hstep : ∀ {schema a b}, Makes schema a t → Makes schema b t →
      ∃ e, step a b = .ok e ∧ Makes schema e t) :
    ∃ s, folding input arg t step = .ok s ∧ s.Typed input t := by
  let state := [field "acc" t true]
  obtain ⟨acc, hacc, tacc⟩ := makes_state input (show state[0]? = some _ from rfl)
  obtain ⟨v, hv, tv⟩ := makes_argument state h
  obtain ⟨add, hadd, tadd⟩ := hstep tacc (ht ▸ tv)
  obtain ⟨l, hl, tl⟩ := makes_column (show (state ++ state)[0]? = some _ from rfl)
  obtain ⟨r, hr, tr⟩ := makes_column (show (state ++ state)[1]? = some _ from rfl)
  obtain ⟨merge, hmerge, tmerge⟩ := hstep tl tr
  obtain ⟨result, hresult, tresult⟩ := makes_column (show state[0]? = some _ from rfl)
  refine ⟨⟨state, [.null], [add], [merge], result⟩, ?_, .cons (Value.null_conforms _) .nil,
    .cons tadd .nil, .cons tmerge .nil, tresult⟩
  rw [Nat.add_zero] at hacc
  simp only [folding, hacc, hv, hadd, hl, hr, hmerge, hresult, state, ok_bind, pure_eq_ok]

theorem numeric_eq_ok {f : AggregateFunction} {t : SqlType} {u : Unit}
    (h : f.numeric t = .ok u) : t.dataType = .int32 ∨ t.dataType = .int64 ∨
      t.dataType = .float32 ∨ t.dataType = .float64 := by
  unfold AggregateFunction.numeric at h
  split at h <;> simp_all

def Folds (f : AggregateFunction) : Prop :=
  f = .avg ∨ f = .boolAnd ∨ f = .boolOr ∨ f = .anyValue

theorem source_typed {f : AggregateFunction} {result : SqlType} (hf : Folds f)
    (h : input[arg]? = some argument) (hresult : f.resultType [argument.type] = .ok result) :
    ∃ s, source f arg input = .ok s ∧ s.Typed input result.dataType := by
  rcases hf with rfl | rfl | rfl | rfl <;>
    simp only [AggregateFunction.resultType, AggregateFunction.single, ok_bind] at hresult
  case inl =>
    simp only [bind_eq_ok, pure_eq_ok, Except.ok.injEq] at hresult
    obtain ⟨_, hnumeric, rfl⟩ := hresult
    obtain ⟨s, hs, typed⟩ := average_typed h
    refine ⟨s, ?_, typed⟩
    rcases numeric_eq_ok hnumeric with ht | ht | ht | ht <;> simpa only [source, h, ht] using hs
  case inr.inl | inr.inr.inl =>
    split at hresult
    next ht =>
      cases hresult
      simp only [source, h, ht]
      exact folding_typed h ht fun ha hb =>
        makes_skipNulls ha hb (makes_junction (by simp) ha hb)
    · cases hresult
  case inr.inr.inr =>
    cases hresult
    simp only [source, h]
    exact folding_typed h rfl fun ha hb => makes_coalesce ha hb

structure Over (input state : Schema) (t : DataType) (p : Program) : Prop where
  width : p.inputWidth = input.length
  start : Row.Conforms p.start state
  add : List.Forall₂ (fun c f => c.type = f.type.dataType ∧ c.Sound (input ++ state)) p.add state
  result : p.result.type = t ∧ p.result.Sound state

theorem Fills.compile {schema state : Schema} {es : List Expr} (h : Fills schema es state) :
    ∃ cs, compileAll schema es = .ok cs ∧
      List.Forall₂ (fun c f => c.type = f.type.dataType ∧ c.Sound schema) cs state := by
  induction h with
  | nil => exact ⟨[], rfl, .nil⟩
  | cons he _ ih =>
    obtain ⟨c, hc, htype, hsound⟩ := he.1.compiles
    obtain ⟨cs, hcs, hrest⟩ := ih
    exact ⟨c :: cs, by simp [compileAll, hc, hcs], .cons ⟨htype.trans he.2, hsound⟩ hrest⟩

theorem compile_typed {f : AggregateFunction} {result : SqlType} (hf : Folds f)
    (h : input[arg]? = some argument) (hresult : f.resultType [argument.type] = .ok result) :
    ∃ p state, compile f arg input = .ok p ∧ p.Over input state result.dataType := by
  obtain ⟨s, hs, typed⟩ := source_typed hf h hresult
  obtain ⟨add, hadd, tadd⟩ := typed.add.compile
  obtain ⟨merge, hmerge, -⟩ := typed.merge.compile
  obtain ⟨c, hc, htype, hsound⟩ := typed.result.1.compiles
  refine ⟨⟨input.length, s.start, add, merge, c⟩, s.state, ?_, rfl, typed.start, tadd,
    htype.trans typed.result.2, hsound⟩
  simp only [compile, hs, hadd, hmerge, hc, ok_bind, pure_eq_ok]

theorem step_yields {schema state : Schema} {cs : List Compiled} {row : Row}
    (h : List.Forall₂ (fun c f => c.type = f.type.dataType ∧ c.Sound schema) cs state)
    (hrow : row.Conforms schema) : Yields (Row.Conforms · state) (step cs row) := by
  induction h with
  | nil => exact .nil
  | cons hc _ ih =>
    rw [step, List.mapM_cons]
    refine (hc.2 row hrow).bind fun v hv => ih.bind fun vs hvs => ?_
    exact .cons (hc.1 ▸ hv) hvs

end Program
end Relational
