import Relational.Proofs.Aggregation.Contribution
import Relational.Proofs.Aggregation.Meaning

/-!
# Programs that combine values

The programs of conjunctions, of disjunctions and of any value keep what their values combine to,
and null before the first of them.
-/
namespace Relational

namespace Program
open Relational.Expr Value
variable {f : AggregateFunction} {input schema : Schema} {arg : Nat} {argument : Field}
  {t : DataType} {p : Program} {s : Source} {row : Row} {v acc : Value} {es : List Expr}
  {cs : List Compiled}

structure Compiles (input : Schema) (s : Source) (p : Program) : Prop where
  width : p.inputWidth = input.length
  start : p.start = s.start
  add : List.Forall₂ (fun e c => e.compile (input ++ s.state) = .ok c) s.add p.add
  result : s.result.compile s.state = .ok p.result

theorem compiles_of_compile (h : compile f arg input = .ok p) :
    ∃ s, source f arg input = .ok s ∧ Compiles input s p := by
  simp only [compile, bind_eq_ok, pure_eq_ok, Except.ok.injEq] at h
  obtain ⟨s, hs, add, hadd, merge, -, result, hresult, rfl⟩ := h
  exact ⟨s, hs, rfl, rfl, compileAll_eq_ok.1 hadd, hresult⟩

theorem exists_compiles {c : AggregateCall} (hf : Folds c.function) (hargs : c.args = [arg])
    (harg : input[arg]? = some argument)
    (htype : c.function.resultType [argument.type] = .ok c.type) :
    ∃ p s, ofCall c input = .ok p ∧ source c.function arg input = .ok s ∧ Compiles input s p := by
  obtain ⟨p, state, hp, -⟩ := compile_typed hf harg htype
  obtain ⟨s, hs, hcompiles⟩ := compiles_of_compile hp
  refine ⟨p, s, ?_, hs, hcompiles⟩
  simp only [ofCall, AggregateCall.onlyArgument, hargs, hp, ok_bind]

theorem step_eq_mapM (h : List.Forall₂ (fun e c => e.compile schema = .ok c) es cs) (row : Row) :
    step cs row = es.mapM fun e => e.evaluate schema row := by
  induction h with
  | nil => rfl
  | cons hc _ ih =>
    rw [step] at ih
    rw [step, List.mapM_cons, List.mapM_cons, ih, evaluate_of_compile hc]

/-- What adding a row makes of the state, and that the state is the result. -/
structure Combines (input : Schema) (arg : Nat) (t : DataType) (combine : Value → Value → Value)
    (p : Program) : Prop where
  width : p.inputWidth = input.length
  start : p.start = [.null]
  add {row : Row} {acc v : Value} (hrow : row.Conforms input) (harg : row[arg]? = some v)
    (hv : v.Conforms t) (hacc : acc.Conforms t) :
    step p.add (row ++ [acc]) = .ok [combine acc v]
  result (acc : Value) : p.result.eval [acc] = .ok acc

/-- The step of a fold is an expression that combines its operands. -/
def FoldsTo (fold : Expr → Expr → Except Error Expr) (t : DataType)
    (combine : Value → Value → Value) : Prop :=
  ∀ {schema row a b acc v}, Means schema row a t (.ok acc) → Means schema row b t (.ok v) →
    acc.Conforms t → v.Conforms t →
      ∃ e, fold a b = .ok e ∧ Means schema row e t (.ok (combine acc v))

theorem combines_of_folding {combine : Value → Value → Value}
    {fold : Expr → Expr → Except Error Expr} (hs : folding input arg t fold = .ok s)
    (hp : Compiles input s p) (harg : input[arg]? = some argument)
    (ht : argument.type.dataType = t) (hfold : FoldsTo fold t combine) :
    Combines input arg t combine p := by
  simp only [folding, bind_eq_ok, pure_eq_ok, Except.ok.injEq] at hs
  obtain ⟨a, ha, b, hb, add, hadd, l, -, r, -, merge, -, result, hresult, rfl⟩ := hs
  refine ⟨hp.width, hp.start, ?_, fun acc => ?_⟩
  · intro row acc v hrow hv hconforms hacc
    have hlength := hrow.length_eq
    have hargument : arg < input.length := (List.getElem?_eq_some_iff.1 harg).1
    obtain ⟨a', ha', meansA⟩ := means_column (input ++ [field "acc" t true]) (row ++ [acc])
      (i := input.length) (v := acc) (f := field "acc" t true) (by simp) (by simp [← hlength])
    obtain ⟨b', hb', meansB⟩ := means_column (input ++ [field "acc" t true]) (row ++ [acc])
      (i := arg) (v := v) (f := argument)
      (by rw [List.getElem?_append_left hargument, harg])
      (by rw [List.getElem?_append_left (hlength ▸ hargument), hv])
    obtain rfl : a' = a := Except.ok.inj (ha'.symm.trans ha)
    obtain rfl : b' = b := Except.ok.inj (hb'.symm.trans hb)
    obtain ⟨add', hadd', means⟩ := hfold meansA (ht ▸ meansB) hacc hconforms
    obtain rfl : add' = add := Except.ok.inj (hadd'.symm.trans hadd)
    rw [step_eq_mapM hp.add]
    simp [means.value]
  · obtain ⟨result', hresult', means⟩ := means_column [field "acc" t true] [acc] (i := 0)
      (v := acc) (f := field "acc" t true) rfl rfl
    obtain rfl : result' = result := Except.ok.inj (hresult'.symm.trans hresult)
    rw [← evaluate_of_compile hp.result]
    exact means.value

def later (combine : Value → Value → Value) (acc v : Value) : Value :=
  if v.isNull then acc else if acc.isNull then v else combine acc v

def both (op : Op) : Value → Value → Value
  | .boolean p, .boolean q => .boolean (if op = .and then p && q else p || q)
  | _, _ => .null

theorem foldsTo_junction {op : Op} (hop : op = .and ∨ op = .or) :
    FoldsTo (skipNulls op) .boolean (later (both op)) := by
  intro schema row a b acc v ha hb hacc hv
  obtain ⟨both, hboth, x, hx, hvalue⟩ := means_junction hop ha hb
  obtain ⟨e, he, means⟩ := means_skipNulls ha hb ⟨both, hboth, hx⟩
  refine ⟨e, he, ?_⟩
  rcases hacc.bool with rfl | ⟨p, rfl⟩ <;> rcases hv.bool with rfl | ⟨q, rfl⟩
  · exact means
  · exact means
  · exact means
  · rw [hvalue p q rfl rfl] at means
    exact means

theorem combines_junction {op : Op} (hop : op = .and ∨ op = .or)
    (hs : folding input arg .boolean (skipNulls op) = .ok s) (hp : Compiles input s p)
    (harg : input[arg]? = some argument) (ht : argument.type.dataType = .boolean) :
    Combines input arg .boolean (later (both op)) p :=
  combines_of_folding hs hp harg ht (foldsTo_junction hop)

theorem foldsTo_anyValue (t : DataType) :
    FoldsTo (fun acc v => mkCall .coalesce [acc, v]) t (later fun acc _ => acc) := by
  intro schema row a b acc v ha hb hacc hv
  obtain ⟨e, he, means⟩ := means_coalesce ha hb
  refine ⟨e, he, ?_⟩
  have hkept : (if acc.isNull then v else acc) = later (fun acc _ => acc) acc v := by
    unfold later
    cases hnull : acc.isNull <;> cases hnull' : v.isNull <;> simp_all
  have hconforms : (later (fun acc _ => acc) acc v).Conforms t := by
    rw [← hkept]
    split
    · exact hv
    · exact hacc
  rwa [hkept, castTo_self hconforms] at means

section Folds
variable {op : Op} {combine : Value → Value → Value} {vs : List Value}

theorem later_conforms (hcombine : ∀ acc v, acc.Conforms t → v.Conforms t →
    (combine acc v).Conforms t) (hacc : acc.Conforms t) (hv : v.Conforms t) :
    (later combine acc v).Conforms t := by
  unfold later
  split
  · exact hacc
  · split
    · exact hv
    · exact hcombine acc v hacc hv

theorem foldl_later_conforms (hcombine : ∀ acc v, acc.Conforms t → v.Conforms t →
    (combine acc v).Conforms t) (hvs : ∀ v ∈ vs, v.Conforms t) (hacc : acc.Conforms t) :
    (vs.foldl (later combine) acc).Conforms t := by
  induction vs generalizing acc with
  | nil => exact hacc
  | cons v rest ih =>
    obtain ⟨hv, hrest⟩ := List.forall_mem_cons.1 hvs
    exact ih hrest (later_conforms hcombine hacc hv)

theorem both_conforms (op : Op) (v w : Value) : (both op v w).Conforms .boolean := by
  unfold both
  split
  · exact boolean_conforms _
  · exact null_conforms _

theorem exists_boolean (hv : v ≠ .null ∧ v.Conforms .boolean) : ∃ b, v = .boolean b :=
  hv.2.bool.resolve_left hv.1

theorem foldl_both (hvs : ∀ v ∈ vs, v ≠ .null ∧ v.Conforms .boolean) (p : Bool) :
    vs.foldl (later (both op)) (.boolean p) = .boolean (if op = .and
      then p && vs.all (· == .boolean true) else p || vs.any (· == .boolean true)) := by
  induction vs generalizing p with
  | nil => cases p <;> simp
  | cons v rest ih =>
    obtain ⟨hv, hrest⟩ := List.forall_mem_cons.1 hvs
    obtain ⟨q, rfl⟩ := exists_boolean hv
    have hlater : later (both op) (.boolean p) (.boolean q) =
        .boolean (if op = .and then p && q else p || q) := rfl
    rw [List.foldl_cons, hlater, ih hrest]
    by_cases hop : op = .and <;> cases p <;> cases q <;> simp [hop]

theorem foldl_first (hv : v ≠ .null) : vs.foldl (later fun acc _ => acc) v = v := by
  induction vs with
  | nil => rfl
  | cons w rest ih =>
    have hlater : later (fun acc _ => acc) v w = v := by
      unfold later
      cases hw : w.isNull <;> simp [hv]
    rw [List.foldl_cons, hlater, ih]

end Folds
end Program

namespace Accumulator
open Program Value
variable {input : Schema} {arg : Nat} {f : Field} {t : DataType} {p : Program}
  {combine : Value → Value → Value} {vs : List Value}

def Combined (p : Program) (t : DataType) (combine : Value → Value → Value) (vs : List Value)
    (acc : Accumulator) : Prop :=
  acc = .program p [vs.foldl (later combine) .null] ∧ ∀ v ∈ vs, v ≠ .null ∧ v.Conforms t

theorem addRow_eq (hp : p.inputWidth = input.length) {row : Row} (hrow : row.Conforms input)
    (state : List Value) : addRow p state row = Program.step p.add (row ++ state) :=
  if_pos (hrow.length_eq.trans hp.symm)

theorem steps_combine (hp : Combines input arg t (later combine) p) (harg : input[arg]? = some f)
    (hf : f.type.dataType = t)
    (hcombine : ∀ acc v, acc.Conforms t → v.Conforms t → (combine acc v).Conforms t) :
    StepsOn input arg t (Combined p t combine) fun _ _ => False := by
  have hstep {vs : List Value} (hvs : ∀ v ∈ vs, v ≠ .null ∧ v.Conforms t) {row : Row} {v : Value}
      (hrow : row.Conforms input) (hv : row[arg]? = some v) (hconforms : v.Conforms t) :
      (program p [vs.foldl (later combine) .null]).send row =
        .ok (.program p [later combine (vs.foldl (later combine) .null) v]) := by
    have hacc := foldl_later_conforms hcombine (fun v hv => (hvs v hv).2) (null_conforms t)
    simp only [send, addRow_eq hp.width hrow, hp.add hrow hv hconforms hacc, ok_bind, pure_eq_ok]
  refine ⟨⟨f, harg, hf⟩, ?_, ?_⟩
  · rintro vs _ row ⟨rfl, hvs⟩ hrow hv
    exact hstep hvs hrow hv (null_conforms t)
  · rintro vs _ row v ⟨rfl, hvs⟩ hrow hv hnull hconforms
    rw [hstep hvs hrow hv hconforms]
    refine ⟨by simp, fun w hw => ?_⟩
    rcases List.mem_append.1 hw with hw | hw
    · exact hvs w hw
    · obtain rfl := List.mem_singleton.1 hw
      exact ⟨hnull, hconforms⟩

end Accumulator
end Relational
