import Relational.Execution.Build
import Relational.Proofs.Outcome
import Relational.Proofs.Plan.Nodes

/-!
# Started runs

The emission that a plan starts with, in terms of those of its inputs, for each operator that has a
unit. Rows that come before an error are among it.
-/
namespace Relational

namespace ExecUnit

def passing (predicate : Compiled) (row : Row) : Except Error (List Row) := do
  return if (← predicate.eval row) = .boolean true then [row] else []

def computing (exprs : List Compiled) (row : Row) : Except Error (List Row) := do
  return [← exprs.mapM fun c => c.eval row]

theorem passing_eq_ok {predicate : Compiled} {row : Row} {part : List Row}
    (h : passing predicate row = .ok part) :
    part = [] ∨ part = [row] ∧ predicate.eval row = .ok (.boolean true) := by
  obtain ⟨v, hv, hpart⟩ := bind_eq_ok.1 h
  cases hpart
  split
  next htrue => exact .inr ⟨rfl, htrue ▸ hv⟩
  · exact .inl rfl

theorem computing_eq_ok {exprs : List Compiled} {row : Row} {part : List Row}
    (h : computing exprs row = .ok part) :
    ∃ out, part = [out] ∧ List.Forall₂ (fun c v => c.eval row = .ok v) exprs out := by
  obtain ⟨out, hout, hpart⟩ := bind_eq_ok.1 h
  cases hpart
  exact ⟨out, rfl, mapM_eq_ok.1 hout⟩

end ExecUnit

namespace Plan
variable {registry : UserAggregate.Registry} {contents : Contents} {p : Plan} {unit : ExecUnit}
  {e : Emission}

theorem start_eq_ok :
    p.start registry contents = .ok e ↔
      ∃ unit, p.executable registry = .ok unit ∧ unit.run contents = .ok e :=
  bind_eq_ok

theorem executables_eq_mapM (inputs : List Plan) :
    executables registry inputs = inputs.mapM (executable registry) := by
  induction inputs with
  | nil => simp [executables]
  | cons p rest ih => rw [executables, List.mapM_cons, ih]

theorem schema_of_executable (h : p.executable registry = .ok unit) : unit.schema = p.schema := by
  induction p using inputInduction generalizing unit with
  | node p ih =>
    cases p with
    | scan | values =>
      cases h
      rfl
    | filter =>
      simp only [executable, bind_eq_ok, pure_eq_ok, Except.ok.injEq] at h
      obtain ⟨_, hinput, _, -, rfl⟩ := h
      have hschema := ih _ List.mem_cons_self hinput
      exact hschema
    | sort | exchange =>
      simp only [executable, bind_eq_ok, pure_eq_ok, Except.ok.injEq] at h
      obtain ⟨_, hinput, rfl⟩ := h
      have hschema := ih _ List.mem_cons_self hinput
      exact hschema
    | project =>
      simp only [executable, bind_eq_ok, pure_eq_ok, Except.ok.injEq] at h
      obtain ⟨_, -, _, -, rfl⟩ := h
      rfl
    | aggregate =>
      simp only [executable, ExecUnit.aggregate, bind_eq_ok] at h
      obtain ⟨_, -, _, -, _, -, h⟩ := h
      split at h <;> cases h
      rfl
    | setOp id op inputs all =>
      cases op <;> cases all <;> simp only [executable, notExecutable, bind_eq_ok, pure_eq_ok,
        Except.ok.injEq, reduceCtorEq] at h
      obtain ⟨_, -, rfl⟩ := h
      rfl
    | join | other => simp [executable, notExecutable] at h

theorem start_aggregate_eq_ok {id : Nat} {input : Plan} {sets : List ColumnSet}
    {calls : List AggregateCall} {indicator : Bool}
    (h : (aggregate id input sets calls indicator).start registry contents = .ok e) :
    ∃ source plans, input.start registry contents = .ok source ∧
      calls.mapM (fun c => CallPlan.ofCall c input.schema registry) = .ok plans ∧
      e = ExecUnit.aggregated sets plans indicator source := by
  obtain ⟨unit, hunit, he⟩ := start_eq_ok.1 h
  simp only [executable, ExecUnit.aggregate, bind_eq_ok] at hunit
  obtain ⟨_, -, inputUnit, hinput, plans, hplans, hunit⟩ := hunit
  rw [schema_of_executable hinput] at hplans
  split at hunit
  · cases hunit
  cases hunit
  obtain ⟨source, hsource, he⟩ := bind_eq_ok.1 he
  cases he
  exact ⟨source, plans, start_eq_ok.2 ⟨inputUnit, hinput, hsource⟩, hplans, rfl⟩

inductive Started (registry : UserAggregate.Registry) (contents : Contents) :
    Plan → Emission → Prop
  | scan {id : Nat} {table : TableRef} {shape : Schema} {notes : Notes}
      (hwidth : ∀ row ∈ contents table, row.length = shape.length) :
    Started registry contents (.scan id table shape notes) ⟨contents table, none⟩
  | values {id : Nat} {rows : List Row} {shape : Schema} {notes : Notes} :
    Started registry contents (.values id rows shape notes) ⟨rows, none⟩
  | filter {id : Nat} {input : Plan} {predicate : Expr} {e : Emission} {code : Compiled}
      (hinput : input.start registry contents = .ok e)
      (hcode : predicate.compile input.schema = .ok code) :
    Started registry contents (.filter id input predicate) (e.through (ExecUnit.passing code))
  | project {id : Nat} {input : Plan} {columns : List Projection} {e : Emission}
      {codes : List Compiled} (hinput : input.start registry contents = .ok e)
      (hcodes : List.Forall₂ (fun column code => column.expr.compile input.schema = .ok code)
        columns codes) :
    Started registry contents (.project id input columns) (e.through (ExecUnit.computing codes))
  | aggregate {id : Nat} {input : Plan} {sets : List ColumnSet} {calls : List AggregateCall}
      {indicator : Bool} {e : Emission} (plans : List CallPlan)
      (hinput : input.start registry contents = .ok e) :
    Started registry contents (.aggregate id input sets calls indicator)
      (ExecUnit.aggregated sets plans indicator e)
  | union {id : Nat} {inputs : List Plan} {es : List Emission}
      (hinputs : List.Forall₂ (fun (p : Plan) e => p.start registry contents = .ok e) inputs es) :
    Started registry contents (.setOp id .union inputs true) (Emission.concat es)
  | sort {id : Nat} {input : Plan} {collation : Collation} {offset fetch : Option Nat}
      {e : Emission} (hinput : input.start registry contents = .ok e) :
    Started registry contents (.sort id input collation offset fetch)
      (Emission.ofResult ((window offset fetch <| collation.sort ·) <$> e.result))
  | exchange {id : Nat} {input : Plan} {distribution : Distribution} {e : Emission}
      (hinput : input.start registry contents = .ok e) :
    Started registry contents (.exchange id input distribution) e

theorem started_of_start (h : p.start registry contents = .ok e) :
    Started registry contents p e := by
  obtain ⟨unit, hunit, he⟩ := start_eq_ok.1 h
  cases p with
  | scan id table shape notes =>
    cases hunit
    simp only [ExecUnit.scan] at he
    split at he
    · cases he
    next hwidth =>
      cases he
      exact .scan (by simpa using hwidth)
  | values id rows shape notes =>
    cases hunit
    cases he
    exact .values
  | filter id input predicate =>
    simp only [executable, bind_eq_ok, pure_eq_ok, Except.ok.injEq] at hunit
    obtain ⟨inputUnit, hinput, code, hcode, rfl⟩ := hunit
    rw [schema_of_executable hinput] at hcode
    obtain ⟨source, hsource, he⟩ := bind_eq_ok.1 he
    cases he
    exact .filter (start_eq_ok.2 ⟨inputUnit, hinput, hsource⟩) hcode
  | project id input columns =>
    simp only [executable, bind_eq_ok, pure_eq_ok, Except.ok.injEq, mapM_eq_ok] at hunit
    obtain ⟨inputUnit, hinput, codes, hcodes, rfl⟩ := hunit
    rw [schema_of_executable hinput] at hcodes
    obtain ⟨source, hsource, he⟩ := bind_eq_ok.1 he
    cases he
    exact .project (start_eq_ok.2 ⟨inputUnit, hinput, hsource⟩) hcodes
  | aggregate id input sets calls indicator =>
    obtain ⟨source, plans, hsource, -, rfl⟩ := start_aggregate_eq_ok h
    exact .aggregate plans hsource
  | setOp id op inputs all =>
    cases op <;> cases all <;> simp only [executable, notExecutable, bind_eq_ok, pure_eq_ok,
      Except.ok.injEq, reduceCtorEq, executables_eq_mapM, mapM_eq_ok] at hunit
    obtain ⟨units, hunits, rfl⟩ := hunit
    obtain ⟨es, hes, he⟩ := bind_eq_ok.1 he
    cases he
    refine .union ((forall₂_comp.1 ⟨units, hunits, mapM_eq_ok.1 hes⟩).imp ?_)
    exact fun child e hstart => start_eq_ok.2 hstart
  | sort id input collation offset fetch =>
    simp only [executable, bind_eq_ok, pure_eq_ok, Except.ok.injEq] at hunit
    obtain ⟨inputUnit, hinput, rfl⟩ := hunit
    obtain ⟨source, hsource, he⟩ := bind_eq_ok.1 he
    cases he
    exact .sort (start_eq_ok.2 ⟨inputUnit, hinput, hsource⟩)
  | exchange id input distribution =>
    simp only [executable, bind_eq_ok, pure_eq_ok, Except.ok.injEq] at hunit
    obtain ⟨inputUnit, hinput, rfl⟩ := hunit
    exact .exchange (start_eq_ok.2 ⟨inputUnit, hinput, he⟩)
  | join | other => simp [executable, notExecutable] at hunit

end Plan
end Relational
