import Relational.Proofs.Execution.Emission
import Relational.Proofs.Execution.Starting
import Relational.Proofs.Expr.Evaluation

/-!
# Collected rows

The rows that a plan is executed to, in terms of the rows of its inputs, for each operator that
has a unit.
-/
namespace Relational.ExecUnit
open Grouping

def emitted (all : ColumnSet) (plans : List CallPlan) (indicator : Bool) (s : SetState) :
    Except Error (List Row) := do
  (← s.close plans).mapM (outputRow all s.columns indicator)

theorem aggregated_result (sets : List ColumnSet) (plans : List CallPlan) (indicator : Bool)
    (e : Emission) :
    (aggregated sets plans indicator e).result =
      e.rows.foldlM (sendRow plans) (start sets) >>= fun states => e.result >>= fun _ =>
        List.flatten <$> states.mapM (emitted (Plan.groupColumns sets) plans indicator) := by
  unfold aggregated
  cases e.rows.foldlM (sendRow plans) (start sets) with
  | error error => rfl
  | ok states =>
    cases e.result with
    | error error => rfl
    | ok rows =>
      refine (Emission.concat_result _).trans ?_
      rw [List.mapM_map]
      refine congrArg (fun f => List.flatten <$> states.mapM f) (funext fun s => ?_)
      unfold emitted
      dsimp only [Function.comp_apply]
      cases s.close plans with
      | error e => rfl
      | ok groups => exact Emission.sequence_map_result _ groups

end Relational.ExecUnit

namespace Relational.Plan
variable {registry : UserAggregate.Registry} {contents : Contents} {p : Plan}
  {rows source : List Row} {parts : List (List Row)} {columns : List Projection}

theorem collect_eq_ok :
    p.collect registry contents = .ok rows ↔
      ∃ e, p.start registry contents = .ok e ∧ e.result = .ok rows :=
  bind_eq_ok

theorem sublist_of_passing {code : Compiled}
    (h : List.Forall₂ (fun row part => ExecUnit.passing code row = .ok part) source parts) :
    parts.flatten.Sublist source := by
  induction h with
  | nil => exact .slnil
  | @cons row part source parts hpart _ ih =>
    rw [List.flatten_cons]
    rcases ExecUnit.passing_eq_ok hpart with rfl | ⟨rfl, -⟩
    · exact ih.cons row
    · exact ih.cons_cons row

/-- A column that is projected as it is has the value of the column that it copies. -/
def Copies (columns : List Projection) (row out : Row) : Prop :=
  ∀ (c : Nat) (projected : Projection) (i : Nat), columns[c]? = some projected →
    projected.expr.column? = some i → out[c]? = row[i]?

theorem copies_of_computing {schema : Schema} {codes : List Compiled}
    (hcodes : List.Forall₂ (fun column code => column.expr.compile schema = .ok code) columns codes)
    (h : List.Forall₂ (fun row part => ExecUnit.computing codes row = .ok part) source parts) :
    List.Forall₂ (Copies columns) source parts.flatten := by
  induction h with
  | nil => exact .nil
  | cons hpart _ ih =>
    obtain ⟨out, rfl, hout⟩ := ExecUnit.computing_eq_ok hpart
    refine .cons (fun c projected i hprojected hcolumn => ?_) ih
    have hvalues := forall₂_comp.1 ⟨codes, hcodes, hout⟩
    obtain ⟨v, hv, code, hcompile, heval⟩ := forall₂_exists_getElem? hvalues hprojected
    rw [hv, Expr.eval_column hcolumn hcompile heval]

/-- The rows of a node that is executed, in terms of those of its inputs. -/
inductive Executed (registry : UserAggregate.Registry) (contents : Contents) :
    Plan → List Row → Prop
  | scan {id : Nat} {table : TableRef} {shape : Schema} {notes : Notes} :
    Executed registry contents (.scan id table shape notes) (contents table)
  | values {id : Nat} {rows : List Row} {shape : Schema} {notes : Notes} :
    Executed registry contents (.values id rows shape notes) rows
  | filter {id : Nat} {input : Plan} {predicate : Expr} {source rows : List Row}
      (hinput : input.collect registry contents = .ok source) (hrows : rows.Sublist source) :
    Executed registry contents (.filter id input predicate) rows
  | project {id : Nat} {input : Plan} {columns : List Projection} {source rows : List Row}
      (hinput : input.collect registry contents = .ok source)
      (hrows : List.Forall₂ (Copies columns) source rows) :
    Executed registry contents (.project id input columns) rows
  | aggregate {id : Nat} {input : Plan} {sets : List ColumnSet} {calls : List AggregateCall}
      {indicator : Bool} {source : List Row} {plans : List CallPlan}
      {states : List Grouping.SetState} {parts : List (List Row)}
      (hinput : input.collect registry contents = .ok source)
      (hstates : source.foldlM (Grouping.sendRow plans) (Grouping.start sets) = .ok states)
      (hparts : List.Forall₂ (fun s part =>
        ExecUnit.emitted (groupColumns sets) plans indicator s = .ok part) states parts) :
    Executed registry contents (.aggregate id input sets calls indicator) parts.flatten
  | union {id : Nat} {inputs : List Plan} {parts : List (List Row)}
      (hinputs : List.Forall₂ (fun (p : Plan) part => p.collect registry contents = .ok part)
        inputs parts) :
    Executed registry contents (.setOp id .union inputs true) parts.flatten
  | sort {id : Nat} {input : Plan} {collation : Collation} {offset fetch : Option Nat}
      {source : List Row} (hinput : input.collect registry contents = .ok source) :
    Executed registry contents (.sort id input collation offset fetch)
      (window offset fetch (collation.sort source))
  | exchange {id : Nat} {input : Plan} {distribution : Distribution} {rows : List Row}
      (hinput : input.collect registry contents = .ok rows) :
    Executed registry contents (.exchange id input distribution) rows

theorem executed_of_collect (h : p.collect registry contents = .ok rows) :
    Executed registry contents p rows := by
  obtain ⟨e, hstart, hrows⟩ := collect_eq_ok.1 h
  cases started_of_start hstart with
  | scan =>
    cases hrows
    exact .scan
  | values =>
    cases hrows
    exact .values
  | filter hinput _ =>
    obtain ⟨source, parts, hsource, hparts, rfl⟩ := Emission.through_eq_ok.1 hrows
    exact .filter (collect_eq_ok.2 ⟨_, hinput, hsource⟩) (sublist_of_passing hparts)
  | project hinput hcodes =>
    obtain ⟨source, parts, hsource, hparts, rfl⟩ := Emission.through_eq_ok.1 hrows
    exact .project (collect_eq_ok.2 ⟨_, hinput, hsource⟩) (copies_of_computing hcodes hparts)
  | aggregate plans hinput =>
    simp only [ExecUnit.aggregated_result, bind_eq_ok, map_eq_pure_bind] at hrows
    obtain ⟨states, hstates, source, hsource, parts, hparts, hrows⟩ := hrows
    cases hrows
    obtain rfl := Emission.result_eq_ok.1 hsource
    exact .aggregate (collect_eq_ok.2 ⟨_, hinput, rfl⟩) hstates (mapM_eq_ok.1 hparts)
  | union hinputs =>
    rw [Emission.concat_result, map_eq_pure_bind, bind_eq_ok] at hrows
    obtain ⟨parts, hparts, hrows⟩ := hrows
    cases hrows
    refine .union ((forall₂_comp.1 ⟨_, hinputs, mapM_eq_ok.1 hparts⟩).imp ?_)
    exact fun child part hcollect => collect_eq_ok.2 hcollect
  | sort hinput =>
    rw [Emission.ofResult_result, map_eq_pure_bind, bind_eq_ok] at hrows
    obtain ⟨source, hsource, hrows⟩ := hrows
    cases hrows
    exact .sort (collect_eq_ok.2 ⟨_, hinput, hsource⟩)
  | exchange hinput => exact .exchange (collect_eq_ok.2 ⟨e, hinput, hrows⟩)

end Relational.Plan
