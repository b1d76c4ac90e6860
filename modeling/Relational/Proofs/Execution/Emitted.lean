import Relational.Proofs.Execution.Sorting
import Relational.Proofs.Grouping.Opening

/-!
# Where emitted rows come from

Every row that a plan emits, also one that comes before an error, is made from rows that its inputs
emit, in the way of the plan's operator.
-/
namespace Relational

namespace Emission
variable {a b e : Emission} {es : List Emission} {row : Row} {last : Option Error}
  {outcomes : List (Except Error (List Row))} {outcome : Except Error (List Row)}
  {f : Row → Except Error (List Row)}

theorem mem_append (h : row ∈ (a.append b).rows) : row ∈ a.rows ∨ row ∈ b.rows := by
  obtain ⟨rows, failure⟩ := a
  cases failure with
  | some error => exact .inl h
  | none => exact List.mem_append.1 h

theorem mem_concat (h : row ∈ (concat es).rows) : ∃ e ∈ es, row ∈ e.rows := by
  induction es with
  | nil => exact absurd h List.not_mem_nil
  | cons e rest ih =>
    rcases mem_append h with h | h
    · exact ⟨e, List.mem_cons_self, h⟩
    · obtain ⟨e', he', hrow⟩ := ih h
      exact ⟨e', List.mem_cons_of_mem _ he', hrow⟩

theorem mem_sequence (h : row ∈ (sequence last outcomes).rows) :
    ∃ rows, .ok rows ∈ outcomes ∧ row ∈ rows := by
  induction outcomes with
  | nil => exact absurd h List.not_mem_nil
  | cons outcome rest ih =>
    cases outcome with
    | error error => exact absurd h List.not_mem_nil
    | ok rows =>
      rcases List.mem_append.1 h with h | h
      · exact ⟨rows, List.mem_cons_self, h⟩
      · obtain ⟨rows', hrows', hrow⟩ := ih h
        exact ⟨rows', List.mem_cons_of_mem _ hrows', hrow⟩

theorem mem_through (h : row ∈ (e.through f).rows) :
    ∃ source ∈ e.rows, ∃ rows, f source = .ok rows ∧ row ∈ rows := by
  obtain ⟨rows, hrows, hrow⟩ := mem_sequence h
  obtain ⟨source, hsource, hf⟩ := List.mem_map.1 hrows
  exact ⟨source, hsource, rows, hf, hrow⟩

theorem mem_ofResult (h : row ∈ (ofResult outcome).rows) :
    ∃ rows, outcome = .ok rows ∧ row ∈ rows := by
  cases outcome with
  | error error => exact absurd h List.not_mem_nil
  | ok rows => exact ⟨rows, rfl, h⟩

theorem mem_of_mem_result {rows : List Row} (hrows : e.result = .ok rows) (h : row ∈ rows) :
    row ∈ e.rows := by
  obtain rfl := result_eq_ok.1 hrows
  exact h

end Emission

namespace ExecUnit
open Grouping

theorem exists_of_mem_aggregated {sets : List ColumnSet} {plans : List CallPlan} {indicator : Bool}
    {e : Emission} {row : Row} (h : row ∈ (aggregated sets plans indicator e).rows) :
    ∃ states, e.rows.foldlM (sendRow plans) (start sets) = .ok states ∧
      ∃ s ∈ states, ∃ groups, s.close plans = .ok groups ∧
        ∃ g ∈ groups, outputRow (Plan.groupColumns sets) s.columns indicator g = .ok row := by
  unfold aggregated at h
  cases hstates : e.rows.foldlM (sendRow plans) (start sets) with
  | error error =>
    rw [hstates] at h
    exact absurd h List.not_mem_nil
  | ok states =>
    rw [hstates] at h
    cases hresult : e.result with
    | error error =>
      rw [hresult] at h
      exact absurd h List.not_mem_nil
    | ok rows =>
      rw [hresult] at h
      obtain ⟨part, hpart, hrow⟩ := Emission.mem_concat h
      obtain ⟨s, hs, rfl⟩ := List.mem_map.1 hpart
      cases hclose : s.close plans with
      | error error =>
        rw [hclose] at hrow
        exact absurd hrow List.not_mem_nil
      | ok groups =>
        rw [hclose] at hrow
        obtain ⟨out, hout, hrow⟩ := Emission.mem_sequence hrow
        obtain ⟨g, hg, hout⟩ := List.mem_map.1 hout
        obtain ⟨out, houtput, hout⟩ := bind_eq_ok.1 hout
        cases hout
        obtain rfl := List.mem_singleton.1 hrow
        exact ⟨states, rfl, s, hs, groups, hclose, g, hg, houtput⟩

theorem mem_aggregated {sets : List ColumnSet} {plans : List CallPlan} {indicator : Bool}
    {e : Emission} {row : Row} (h : row ∈ (aggregated sets plans indicator e).rows) :
    ∃ set ∈ sets, ∃ key rest, KeyOver set e.rows key ∧
      row = keyColumns (Plan.groupColumns sets) set key ++ rest := by
  obtain ⟨states, hstates, s, hs, groups, hclose, g, hg, houtput⟩ := exists_of_mem_aggregated h
  obtain ⟨set, hset, hopened⟩ := forall₂_exists_mem (foldlM_sendRow_opened hstates) hs
  rw [hopened.columns] at houtput
  obtain ⟨rest, hrest⟩ := eq_of_outputRow houtput
  exact ⟨set, hset, g.key, rest, (hopened.close hclose).2 g hg, hrest⟩

end ExecUnit

namespace Plan
open Grouping
variable {registry : UserAggregate.Registry} {contents : Contents} {p : Plan} {e : Emission} {row : Row}

/-- The rows of a plan, each made from rows of its inputs. -/
inductive Emitted (contents : Contents) : Plan → Row → Prop
  | scan {id : Nat} {table : TableRef} {shape : Schema} {notes : Notes} {row : Row}
      (hrow : row ∈ contents table) (hwidth : row.length = shape.length) :
    Emitted contents (.scan id table shape notes) row
  | values {id : Nat} {rows : List Row} {shape : Schema} {notes : Notes} {row : Row}
      (hrow : row ∈ rows) : Emitted contents (.values id rows shape notes) row
  | filter {id : Nat} {input : Plan} {predicate : Expr} {row : Row} (h : Emitted contents input row)
      (hpredicate : predicate.evaluate input.schema row = .ok (.boolean true)) :
    Emitted contents (.filter id input predicate) row
  | project {id : Nat} {input : Plan} {columns : List Projection} {source row : Row}
      (h : Emitted contents input source)
      (hcolumns : List.Forall₂ (fun c v => c.expr.evaluate input.schema source = .ok v)
        columns row) : Emitted contents (.project id input columns) row
  | aggregate {id : Nat} {input : Plan} {sets : List ColumnSet} {calls : List AggregateCall}
      {indicator : Bool} {set : ColumnSet} {source rest : Row} {key : List Value}
      (h : Emitted contents input source) (hset : set ∈ sets) (hkey : keyOf set source = .ok key) :
    Emitted contents (.aggregate id input sets calls indicator)
      (keyColumns (groupColumns sets) set key ++ rest)
  | emptyGroup {id : Nat} {input : Plan} {sets : List ColumnSet} {calls : List AggregateCall}
      {indicator : Bool} {set : ColumnSet} {rest : Row} (hset : set ∈ sets)
      (hempty : set.isEmpty = true) :
    Emitted contents (.aggregate id input sets calls indicator)
      (keyColumns (groupColumns sets) set [] ++ rest)
  | union {id : Nat} {inputs : List Plan} {child : Plan} {row : Row} (hchild : child ∈ inputs)
      (h : Emitted contents child row) : Emitted contents (.setOp id .union inputs true) row
  | sort {id : Nat} {input : Plan} {collation : Collation} {offset fetch : Option Nat} {row : Row}
      (h : Emitted contents input row) :
    Emitted contents (.sort id input collation offset fetch) row
  | exchange {id : Nat} {input : Plan} {distribution : Distribution} {row : Row}
      (h : Emitted contents input row) : Emitted contents (.exchange id input distribution) row

/-- Every row of a run that started, whether the run comes to its end or not. -/
theorem emitted_of_start (h : p.start registry contents = .ok e) (hrow : row ∈ e.rows) :
    Emitted contents p row := by
  induction p using inputInduction generalizing e row with
  | node p ih =>
    cases started_of_start h with
    | scan hwidth => exact .scan hrow (hwidth row hrow)
    | values => exact .values hrow
    | @filter id input predicate e code hinput hcode =>
      obtain ⟨source, hsource, part, hpart, hmem⟩ := Emission.mem_through hrow
      rcases ExecUnit.passing_eq_ok hpart with rfl | ⟨rfl, htrue⟩
      · exact absurd hmem List.not_mem_nil
      · obtain rfl := List.mem_singleton.1 hmem
        refine .filter (ih input List.mem_cons_self hinput hsource) ?_
        rw [Expr.evaluate_of_compile hcode, htrue]
    | @project id input columns e codes hinput hcodes =>
      obtain ⟨source, hsource, part, hpart, hmem⟩ := Emission.mem_through hrow
      obtain ⟨out, rfl, hout⟩ := ExecUnit.computing_eq_ok hpart
      obtain rfl := List.mem_singleton.1 hmem
      refine .project (ih input List.mem_cons_self hinput hsource) ?_
      refine (forall₂_comp.1 ⟨codes, hcodes, hout⟩).imp fun column v ⟨code, hcode, hv⟩ => ?_
      rw [Expr.evaluate_of_compile hcode, hv]
    | @aggregate id input sets calls indicator e plans hinput =>
      obtain ⟨set, hset, key, rest, hkey, rfl⟩ := ExecUnit.mem_aggregated hrow
      rcases hkey with ⟨source, hsource, hkey⟩ | ⟨hempty, rfl⟩
      · exact .aggregate (ih input List.mem_cons_self hinput hsource) hset hkey
      · exact .emptyGroup hset hempty
    | union hinputs =>
      obtain ⟨e, he, hmem⟩ := Emission.mem_concat hrow
      obtain ⟨child, hchild, hstart⟩ := forall₂_exists_mem hinputs he
      exact .union hchild (ih child hchild hstart hmem)
    | @sort id input collation offset fetch e hinput =>
      obtain ⟨rows, hrows, hmem⟩ := Emission.mem_ofResult hrow
      rw [map_eq_pure_bind, bind_eq_ok] at hrows
      obtain ⟨source, hsource, hrows⟩ := hrows
      cases hrows
      have hread := Emission.mem_of_mem_result hsource (mem_of_mem_window_sort hmem)
      exact .sort (ih input List.mem_cons_self hinput hread)
    | @exchange id input distribution e hinput =>
      exact .exchange (ih input List.mem_cons_self hinput hrow)

end Plan
end Relational
