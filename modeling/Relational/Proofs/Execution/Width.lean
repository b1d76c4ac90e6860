import Relational.Proofs.Nullability.Grouping
import Relational.Proofs.Typing.Pipeline

/-!
# Widths of emitted rows

Every row that a node of a valid plan emits is as wide as the schema of the node, whatever the
tables hold and whether the run comes to its end or not.
-/
namespace Relational

namespace Grouping
variable {all set : ColumnSet} {indicator : Bool} {g : Group} {out : Row}

theorem kept_trivial : Kept fun _ _ => True where
  start _ _ _ := trivial
  send _ _ _ _ _ _ := trivial

theorem length_of_outputRow (h : outputRow all set indicator g = .ok out) :
    out.length = all.size + (if indicator then all.size else 0) + g.accumulators.length := by
  obtain ⟨results, hresults, h⟩ := bind_eq_ok.1 h
  cases h
  have hlength := (mapM_eq_ok.1 hresults).length_eq
  cases indicator <;> simp [ColumnSet.size, ← hlength, Nat.add_assoc]

end Grouping

namespace ExecUnit
open Grouping

theorem length_of_mem_aggregated {sets : List ColumnSet} {plans : List CallPlan} {indicator : Bool}
    {e : Emission} {row : Row} (h : row ∈ (aggregated sets plans indicator e).rows) :
    row.length = (Plan.groupColumns sets).size +
      (if indicator then (Plan.groupColumns sets).size else 0) + plans.length := by
  obtain ⟨states, hstates, s, hs, groups, hclose, g, hg, hout⟩ := exists_of_mem_aggregated h
  have hkept := kept_trivial.closed (kept_trivial.run hstates s hs) hclose g hg
  rw [length_of_outputRow hout, hkept.length_eq]

end ExecUnit

namespace Plan
variable {p : Plan} {registry : UserAggregate.Registry} {contents : Contents} {e : Emission}
  {row : Row}

theorem width_aggregate {id : Nat} {input : Plan} {sets : List ColumnSet}
    {calls : List AggregateCall} {indicator : Bool}
    (h : ∀ c ∈ groupColumns sets, c < input.schema.length) :
    (Plan.aggregate id input sets calls indicator).width = (groupColumns sets).size +
      (if indicator then (groupColumns sets).size else 0) + calls.length := by
  have hwidth : checkAggregateWidth (Plan.aggregate id input sets calls indicator).schema sets
      calls.length indicator = .ok () := checkAggregateWidth_eq_ok h
  rw [width]
  by_contra hne
  simp only [checkAggregateWidth] at hwidth
  rw [if_neg hne] at hwidth
  cases hwidth

theorem width_of_checkSetOp {id : Nat} {op : SetOp} {inputs : List Plan} {all : Bool}
    (h : (Plan.setOp id op inputs all).check = .ok ()) {child : Plan} (hchild : child ∈ inputs) :
    child.width = (Plan.setOp id op inputs all).width := by
  have hschema : child.schema ∈ schemas inputs := by
    rw [schemas_eq_map]
    exact List.mem_map_of_mem hchild
  exact (sameTypes_of_checkSetOp h _ hschema).length_eq.symm

theorem length_of_start (valid : p.Valid) (h : p.start registry contents = .ok e)
    (hrow : row ∈ e.rows) : row.length = p.width := by
  induction p using inputInduction generalizing e row with
  | node p ih =>
    have below {child : Plan} (hchild : child ∈ p.children) {source : Emission} {row : Row}
        (hstart : child.start registry contents = .ok source) (hrow : row ∈ source.rows) :
        row.length = child.width :=
      ih child hchild (valid.child hchild) hstart hrow
    cases started_of_start h with
    | scan hwidth => exact hwidth row hrow
    | values => exact (fits_of_check valid.check row hrow).length_eq
    | @filter id input predicate source code hinput hcode =>
      obtain ⟨read, hread, part, hpart, hmem⟩ := Emission.mem_through hrow
      rcases ExecUnit.passing_eq_ok hpart with rfl | ⟨rfl, -⟩
      · exact absurd hmem List.not_mem_nil
      · obtain rfl := List.mem_singleton.1 hmem
        exact below List.mem_cons_self hinput hread
    | @project id input columns source codes hinput hcodes =>
      obtain ⟨read, hread, part, hpart, hmem⟩ := Emission.mem_through hrow
      obtain ⟨out, rfl, hout⟩ := ExecUnit.computing_eq_ok hpart
      obtain rfl := List.mem_singleton.1 hmem
      rw [← hout.length_eq, ← hcodes.length_eq]
      exact (List.length_map _).symm
    | @aggregate id input sets calls indicator source plans hinput =>
      obtain ⟨_, plans', -, hplans, heq⟩ := start_aggregate_eq_ok h
      rw [heq] at hrow
      rw [ExecUnit.length_of_mem_aggregated hrow, ← (mapM_eq_ok.1 hplans).length_eq]
      exact (width_aggregate fun c => lt_of_checkAggregate valid.check).symm
    | @union id inputs es hinputs =>
      obtain ⟨source, hsource, hmem⟩ := Emission.mem_concat hrow
      obtain ⟨child, hchild, hstart⟩ := forall₂_exists_mem hinputs hsource
      exact (below hchild hstart hmem).trans (width_of_checkSetOp valid.check hchild)
    | @sort id input collation offset fetch source hinput =>
      obtain ⟨rows, hrows, hmem⟩ := Emission.mem_ofResult hrow
      rw [map_eq_pure_bind, bind_eq_ok] at hrows
      obtain ⟨read, hread, hrows⟩ := hrows
      cases hrows
      exact below List.mem_cons_self hinput
        (Emission.mem_of_mem_result hread (mem_of_mem_window_sort hmem))
    | @exchange id input distribution source hinput => exact below List.mem_cons_self hinput hrow

end Plan
end Relational
