import Relational.Proofs.Execution.Sorting
import Relational.Proofs.Grouping.Opening
import Relational.Proofs.Metadata.Answering
import Relational.Proofs.Metadata.Counting

/-!
# Bounds on executed plans

A node is executed to no more rows than the bound that the built-in rules derive for it, as far as
quantities tell.
-/
namespace Relational
open Metadata

namespace Plan
variable {Q : Type} [Quantity Q] [Counting Q] {registry : UserAggregate.Registry}
  {contents : Contents} {p : Plan}

/-- Where a sort skips rows, quantities count the rows of its input exactly. Doubles do so up to 2⁵³,
and a sort holds all of them at once: no memory has room for more. -/
def Counted (Q : Type) [Quantity Q] [Counting Q] (registry : UserAggregate.Registry)
    (contents : Contents) (p : Plan) : Prop :=
  ∀ id input collation offset fetch, .sort id input collation offset fetch ∈ p.nodes →
    0 < offset.getD 0 → ∀ rows, input.collect registry contents = .ok rows →
      Counting.Exact Q rows.length

theorem Counted.below (h : p.Counted Q registry contents) {node : Plan} (hnode : node ∈ p.nodes) :
    node.Counted Q registry contents :=
  fun id input collation offset fetch hmem =>
    h id input collation offset fetch (mem_nodes_trans hnode hmem)

end Plan

namespace Metadata.Basis
open Counting Quantity
variable {Q : Type} [Quantity Q] {b : Basis Q} {p : Plan} {registry : UserAggregate.Registry}
  {contents : Contents} {rows : List Row} {fact : Fact Q}

theorem gives_of_builtin (hrules : b.rules = .builtin) {q : Question} {rule : Rule Q}
    (h : b.Answers p q (.ok (some fact)))
    (hrule : RuleTable.builtin.lookup p.kind q.kind = some rule) :
    b.Gives p (rule b.setting p q.args) (.ok (some fact)) := by
  obtain ⟨found, hfound, gives⟩ := answers_some.1 h
  rw [hrules, hrule] at hfound
  exact Option.some.inj hfound ▸ gives

theorem answers_of_builtin (hrules : b.rules = .builtin) {q : Question} {rule : Rule Q}
    (hrule : RuleTable.builtin.lookup p.kind q.kind = some rule)
    (h : b.Gives p (rule b.setting p q.args) (.ok (some fact))) :
    b.Answers p q (.ok (some fact)) :=
  answers_some.2 ⟨rule, by rw [hrules, hrule], h⟩

variable [Counting Q]

def Bounded (b : Basis Q) (registry : UserAggregate.Registry) (contents : Contents) (p : Plan) :
    Prop :=
  ∀ x rows, b.Answers p ⟨.maxRowCount, .none⟩ (.ok (some (.number x))) →
    p.collect registry contents = .ok rows → Covers x rows.length

theorem covers_maxRowCount {s : Subject} {node : Plan} (hs : b.node? p s = some node)
    (hbounded : b.Bounded registry contents node) {x : Q}
    (h : b.Gives p (maxRowCount s) (.ok (some x)))
    (hrows : node.collect registry contents = .ok rows) : Covers x rows.length := by
  obtain ⟨other, y, hother, hanswers, rfl⟩ := gives_askAmount.1 h
  obtain rfl := Option.some.inj (hs.symm.trans hother)
  exact covers_atLeastZero (hbounded y rows hanswers hrows)

theorem sum_lengths_le {sets : List ColumnSet} {parts : List (List Row)} {n : Nat}
    (h : List.Forall₂ (fun (set : ColumnSet) part => part.length ≤ if set.isEmpty then 1 else n)
      sets parts) :
    parts.flatten.length ≤ emptySets sets + n * keyedSets sets := by
  induction h with
  | nil => simp
  | @cons set part sets parts hpart _ ih =>
    rw [List.flatten_cons, List.length_append]
    cases hempty : set.isEmpty with
    | true =>
      rw [hempty] at hpart
      simp only [emptySets, keyedSets, List.filter_cons, hempty] at ih ⊢
      simp at hpart ih ⊢
      omega
    | false =>
      rw [hempty] at hpart
      simp only [emptySets, keyedSets, List.filter_cons, hempty] at ih ⊢
      simp [Nat.mul_succ] at hpart ih ⊢
      omega

theorem covers_aggregate {id : Nat} {input : Plan} {sets : List ColumnSet}
    {calls : List AggregateCall} {indicator : Bool} {source : List Row} {plans : List CallPlan}
    {states : List Grouping.SetState} {parts : List (List Row)} {x : Q}
    (hinput : b.Bounded registry contents input)
    (h : b.Gives (.aggregate id input sets calls indicator) (RowBound.maxOfAggregate b.setting
      (.aggregate id input sets calls indicator) .none) (.ok (some (.number x))))
    (hsource : input.collect registry contents = .ok source)
    (hstates : source.foldlM (Grouping.sendRow plans) (Grouping.start sets) = .ok states)
    (hparts : List.Forall₂ (fun s part =>
      ExecUnit.emitted (Plan.groupColumns sets) plans indicator s = .ok part) states parts) :
    Covers x parts.flatten.length := by
  have hlengths : List.Forall₂ (fun (set : ColumnSet) (part : List Row) =>
      part.length ≤ if set.isEmpty then 1 else source.length) sets parts := by
    refine (forall₂_comp.1 ⟨states, Grouping.foldlM_sendRow_opened hstates, hparts⟩).imp ?_
    rintro set part ⟨s, hs, hpart⟩
    exact Grouping.length_emitted_le hs hpart
  have htotal := sum_lengths_le hlengths
  simp only [RowBound.maxOfAggregate] at h
  split at h
  next hkeyed =>
    cases gives_known.1 h
    exact covers_mono (covers_ofNat _) (by simpa [hkeyed] using htotal)
  · obtain ⟨a, ha, hfact⟩ := gives_report.1 h
    cases hfact
    have hrows := covers_maxRowCount rfl hinput ha hsource
    exact covers_mono (covers_add (covers_ofNat _) (covers_times hrows _)) htotal

theorem covers_union {id : Nat} {inputs : List Plan} {parts : List (List Row)} {x : Q}
    (hbounded : ∀ p ∈ inputs, b.Bounded registry contents p)
    (h : b.Gives (.setOp id .union inputs true) (RowBound.maxOfUnion b.setting
      (.setOp id .union inputs true) .none) (.ok (some (.number x))))
    (hinputs : List.Forall₂ (fun (p : Plan) part => p.collect registry contents = .ok part) inputs
      parts) : Covers x parts.flatten.length := by
  obtain ⟨counts, hcounts, hfact⟩ := gives_report.1 h
  cases hfact
  have hasked := (List.forall₂_and_left _ _).2 ⟨hbounded, gives_inputs hcounts⟩
  have hcovers : List.Forall₂ Covers counts (parts.map List.length) := by
    rw [List.forall₂_map_right_iff]
    refine (forall₂_comp.1 ⟨inputs, hasked.flip, hinputs⟩).imp ?_
    rintro a part ⟨child, ⟨hchild, i, hs, ha⟩, hpart⟩
    exact covers_maxRowCount hs hchild ha hpart
  rw [List.length_flatten]
  exact covers_sum hcovers

/-- Every node is executed to no more rows than its bound. -/
theorem bounded (hrules : b.rules = .builtin) (hcounted : p.Counted Q registry contents) :
    b.Bounded registry contents p := by
  induction p using Plan.inputInduction with
  | node p ih =>
    have hchild : ∀ child ∈ p.children, b.Bounded registry contents child := fun child hchild =>
      ih child hchild (hcounted.below (Plan.mem_nodes_of_mem_children hchild))
    clear ih
    intro x rows h hrows
    cases Plan.executed_of_collect hrows with
    | scan =>
      cases gives_known.1 (gives_of_builtin hrules h rfl)
      exact covers_infinity _
    | values =>
      cases gives_known.1 (gives_of_builtin hrules h rfl)
      exact covers_ofNat _
    | filter hinput hsublist =>
      obtain ⟨a, ha, hfact⟩ := gives_fromInput (gives_of_builtin hrules h rfl)
      cases hfact
      exact covers_mono (covers_maxRowCount rfl (hchild _ List.mem_cons_self) ha hinput)
        hsublist.length_le
    | project hinput hcopied =>
      obtain ⟨a, ha, hfact⟩ := gives_fromInput (gives_of_builtin hrules h rfl)
      cases hfact
      rw [← hcopied.length_eq]
      exact covers_maxRowCount rfl (hchild _ List.mem_cons_self) ha hinput
    | aggregate hinput hstates hparts =>
      exact covers_aggregate (hchild _ List.mem_cons_self) (gives_of_builtin hrules h rfl) hinput
        hstates hparts
    | union hinputs => exact covers_union hchild (gives_of_builtin hrules h rfl) hinputs
    | @sort id input collation offset fetch source hinput =>
      obtain ⟨found, hfound, hknown⟩ := gives_bind.1 (gives_of_builtin hrules h rfl)
      cases gives_known.1 hknown
      have hsource : Covers (found.getD infinity) source.length := by
        cases found with
        | none => exact covers_infinity _
        | some a => exact covers_maxRowCount rfl (hchild input List.mem_cons_self) hfound hinput
      rw [length_window, length_sort]
      exact covers_limit hsource
        (fun hoffset => hcounted _ _ _ _ _ (Plan.self_mem_nodes _) hoffset _ hinput) fetch
    | exchange hinput =>
      obtain ⟨a, ha, hfact⟩ := gives_fromInput (gives_of_builtin hrules h rfl)
      cases hfact
      exact covers_maxRowCount rfl (hchild _ List.mem_cons_self) ha hinput

end Metadata.Basis
end Relational
