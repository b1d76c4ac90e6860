import Relational.Proofs.Execution.Emitted
import Relational.Proofs.Nullability.Expression
import Relational.Proofs.Typing.Grouping

/-!
# Nulls of groups

What the accumulators of a group keep from row to row, and from it that the row of a group respects
the schema of the aggregate: only counts and sums that are zero over no rows are typed not null.
-/
namespace Relational

namespace Accumulator
variable {input : Schema} {t : DataType} {row : Row} {acc acc' : Accumulator}

inductive Present : Accumulator → Prop
  | count (args : List Nat) (n : Nat) : Present (.count args n)
  | sum (arg : Nat) (type : NumericType) (total : Value) (seen : Bool) :
    Present (.sum arg type total seen true)
  | filtered (column : Nat) {inner : Accumulator} (h : Present inner) :
    Present (.filtered column inner)

theorem Present.send (h : acc.Present) (hsend : acc.send row = .ok acc') : acc'.Present := by
  induction h generalizing acc' with
  | count args n =>
    obtain ⟨b, -, hsend⟩ := bind_eq_ok.1 hsend
    cases hsend
    exact .count _ _
  | sum arg type total seen =>
    obtain ⟨v, -, hsend⟩ := bind_eq_ok.1 hsend
    obtain ⟨number, -, hsend⟩ := bind_eq_ok.1 hsend
    split at hsend
    · cases hsend
      exact .sum _ _ _ _
    · split at hsend
      · cases hsend
        exact .sum _ _ _ _
      · cases hsend
  | filtered column h ih =>
    obtain ⟨b, -, hsend⟩ := bind_eq_ok.1 hsend
    split at hsend
    · obtain ⟨inner', hinner, hsend⟩ := bind_eq_ok.1 hsend
      cases hsend
      exact .filtered column (ih hinner)
    · cases hsend
      exact .filtered column h

theorem Present.finish_ne_null (h : acc.Present) (typed : acc.Typed input t) :
    acc.finish ≠ .ok .null := by
  induction h with
  | count args n => simp [Accumulator.finish]
  | sum arg type total seen =>
    cases typed with | sum harg ht htotal hargument =>
    intro hfinish
    simp only [Accumulator.finish, Bool.or_true, if_true, Except.ok.injEq] at hfinish
    rw [hfinish] at htotal
    cases type <;> cases htotal
  | filtered column h ih =>
    cases typed with | filtered hcolumn hf hinner =>
    exact ih hinner

end Accumulator

namespace CallPlan
variable {input : Schema} {c : AggregateCall} {registry : UserAggregate.Registry}
  {plan : CallPlan} {acc : Accumulator}

def Counting (plan : CallPlan) : Prop :=
  (∃ args, plan.recipe = .count args) ∨ ∃ arg type, plan.recipe = .sum arg type true

theorem Counting.present (h : plan.Counting) (hstart : plan.start = .ok acc) : acc.Present := by
  obtain ⟨inner, hmake, hstart⟩ := bind_eq_ok.1 hstart
  have hinner : inner.Present := by
    rcases h with ⟨args, h⟩ | ⟨arg, type, h⟩
    · rw [h] at hmake
      cases hmake
      exact .count args 0
    · simp only [h, Recipe.make] at hmake
      split at hmake
      · cases hmake
        exact .sum _ _ _ _
      · cases hmake
  cases hstart
  cases plan.filter with
  | none => exact hinner
  | some column => exact .filtered column hinner

theorem counts_or_sums_of_resultType {f : AggregateFunction} {types : List SqlType} {t : SqlType}
    (h : f.resultType types = .ok t) (hnull : t.nullable = false) : f = .count ∨ f = .sum0 := by
  cases f <;> simp only [AggregateFunction.resultType, bind_eq_ok, pure_eq_ok, Except.ok.injEq,
    reduceCtorEq] at h
  case count => exact .inl rfl
  case sum0 => exact .inr rfl
  case sum =>
    obtain ⟨s, -, _, -, rfl⟩ := h
    cases hnull
  case min | max | anyValue =>
    obtain ⟨s, -, rfl⟩ := h
    cases hnull
  case avg =>
    obtain ⟨s, -, _, -, rfl⟩ := h
    cases hnull
  case boolAnd | boolOr =>
    obtain ⟨s, -, h⟩ := h
    split at h
    · cases h
      cases hnull
    · cases h

theorem counting_of_built (built : c.Built input) (hnull : c.type.nullable = false)
    (h : CallPlan.ofCall c input registry = .ok plan) : plan.Counting := by
  obtain ⟨types, -, htype⟩ := derived_of_built built
  obtain ⟨recipe, hrecipe, h⟩ := bind_eq_ok.1 h
  cases h
  cases hcolumns : (c.args ++ c.filter.toList).find? (input.length ≤ ·) with
  | some column => simp [Recipe.ofCall, hcolumns] at hrecipe
  | none =>
    simp only [Recipe.ofCall, hcolumns, pure_eq_ok] at hrecipe
    rcases counts_or_sums_of_resultType htype hnull with hf | hf
    · rw [hf] at hrecipe
      cases hrecipe
      exact .inl ⟨c.args, rfl⟩
    · rw [hf] at hrecipe
      obtain ⟨arg, -, hrecipe⟩ := bind_eq_ok.1 hrecipe
      cases hrecipe
      exact .inr ⟨arg, _, rfl⟩

end CallPlan

namespace Grouping
variable {input : Schema} {calls : List AggregateCall} {plans : List CallPlan}
  {P : CallPlan → Accumulator → Prop} {rows : List Row} {row : Row} {key : List Value}
  {g g' : Group} {groups groups' : List Group} {set : ColumnSet} {sets : List ColumnSet}

structure Kept (P : CallPlan → Accumulator → Prop) : Prop where
  start : ∀ plan acc, plan.start = .ok acc → P plan acc
  send : ∀ plan acc row acc', P plan acc → acc.send row = .ok acc' → P plan acc'

def Group.Keeps (P : CallPlan → Accumulator → Prop) (plans : List CallPlan) (g : Group) : Prop :=
  List.Forall₂ P plans g.accumulators

theorem Kept.opened (h : Kept P) (hopen : Group.open plans key = .ok g) : g.Keeps P plans := by
  obtain ⟨accs, haccs, hopen⟩ := bind_eq_ok.1 hopen
  cases hopen
  exact (mapM_eq_ok.1 haccs).imp h.start

theorem Kept.sent (h : Kept P) (hg : g.Keeps P plans) (hsend : g.send row = .ok g') :
    g'.Keeps P plans := by
  obtain ⟨accs, haccs, hsend⟩ := bind_eq_ok.1 hsend
  cases hsend
  refine (forall₂_comp.1 ⟨_, hg, mapM_eq_ok.1 haccs⟩).imp ?_
  rintro plan acc' ⟨acc, hacc, hsend⟩
  exact h.send plan acc row acc' hacc hsend

theorem Kept.collected (h : Kept P) (hgroups : ∀ g ∈ groups, g.Keeps P plans)
    (hcollect : collect plans key row groups = .ok groups') : ∀ g ∈ groups', g.Keeps P plans := by
  induction groups generalizing groups' with
  | nil =>
    obtain ⟨g, hopen, hcollect⟩ := bind_eq_ok.1 hcollect
    obtain ⟨g', hsend, hcollect⟩ := bind_eq_ok.1 hcollect
    cases hcollect
    exact List.forall_mem_singleton.2 (h.sent (h.opened hopen) hsend)
  | cons g rest ih =>
    obtain ⟨hg, hrest⟩ := List.forall_mem_cons.1 hgroups
    unfold collect at hcollect
    split at hcollect
    · obtain ⟨g', hsend, hcollect⟩ := bind_eq_ok.1 hcollect
      cases hcollect
      exact List.forall_mem_cons.2 ⟨h.sent hg hsend, hrest⟩
    · obtain ⟨rest', hrest', hcollect⟩ := bind_eq_ok.1 hcollect
      cases hcollect
      exact List.forall_mem_cons.2 ⟨hg, ih hrest hrest'⟩

theorem Kept.run (h : Kept P) {states : List SetState}
    (hstates : rows.foldlM (sendRow plans) (Grouping.start sets) = .ok states) :
    ∀ s ∈ states, ∀ g ∈ s.groups, g.Keeps P plans := by
  -- from the last row, which every grouping set takes in after all the others
  induction rows using List.reverseRecOn generalizing states with
  | nil =>
    cases hstates
    intro s hs
    obtain ⟨set, -, rfl⟩ := List.mem_map.1 hs
    exact fun g hg => absurd hg List.not_mem_nil
  | append_singleton rows row ih =>
    simp only [List.foldlM_append, List.foldlM_cons, List.foldlM_nil, bind_pure,
      bind_eq_ok] at hstates
    obtain ⟨before, hbefore, hsend⟩ := hstates
    intro s hs
    obtain ⟨s₀, hs₀, hsent⟩ := forall₂_exists_mem (mapM_eq_ok.1 hsend) hs
    obtain ⟨key, -, hsent⟩ := bind_eq_ok.1 hsent
    obtain ⟨groups, hcollect, hsent⟩ := bind_eq_ok.1 hsent
    cases hsent
    exact h.collected (ih hbefore s₀ hs₀) hcollect

theorem Kept.closed (h : Kept P) {s : SetState} (hs : ∀ g ∈ s.groups, g.Keeps P plans)
    (hclose : s.close plans = .ok groups) : ∀ g ∈ groups, g.Keeps P plans := by
  unfold SetState.close at hclose
  split at hclose
  · obtain ⟨g, hopen, hclose⟩ := bind_eq_ok.1 hclose
    cases hclose
    exact List.forall_mem_singleton.2 (h.opened hopen)
  · cases hclose
    exact hs

theorem kept_present : Kept fun plan acc => plan.Counting → acc.Present where
  start _ _ hstart h := h.present hstart
  send _ _ _ _ hpresent hsend h := (hpresent h).send hsend

theorem nullable_of_keyValue (hset : set ∈ sets) (hkey : KeyOver set rows key)
    (hrows : ∀ row ∈ rows, row.Respects input) {c : Nat} {f : Field} (hf : input[c]? = some f)
    (hnull : ((set.position? c).bind fun p => key[p]?).getD .null = .null) :
    (Plan.nullableField (!sets.all (·.contains c)) f).type.nullable = true := by
  simp only [Plan.nullableField, SqlType.withNullable, Bool.or_eq_true, Bool.not_eq_true']
  by_cases hall : sets.all (·.contains c) = true
  · refine .inl ?_
    have hc : c ∈ set.columns := ColumnSet.contains_iff.1 (List.all_eq_true.1 hall set hset)
    rcases hkey with ⟨row, hrow, hkey⟩ | ⟨hempty, -⟩
    · obtain ⟨i, hi, rfl⟩ := List.getElem_of_mem hc
      have hvalues := eq_of_keyOf hkey
      obtain ⟨v, hv, hread⟩ := forall₂_exists_getElem? hvalues (List.getElem?_eq_getElem hi)
      rw [ColumnSet.position?_getElem hi, Option.bind_some, hv, Option.getD_some] at hnull
      exact (forall₂_getElem? (hrows row hrow) hread hf).2 hnull
    · rw [List.isEmpty_iff.1 hempty] at hc
      exact absurd hc List.not_mem_nil
  · exact .inr (Bool.eq_false_iff.2 hall)

theorem respects_of_results (typed : g.Typed input calls set)
    (hpresent : List.Forall₂ (fun c acc => c.type.nullable = false → acc.Present) calls
      g.accumulators) {results : List Value}
    (h : g.accumulators.mapM Accumulator.finish = .ok results) :
    Row.Respects results (Plan.callFields calls) := by
  have hresults := mapM_eq_ok.1 h
  obtain ⟨-, haccs⟩ := typed
  clear h
  generalize g.accumulators = accs at haccs hpresent hresults
  induction haccs generalizing results with
  | nil =>
    cases hresults
    exact .nil
  | @cons c acc calls accs hacc _ ih =>
    cases hpresent with | cons hkept hpresent =>
    cases hresults with | @cons _ v _ _ hv hresults =>
    refine .cons ⟨?_, ?_⟩ (ih hpresent hresults)
    · have hconforms := hacc.finish
      rw [hv] at hconforms
      exact hconforms
    · rintro rfl
      by_contra hnull
      exact (hkept (Bool.eq_false_iff.2 hnull)).finish_ne_null hacc hv

theorem respects_of_outputRow (hcolumns : ∀ c ∈ Plan.groupColumns sets, c < input.length)
    (hset : set ∈ sets) (hrows : ∀ row ∈ rows, row.Respects input)
    (typed : g.Typed input calls set) (hkey : KeyOver set rows g.key)
    (hpresent : List.Forall₂ (fun c acc => c.type.nullable = false → acc.Present) calls
      g.accumulators) {indicator : Bool} {out : Row}
    (h : outputRow (Plan.groupColumns sets) set indicator g = .ok out) :
    out.Respects (Plan.groupFields input sets ++
      (if indicator then Plan.indicatorFields input sets else []) ++ Plan.callFields calls) := by
  obtain ⟨results, hresults, h⟩ := bind_eq_ok.1 h
  cases h
  refine List.rel_append (List.rel_append ?_ ?_) (respects_of_results typed hpresent hresults)
  · refine forall₂_columns hcolumns _ (fun c => Plan.nullableField !sets.all (·.contains c))
      fun c _ f hf => ⟨keyValue_conforms (f := f) typed.key hf, ?_⟩
    exact nullable_of_keyValue hset hkey hrows hf
  · split
    · refine forall₂_columns hcolumns _
        (fun _ f => { name := "i$" ++ f.name, type := .boolean false }) fun c _ f _ => ?_
      exact ⟨Value.boolean_conforms _, by simp⟩
    · exact .nil

end Grouping

namespace ExecUnit
open Grouping
variable {input : Schema} {calls : List AggregateCall} {plans : List CallPlan}
  {sets : List ColumnSet}

theorem present_of_run {registry : UserAggregate.Registry} (built : ∀ c ∈ calls, c.Built input)
    (hplans : calls.mapM (fun c => CallPlan.ofCall c input registry) = .ok plans)
    {rows : List Row} {states : List SetState}
    (hstates : rows.foldlM (sendRow plans) (start sets) = .ok states) {s : SetState}
    (hs : s ∈ states) {groups : List Group} (hclose : s.close plans = .ok groups) {g : Group}
    (hg : g ∈ groups) :
    List.Forall₂ (fun c acc => c.type.nullable = false → acc.Present) calls g.accumulators := by
  have hkept := kept_present.closed (kept_present.run hstates s hs) hclose g hg
  have hcounting :
      List.Forall₂ (fun c plan => c.type.nullable = false → plan.Counting) calls plans :=
    forall₂_imp_of_mem (mapM_eq_ok.1 hplans) fun c hc plan hplan hnull =>
      CallPlan.counting_of_built (built c hc) hnull hplan
  refine (forall₂_comp.1 ⟨plans, hcounting, hkept⟩).imp ?_
  rintro c acc ⟨plan, hcounting, hkept⟩ hnull
  exact hkept (hcounting hnull)

theorem respects_of_mem_aggregated {registry : UserAggregate.Registry} {e : Emission}
    (built : ∀ c ∈ calls, c.Built input)
    (hplans : calls.mapM (fun c => CallPlan.ofCall c input registry) = .ok plans)
    (hstarts : Starts input calls plans)
    (hcolumns : ∀ c ∈ Plan.groupColumns sets, c < input.length)
    (hrows : ∀ row ∈ e.rows, row.Respects input) {indicator : Bool} {row : Row}
    (h : row ∈ (aggregated sets plans indicator e).rows) :
    row.Respects (Plan.groupFields input sets ++
      (if indicator then Plan.indicatorFields input sets else []) ++ Plan.callFields calls) := by
  obtain ⟨states, hstates, s, hs, groups, hclose, g, hg, hout⟩ := exists_of_mem_aggregated h
  have htyped : ∀ s ∈ states, s.Typed input calls sets := by
    have hyields := run_typed hstarts hcolumns fun row hrow => (hrows row hrow).conforms
    rw [hstates] at hyields
    exact hyields
  obtain ⟨groups', hclose', typed⟩ := close_typed hstarts (htyped s hs)
  obtain rfl : groups' = groups := Except.ok.inj (hclose'.symm.trans hclose)
  obtain ⟨set, hset, hopened⟩ := forall₂_exists_mem (foldlM_sendRow_opened hstates) hs
  obtain rfl := hopened.columns
  exact respects_of_outputRow hcolumns hset hrows (typed g hg) ((hopened.close hclose).2 g hg)
    (present_of_run built hplans hstates hs hclose hg) hout

end ExecUnit
end Relational
