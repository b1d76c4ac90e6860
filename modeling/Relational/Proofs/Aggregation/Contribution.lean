import Relational.Proofs.Grouping.Reference
import Relational.Proofs.Typing.Accumulation

/-!
# Contributing rows

A row contributes to a call if its filter column is true and no argument of it is null. What an
accumulator holds follows from the contributing rows alone, in their order: it takes them in and
passes over the others.
-/
namespace Relational

namespace AggregateCall

def contributes (c : AggregateCall) (row : Row) : Bool :=
  c.filter.all (fun column => row[column]? == some (.boolean true)) &&
    c.args.all fun arg => row[arg]? != some .null

def contributing (c : AggregateCall) (rows : List Row) : List Row := rows.filter c.contributes

def contributions (c : AggregateCall) (rows : List Row) : List Value :=
  (c.contributing rows).flatMap fun row => c.args.filterMap (row[·]?)

theorem onlyArgument_eq_ok {c : AggregateCall} {arg : Nat} (h : c.onlyArgument = .ok arg) :
    c.args = [arg] := by
  unfold onlyArgument at h
  split at h
  next hargs =>
    cases h
    exact hargs
  · cases h

theorem contributions_length_le {c : AggregateCall} {arg : Nat} (hargs : c.args = [arg])
    (rows : List Row) : (c.contributions rows).length ≤ rows.length := by
  have hvalues : c.contributions rows = (c.contributing rows).filterMap (·[arg]?) := by
    rw [contributions, hargs, List.filterMap_eq_flatMap_toList]
    rfl
  calc (c.contributions rows).length
      = ((c.contributing rows).filterMap (·[arg]?)).length := by rw [hvalues]
    _ ≤ (c.contributing rows).length := List.length_filterMap_le _ _
    _ ≤ rows.length := List.length_filter_le _ _

end AggregateCall

namespace Accumulator
variable {α : Type} {input : Schema} {contributes : Row → Bool} {acc start : Accumulator}
  {Holds : List Row → Accumulator → Prop} {Fails : List Row → Error → Prop} {row : Row}
  {rows : List Row} {column arg : Nat} {f : Field}

/-- What is held once the last of the items is taken in, or why it is refused. -/
def Leaves (Holds : List α → Accumulator → Prop) (Fails : List α → Error → Prop)
    (taken : List α) : Except Error Accumulator → Prop
  | .ok acc => Holds taken acc
  | .error e => Fails taken e

/-- One row changes what is held as far as it contributes. -/
structure Steps (input : Schema) (contributes : Row → Bool)
    (Holds : List Row → Accumulator → Prop) (Fails : List Row → Error → Prop) : Prop where
  pass {taken : List Row} {acc : Accumulator} {row : Row} (h : Holds taken acc)
    (hrow : row.Conforms input) (hpass : contributes row = false) : acc.send row = .ok acc
  take {taken : List Row} {acc : Accumulator} {row : Row} (h : Holds taken acc)
    (hrow : row.Conforms input) (htake : contributes row = true) :
    Leaves Holds Fails (taken ++ [row]) (acc.send row)

theorem Steps.run (h : Steps input contributes Holds Fails) (hstart : Holds [] start)
    (hrows : ∀ row ∈ rows, row.Conforms input) :
    (∃ acc, rows.foldlM send start = .ok acc ∧ Holds (rows.filter contributes) acc) ∨
      ∃ taken e, taken <+: rows.filter contributes ∧ rows.foldlM send start = .error e ∧
        Fails taken e := by
  induction rows using List.reverseRecOn with
  | nil => exact .inl ⟨start, rfl, hstart⟩
  | append_singleton rows row ih =>
    obtain ⟨hbefore, hrow⟩ : (∀ row ∈ rows, row.Conforms input) ∧ row.Conforms input :=
      ⟨fun r hr => hrows r (List.mem_append_left _ hr), hrows row (by simp)⟩
    rw [List.foldlM_append, List.filter_append]
    obtain ⟨acc, hacc, hholds⟩ | ⟨taken, e, htaken, he, hfails⟩ := ih hbefore
    · cases hcontributes : contributes row with
      | false =>
        refine .inl ⟨acc, ?_, by simpa [hcontributes] using hholds⟩
        simp [hacc, h.pass hholds hrow hcontributes]
      | true =>
        have hstep := h.take hholds hrow hcontributes
        cases hsend : acc.send row with
        | ok next =>
          rw [hsend] at hstep
          have hnext : Holds (rows.filter contributes ++ [row]) next := hstep
          exact .inl ⟨next, by simp [hacc, hsend], by simpa [hcontributes] using hnext⟩
        | error e =>
          rw [hsend] at hstep
          exact .inr ⟨_, e, by simp [hcontributes], by simp [hacc, hsend], hstep⟩
    · exact .inr ⟨taken, e, htaken.trans (List.prefix_append _ _), by simp [he], hfails⟩

theorem Steps.filtered (h : Steps input contributes Holds Fails)
    (hcolumn : input[column]? = some f) (hf : f.type.dataType = .boolean) :
    Steps input (fun row => row[column]? == some (.boolean true) && contributes row)
      (fun taken acc => ∃ inner, acc = .filtered column inner ∧ Holds taken inner) Fails := by
  have hpasses {row : Row} (hrow : row.Conforms input) :
      passes column row = .ok (row[column]? == some (.boolean true)) := by
    obtain ⟨v, hv, hconforms⟩ := hrow.getElem hcolumn
    rcases (hf ▸ hconforms).bool with rfl | ⟨b, rfl⟩
    · simp [passes, hv]
    · cases b <;> simp [passes, hv]
  constructor
  case pass =>
    rintro taken _ row ⟨inner, rfl, hinner⟩ hrow hpass
    rw [send, hpasses hrow, ok_bind]
    split
    next htrue =>
      rw [h.pass hinner hrow (by simpa [htrue] using hpass)]
      rfl
    · rfl
  case take =>
    rintro taken _ row ⟨inner, rfl, hinner⟩ hrow htake
    obtain ⟨htrue, htake⟩ := Bool.and_eq_true_iff.1 htake
    have hstep := h.take hinner hrow htake
    rw [send, hpasses hrow, ok_bind, if_pos htrue]
    cases hsend : inner.send row with
    | ok next =>
      rw [hsend] at hstep
      exact ⟨next, rfl, hstep⟩
    | error e =>
      rw [hsend] at hstep
      exact hstep

def argumentOf (arg : Nat) (row : Row) : List Value := [arg].filterMap (row[·]?)

/-- Where one column is the argument, its value in a row changes what is held unless it is null. -/
structure StepsOn (input : Schema) (arg : Nat) (t : DataType)
    (Holds : List Value → Accumulator → Prop) (Fails : List Value → Error → Prop) : Prop where
  column : ∃ f, input[arg]? = some f ∧ f.type.dataType = t
  pass {vs : List Value} {acc : Accumulator} {row : Row} (h : Holds vs acc)
    (hrow : row.Conforms input) (hv : row[arg]? = some .null) : acc.send row = .ok acc
  take {vs : List Value} {acc : Accumulator} {row : Row} {v : Value} (h : Holds vs acc)
    (hrow : row.Conforms input) (hv : row[arg]? = some v) (hnull : v ≠ .null)
    (hconforms : v.Conforms t) : Leaves Holds Fails (vs ++ [v]) (acc.send row)

theorem StepsOn.steps {t : DataType} {Holds : List Value → Accumulator → Prop}
    {Fails : List Value → Error → Prop} (h : StepsOn input arg t Holds Fails) :
    Steps input (fun row => [arg].all fun arg => row[arg]? != some .null)
      (fun taken acc => Holds (taken.flatMap (argumentOf arg)) acc)
      (fun taken e => Fails (taken.flatMap (argumentOf arg)) e) := by
  constructor
  case pass =>
    intro taken acc row hholds hrow hnull
    exact h.pass hholds hrow (by simpa using hnull)
  case take =>
    intro taken acc row hholds hrow hsome
    obtain ⟨f, harg, rfl⟩ := h.column
    obtain ⟨v, hv, hconforms⟩ := hrow.getElem harg
    have hnull : v ≠ .null := by simpa [hv] using hsome
    have hvalues : (taken ++ [row]).flatMap (argumentOf arg) =
        taken.flatMap (argumentOf arg) ++ [v] := by simp [argumentOf, hv]
    have hstep := h.take hholds hrow hv hnull hconforms
    rw [← hvalues] at hstep
    cases hsend : acc.send row <;> exact hsend ▸ hstep

end Accumulator

namespace Grouping
open Accumulator
variable {c : AggregateCall} {input : Schema} {plan : CallPlan} {rows : List Row} {arg : Nat}
  {start : Accumulator}

theorem callResult_of_steps {Holds : List Row → Accumulator → Prop}
    {Fails : List Row → Error → Prop} (hmake : plan.recipe.make = .ok start)
    (hplan : plan.filter = c.filter)
    (hfilter : ∀ column ∈ c.filter, ∃ f, input[column]? = some f ∧ f.type.dataType = .boolean)
    (hsteps : Steps input (fun row => c.args.all fun arg => row[arg]? != some .null) Holds Fails)
    (hstart : Holds [] start) (hrows : ∀ row ∈ rows, row.Conforms input) :
    (∃ acc, callResult rows plan = acc.finish ∧ Holds (c.contributing rows) acc) ∨
      ∃ taken e, taken <+: c.contributing rows ∧ callResult rows plan = .error e ∧
        Fails taken e := by
  cases hcolumn : c.filter with
  | none =>
    have hcontributes : c.contributes = fun row =>
        c.args.all fun arg => row[arg]? != some .null := by
      funext row
      simp [AggregateCall.contributes, hcolumn]
    have hfresh : plan.start = .ok start := by
      simp [CallPlan.start, hmake, hplan, hcolumn]
    rw [AggregateCall.contributing, hcontributes]
    obtain ⟨acc, hacc, hholds⟩ | ⟨taken, e, htaken, he, hfails⟩ := hsteps.run hstart hrows
    · exact .inl ⟨acc, by simp [callResult, fed, hfresh, hacc], hholds⟩
    · exact .inr ⟨taken, e, htaken, by simp [callResult, fed, hfresh, he], hfails⟩
  | some column =>
    obtain ⟨f, hf, hboolean⟩ := hfilter column hcolumn
    have hfresh : plan.start = .ok (.filtered column start) := by
      simp [CallPlan.start, hmake, hplan, hcolumn]
    have hcontributes : c.contributes = fun row =>
        row[column]? == some (.boolean true) && c.args.all fun arg => row[arg]? != some .null := by
      funext row
      simp [AggregateCall.contributes, hcolumn]
    rw [AggregateCall.contributing, hcontributes]
    obtain ⟨_, hacc, inner, rfl, hholds⟩ | ⟨taken, e, htaken, he, hfails⟩ :=
      (hsteps.filtered hf hboolean).run ⟨start, rfl, hstart⟩ hrows
    · exact .inl ⟨inner, by simp [callResult, fed, hfresh, hacc, finish], hholds⟩
    · exact .inr ⟨taken, e, htaken, by simp [callResult, fed, hfresh, he], hfails⟩

theorem callResult_of_argument {t : DataType} {Holds : List Value → Accumulator → Prop}
    {Fails : List Value → Error → Prop} (hargs : c.args = [arg])
    (hmake : plan.recipe.make = .ok start) (hplan : plan.filter = c.filter)
    (hfilter : ∀ column ∈ c.filter, ∃ f, input[column]? = some f ∧ f.type.dataType = .boolean)
    (hsteps : StepsOn input arg t Holds Fails) (hstart : Holds [] start)
    (hrows : ∀ row ∈ rows, row.Conforms input) :
    (∃ acc, callResult rows plan = acc.finish ∧ Holds (c.contributions rows) acc) ∨
      ∃ vs e, vs <+: c.contributions rows ∧ callResult rows plan = .error e ∧ Fails vs e := by
  have hcontributions : c.contributions rows = (c.contributing rows).flatMap (argumentOf arg) := by
    rw [AggregateCall.contributions, hargs]
    rfl
  rw [hcontributions]
  have hsteps := hsteps.steps
  rw [← hargs] at hsteps
  obtain ⟨acc, hresult, hholds⟩ | ⟨taken, e, htaken, he, hfails⟩ :=
    callResult_of_steps hmake hplan hfilter hsteps hstart hrows
  · exact .inl ⟨acc, hresult, hholds⟩
  · obtain ⟨rest, hrest⟩ := htaken
    refine .inr ⟨_, e, ?_, he, hfails⟩
    rw [← hrest, List.flatMap_append]
    exact List.prefix_append _ _

end Grouping
end Relational
