import Relational.Aggregation.Accumulator
import Relational.Plan.Check
import Relational.Proofs.Typing.Program

/-!
# Typed accumulators

The accumulator of a call that was derived over a schema takes in every conforming row and ends in
a value of the call's type.
-/
namespace Relational

/-- Derived over the schema, perhaps with a filter column added. -/
inductive AggregateCall.Built (input : Schema) : AggregateCall → Prop
  | derived {function : AggregateFunction} {args : List Nat} {name : String} {c : AggregateCall}
      (h : derive function args name input = .ok c) : Built input c
  | filtered {c : AggregateCall} (column : Nat) (built : Built input c) :
    Built input { c with filter := some column }

namespace Accumulator
open Value
variable {input : Schema} {t : DataType} {row : Row} {acc : Accumulator}

inductive Typed (input : Schema) (t : DataType) : Accumulator → Prop
  | count {args : List Nat} {n : Nat} (hargs : ∀ arg ∈ args, arg < input.length)
      (ht : t = .int64) : Typed input t (.count args n)
  | sum {arg : Nat} {argument : Field} {type : NumericType} {total : Value} {seen zero : Bool}
      (harg : input[arg]? = some argument) (ht : t = type.dataType)
      (htotal : total.dataType = type.dataType)
    (hargument : argument.type.dataType = type.dataType) :
    Typed input t (.sum arg type total seen zero)
  | pick {extreme : Extreme} {arg : Nat} {argument : Field} {type : NumericType} {current : Value}
      {seen : Bool} (harg : input[arg]? = some argument) (ht : t = type.dataType)
      (hcurrent : current.dataType = type.dataType)
      (hargument : argument.type.dataType = type.dataType) :
    Typed input t (.pick extreme arg type current seen)
  | best {extreme : Extreme} {arg : Nat} {argument : Field} {current : Option Value}
      (harg : input[arg]? = some argument) (ht : t = argument.type.dataType)
      (hother : NumericType.ofDataType? t = none)
      (hcurrent : ∀ v, current = some v → v.Conforms t ∧ v ≠ .null) :
    Typed input t (.best extreme arg current)
  | program {p : Program} {state : Schema} {values : List Value} (hp : p.Over input state t)
      (hvalues : Row.Conforms values state) : Typed input t (.program p values)
  | filtered {column : Nat} {f : Field} {inner : Accumulator} (hcolumn : input[column]? = some f)
      (hf : f.type.dataType = .boolean) (hinner : Typed input t inner) :
    Typed input t (.filtered column inner)

theorem argument_eq_ok (hrow : row.Conforms input) {arg : Nat} {f : Field}
    (harg : input[arg]? = some f) :
    ∃ v, argument row arg = .ok v ∧ v.Conforms f.type.dataType := by
  obtain ⟨v, hv, hconforms⟩ := hrow.getElem harg
  exact ⟨v, by simp only [argument, hv], hconforms⟩

theorem allPresent_yields (hrow : row.Conforms input) {args : List Nat}
    (hargs : ∀ arg ∈ args, arg < input.length) : Yields (fun _ => True) (allPresent row args) := by
  induction args with
  | nil => trivial
  | cons arg rest ih =>
    obtain ⟨harg, hrest⟩ := List.forall_mem_cons.1 hargs
    obtain ⟨v, hv, -⟩ := argument_eq_ok hrow (List.getElem?_eq_getElem harg)
    simp only [allPresent, hv, ok_bind]
    split
    · trivial
    · exact ih hrest

theorem typed_of_ne_null {n : NumericType} {v : Value} (what : String) (hv : v.Conforms n.dataType)
    (hnull : v ≠ .null) : typed n what v = .ok (some v) ∧ v.dataType = n.dataType := by
  rcases hv.cases hnull with h | ⟨-, h⟩
  · simp [typed, hnull, h]
  · exact absurd h (by cases n <;> decide)

theorem typed_eq_ok {n : NumericType} {v : Value} (what : String) (hv : v.Conforms n.dataType) :
    typed n what v = .ok none ∨ typed n what v = .ok (some v) ∧ v.dataType = n.dataType := by
  by_cases hnull : v = .null
  · exact .inl (by rw [hnull]; rfl)
  · exact .inr (typed_of_ne_null what hv hnull)

theorem add?_dataType {v w total : Value} (h : v.add? w = some total) :
    total.dataType = v.dataType := by
  cases v <;> cases w <;>
    simp only [Value.add?, Option.map_eq_some_iff, Option.some.injEq, reduceCtorEq] at h
  case int32.int32 | int64.int64 =>
    obtain ⟨n, -, rfl⟩ := h
    rfl
  all_goals
    subst h
    rfl

theorem passes_eq_ok (hrow : row.Conforms input) {column : Nat} {f : Field}
    (hcolumn : input[column]? = some f) (hf : f.type.dataType = .boolean) :
    ∃ b, passes column row = .ok b := by
  obtain ⟨v, hv, hconforms⟩ := hrow.getElem hcolumn
  rcases (hf ▸ hconforms).bool with rfl | ⟨b, rfl⟩ <;> simp only [passes, hv] <;> exact ⟨_, rfl⟩

theorem not_isNaN {v : Value} (hv : v.Conforms t) (hother : NumericType.ofDataType? t = none) :
    ¬v.IsNaN := by
  rintro ⟨x, hx, -⟩
  rcases hv with rfl | rfl | ⟨h, -⟩
  · cases hx
  all_goals cases v <;> simp_all [number?, dataType, NumericType.ofDataType?]

/-- Taking in a row keeps the accumulator typed. -/
theorem Typed.send (h : acc.Typed input t) (hrow : row.Conforms input) :
    Yields (Typed input t) (acc.send row) := by
  induction h with
  | count hargs ht =>
    exact (allPresent_yields hrow hargs).bind fun b _ => .count hargs ht
  | @sum arg argument type total seen zero harg ht htotal hargument =>
    obtain ⟨v, hv, hconforms⟩ := argument_eq_ok hrow harg
    simp only [Accumulator.send, hv, ok_bind]
    rcases typed_eq_ok "SUM" (hargument ▸ hconforms) with h | ⟨h, -⟩ <;> simp only [h, ok_bind]
    · exact .sum harg ht htotal hargument
    · split
      next total' hadd => exact .sum harg ht ((add?_dataType hadd).trans htotal) hargument
      · exact .sumOverflow v
  | @pick extreme arg argument type current seen harg ht hcurrent hargument =>
    obtain ⟨v, hv, hconforms⟩ := argument_eq_ok hrow harg
    simp only [Accumulator.send, hv, ok_bind]
    rcases typed_eq_ok extreme.name (hargument ▸ hconforms) with h | ⟨h, hv⟩ <;>
      simp only [h, ok_bind]
    · exact .pick harg ht hcurrent hargument
    · refine .pick harg ht ?_ hargument
      split
      · exact hv
      · exact hcurrent
  | @best extreme arg argument current harg ht hother hcurrent =>
    obtain ⟨v, hv, hconforms⟩ := argument_eq_ok hrow harg
    rw [← ht] at hconforms
    simp only [Accumulator.send, hv, ok_bind]
    split
    · exact .best harg ht hother hcurrent
    next hnull =>
      have hnull : v ≠ .null := by simpa using hnull
      split
      · exact .best harg ht hother fun w hw => by
          cases hw
          exact ⟨hconforms, hnull⟩
      next b =>
        obtain ⟨hb, hbnull⟩ := hcurrent b rfl
        split
        next hnone =>
          have hnan := compare?_comparable hconforms hb hnull hbnull
            (by simp [DataType.comparable]) hnone
          exact absurd hnan (not_or.2 ⟨not_isNaN hconforms hother, not_isNaN hb hother⟩)
        next o ho =>
          refine .best harg ht hother fun w hw => ?_
          cases hw
          split
          · exact ⟨hconforms, hnull⟩
          · exact ⟨hb, hbnull⟩
  | @program p state values hp hvalues =>
    have hbuffer : Row.Conforms (row ++ values) (input ++ state) := hrow.append hvalues
    have hlength : row.length = p.inputWidth := hrow.length_eq.trans hp.width.symm
    simp only [Accumulator.send, addRow, hlength, if_true]
    exact (Program.step_yields hp.add hbuffer).bind fun values' hvalues' => .program hp hvalues'
  | @filtered column f inner hcolumn hf hinner ih =>
    obtain ⟨b, hb⟩ := passes_eq_ok hrow hcolumn hf
    simp only [Accumulator.send, hb, ok_bind]
    split
    · exact ih.bind fun acc hacc => .filtered hcolumn hf hacc
    · exact .filtered hcolumn hf hinner

theorem Typed.finish (h : acc.Typed input t) : Yields (·.Conforms t) acc.finish := by
  induction h with
  | count hargs ht => exact .inr (.inl ht.symm)
  | sum harg ht htotal hargument =>
    simp only [Accumulator.finish]
    split
    · exact .inr (.inl (htotal.trans ht.symm))
    · exact null_conforms t
  | pick harg ht hcurrent hargument =>
    simp only [Accumulator.finish]
    split
    · exact .inr (.inl (hcurrent.trans ht.symm))
    · exact null_conforms t
  | @best extreme arg argument current harg ht hother hcurrent =>
    cases current with
    | none => exact null_conforms t
    | some v => exact (hcurrent v rfl).1
  | program hp hvalues => exact hp.result.1 ▸ hp.result.2 _ hvalues
  | filtered hcolumn hf hinner ih => exact ih

end Accumulator

namespace CallPlan
open AggregateCall Accumulator
variable {input : Schema} {c : AggregateCall}

structure Derived (input : Schema) (c : AggregateCall) (types : List SqlType) : Prop where
  args : List.Forall₂ (fun arg t => ∃ f, input[arg]? = some f ∧ f.type = t) c.args types
  type : c.function.resultType types = .ok c.type

theorem derived_of_built (h : c.Built input) : ∃ types, Derived input c types := by
  induction h with
  | @derived function args name c h =>
    simp only [derive, bind_eq_ok, pure_eq_ok, Except.ok.injEq] at h
    obtain ⟨types, htypes, t, ht, rfl⟩ := h
    refine ⟨types, (mapM_eq_ok.1 htypes).imp ?_, ht⟩
    intro arg type h
    split at h
    next f hf => exact ⟨f, hf, Except.ok.inj h⟩
    · cases h
  | filtered column _ ih =>
    obtain ⟨types, hargs, htype⟩ := ih
    exact ⟨types, hargs, htype⟩

theorem Derived.argument {t : SqlType} (h : Derived input c [t]) :
    ∃ arg f, c.args = [arg] ∧ input[arg]? = some f ∧ f.type = t := by
  obtain ⟨arg, rest, ⟨f, hf, ht⟩, hrest, hargs⟩ := List.forall₂_cons_right_iff.1 h.args
  obtain rfl := List.forall₂_nil_right_iff.1 hrest
  exact ⟨arg, f, hargs, hf, ht⟩

theorem Derived.lt {types : List SqlType} (h : Derived input c types) :
    ∀ arg ∈ c.args, arg < input.length := by
  obtain ⟨hargs, -⟩ := h
  generalize c.args = args at hargs
  induction hargs with
  | nil => simp
  | cons harg _ ih =>
    obtain ⟨f, hf, -⟩ := harg
    exact List.forall_mem_cons.2 ⟨(List.getElem?_eq_some_iff.1 hf).1, ih⟩

theorem single_eq_ok {f : AggregateFunction} {types : List SqlType} {t : SqlType}
    (h : f.single types = .ok t) : types = [t] := by
  unfold AggregateFunction.single at h
  split at h <;> simp_all

theorem ofDataType?_dataType (n : NumericType) : NumericType.ofDataType? n.dataType = some n := by
  cases n <;> rfl

theorem dataType_of_ofDataType? {t : DataType} {n : NumericType}
    (h : NumericType.ofDataType? t = some n) : n.dataType = t := by
  cases t <;> cases h <;> rfl

theorem numeric_dataType {f : AggregateFunction} {t : SqlType} {u : Unit}
    (h : f.numeric t = .ok u) : ∃ n : NumericType, t.dataType = n.dataType := by
  rcases Program.numeric_eq_ok h with h | h | h | h
  exacts [⟨.int32, h⟩, ⟨.int64, h⟩, ⟨.float32, h⟩, ⟨.float64, h⟩]

theorem sum_typed {arg : Nat} {f : Field} {n : NumericType} (harg : input[arg]? = some f)
    (hn : f.type.dataType = n.dataType) (zero : Bool) :
    ∃ acc, (Recipe.sum arg f.type.dataType zero).make = .ok acc ∧
      acc.Typed input f.type.dataType := by
  rw [hn]
  refine ⟨.sum arg n n.zero false zero, by simp only [Recipe.make, ofDataType?_dataType], ?_⟩
  exact .sum harg rfl (by cases n <;> rfl) hn

theorem pick_typed {arg : Nat} {f : Field} (harg : input[arg]? = some f) (extreme : Extreme) :
    ∃ acc, (Recipe.pick extreme arg f.type.dataType).make = .ok acc ∧
      acc.Typed input f.type.dataType := by
  cases hn : NumericType.ofDataType? f.type.dataType with
  | none =>
    exact ⟨.best extreme arg none, by simp only [Recipe.make, hn], .best harg rfl hn (by simp)⟩
  | some n =>
    have htype := dataType_of_ofDataType? hn
    refine ⟨.pick extreme arg n (extreme.seed n) false, by simp only [Recipe.make, hn], ?_⟩
    exact .pick harg htype.symm (by cases extreme <;> cases n <;> rfl) htype.symm

theorem recipe_typed {types : List SqlType} (h : Derived input c types)
    (hcolumns : (c.args ++ c.filter.toList).find? (input.length ≤ ·) = none)
    (registry : UserAggregate.Registry) :
    ∃ r acc, Recipe.ofCall c input registry = .ok r ∧ r.make = .ok acc ∧
      acc.Typed input c.type.dataType := by
  have htype := h.type
  simp only [Recipe.ofCall, hcolumns, pure_eq_ok]
  cases hf : c.function <;>
    simp only [hf, AggregateFunction.resultType, bind_eq_ok, pure_eq_ok, Except.ok.injEq,
      reduceCtorEq] at htype
  case count => exact ⟨.count c.args, .count c.args 0, rfl, rfl, .count h.lt (htype ▸ rfl)⟩
  all_goals
    obtain ⟨t, hsingle, htype⟩ := htype
    obtain rfl := single_eq_ok hsingle
    obtain ⟨arg, f, hargs, harg, rfl⟩ := h.argument
    have honly : c.onlyArgument = .ok arg := by simp only [AggregateCall.onlyArgument, hargs]
    have hof : Recipe.typeOf input arg = f.type.dataType := by simp [Recipe.typeOf, harg]
  case sum | sum0 =>
    obtain ⟨_, hnumeric, htype⟩ := htype
    obtain ⟨n, hn⟩ := numeric_dataType hnumeric
    obtain ⟨acc, hmake, hacc⟩ := sum_typed harg hn _
    exact ⟨_, acc, by simp only [honly, hof, ok_bind]; rfl, hmake, htype ▸ hacc⟩
  case min | max =>
    obtain ⟨acc, hmake, hacc⟩ := pick_typed harg _
    exact ⟨_, acc, by simp only [honly, hof, ok_bind]; rfl, hmake, htype ▸ hacc⟩
  all_goals
    have hresult : c.function.resultType [f.type] = .ok c.type := h.type
    have hfolds : Program.Folds c.function := by simp [Program.Folds, hf]
    obtain ⟨p, state, hp, htyped⟩ := Program.compile_typed hfolds harg hresult
    have hcall : Program.ofCall c input = .ok p := by
      simp only [Program.ofCall, honly, hp, ok_bind]
    exact ⟨.program p, .program p p.start, by simp only [hcall, ok_bind], rfl,
      .program htyped htyped.start⟩

theorem filter_of_checkCall (h : Plan.checkCall input c = .ok ()) {column : Nat}
    (hcolumn : c.filter = some column) :
    ∃ f, input[column]? = some f ∧ f.type.dataType = .boolean := by
  simp only [Plan.checkCall, hcolumn, bind_eq_ok] at h
  obtain ⟨_, -, h⟩ := h
  split at h
  · cases h
  next f hf => exact ⟨f, hf, by simpa [require_eq_ok] using h⟩

theorem find?_columns {types : List SqlType} (h : Derived input c types)
    (hfilter : ∀ column ∈ c.filter, ∃ f, input[column]? = some f ∧ f.type.dataType = .boolean) :
    (c.args ++ c.filter.toList).find? (input.length ≤ ·) = none := by
  simp only [List.find?_eq_none, List.mem_append, Option.mem_toList, decide_eq_true_eq, Nat.not_le]
  rintro column (harg | hcolumn)
  · exact h.lt column harg
  · obtain ⟨f, hf, -⟩ := hfilter column hcolumn
    exact (List.getElem?_eq_some_iff.1 hf).1

theorem start_typed (h : c.Built input) (hcheck : Plan.checkCall input c = .ok ())
    (registry : UserAggregate.Registry) :
    ∃ plan acc, CallPlan.ofCall c input registry = .ok plan ∧ plan.start = .ok acc ∧
      acc.Typed input c.type.dataType := by
  obtain ⟨types, hderived⟩ := derived_of_built h
  have hcolumns := find?_columns hderived fun column => filter_of_checkCall hcheck
  obtain ⟨r, acc, hr, hmake, typed⟩ := recipe_typed hderived hcolumns registry
  have hplan : CallPlan.ofCall c input registry = .ok ⟨r, c.filter⟩ := by
    simp only [CallPlan.ofCall, hr, ok_bind, pure_eq_ok]
  cases hfilter : c.filter with
  | none => exact ⟨_, acc, hplan, by simp [CallPlan.start, hmake, hfilter], typed⟩
  | some column =>
    obtain ⟨f, hf, hboolean⟩ := filter_of_checkCall hcheck hfilter
    exact ⟨_, .filtered column acc, hplan, by simp [CallPlan.start, hmake, hfilter],
      .filtered hf hboolean typed⟩

end CallPlan
end Relational
