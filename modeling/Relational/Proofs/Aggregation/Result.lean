import Relational.Proofs.Aggregation.Averaging
import Relational.Proofs.Aggregation.Extremes
import Relational.Proofs.Aggregation.Summation

/-!
# Results of aggregate calls

Whatever the strategy of its accumulator, a call comes to what its function is of the rows that
contribute to it.
-/
namespace Relational

namespace AggregateCall

def argumentType (c : AggregateCall) (input : Schema) : DataType :=
  (c.args.head?.bind (input[·]?)).elim .null (·.type.dataType)

end AggregateCall

namespace AggregateFunction
open Accumulator

/-- The outcome is what the function is of these values of a type, contributed by as many rows. -/
def Computes (f : AggregateFunction) (t : DataType) (number : Nat) (vs : List Value)
    (outcome : Except Error Value) : Prop :=
  match f with
  | .count => ∃ n : Int64, outcome = .ok (.int64 n) ∧ n.toInt = number
  | .sum => t = .int32 ∨ t = .int64 → SumsTo t false vs outcome
  | .sum0 => t = .int32 ∨ t = .int64 → SumsTo t true vs outcome
  | .min => t.Ordered → PicksFrom .min vs outcome
  | .max => t.Ordered → PicksFrom .max vs outcome
  | .boolAnd =>
    outcome = .ok (if vs = [] then .null else .boolean (vs.all (· == .boolean true)))
  | .boolOr =>
    outcome = .ok (if vs = [] then .null else .boolean (vs.any (· == .boolean true)))
  | .anyValue => t.Ordered → outcome = .ok (vs.headD .null)
  | .avg => (vs = [] → outcome = .ok .null) ∧ (vs ≠ [] → ∃ x, outcome = .ok (.float64 x))
  -- A type is derived for the other functions only.
  | .user _ => False

end AggregateFunction

namespace Grouping
open Accumulator Program AggregateCall Relational.Expr
variable {c : AggregateCall} {input : Schema} {plan : CallPlan} {rows : List Row} {arg : Nat}
  {f : Field}

section Call
variable (hplan : plan.filter = c.filter)
  (hfilter : ∀ column ∈ c.filter, ∃ f, input[column]? = some f ∧ f.type.dataType = .boolean)
  (hrows : ∀ row ∈ rows, row.Conforms input)
include hplan hfilter hrows

theorem callResult_number (hrecipe : plan.recipe = .count c.args)
    (hargs : ∀ arg ∈ c.args, arg < input.length) :
    callResult rows plan = .ok (.int64 (.ofNat (c.contributing rows).length)) := by
  have hmake : plan.recipe.make = .ok (.count c.args 0) := by rw [hrecipe, Recipe.make]
  obtain ⟨_, hresult, rfl⟩ | ⟨_, _, -, -, hfails⟩ :=
    callResult_of_steps hmake hplan hfilter (steps_count hargs) rfl hrows
  · exact hresult
  · exact hfails.elim

theorem callResult_count (hrecipe : plan.recipe = .count c.args)
    (hargs : ∀ arg ∈ c.args, arg < input.length) (hfew : rows.length < 2 ^ 63) :
    ∃ n : Int64, callResult rows plan = .ok (.int64 n) ∧
      n.toInt = (c.contributing rows).length := by
  have hle : (c.contributing rows).length ≤ rows.length := List.length_filter_le _ _
  exact ⟨_, callResult_number hplan hfilter hrows hrecipe hargs,
    Int64.toInt_ofNat_of_lt (by omega)⟩

variable (hargs : c.args = [arg]) (harg : input[arg]? = some f)
include hargs harg

theorem callResult_sum {zero : Bool} (ht : f.type.dataType = .int32 ∨ f.type.dataType = .int64)
    (hrecipe : plan.recipe = .sum arg f.type.dataType zero) :
    SumsTo f.type.dataType zero (c.contributions rows) (callResult rows plan) := by
  obtain ⟨n, hn, hf⟩ : ∃ n : NumericType, (n = .int32 ∨ n = .int64) ∧
      f.type.dataType = n.dataType :=
    ht.elim (⟨.int32, .inl rfl, ·⟩) (⟨.int64, .inr rfl, ·⟩)
  have hmake : plan.recipe.make = .ok (.sum arg n n.zero false zero) := by
    rw [hrecipe, hf, Recipe.make, CallPlan.ofDataType?_dataType]
  rw [hf]
  exact sumsTo_of_run hn (callResult_of_argument hargs hmake hplan hfilter (steps_sum hn harg hf)
    (sums_nil hn) hrows)

theorem callResult_pick {e : Extreme} (ht : f.type.dataType.Ordered)
    (hrecipe : plan.recipe = .pick e arg f.type.dataType) :
    PicksFrom e (c.contributions rows) (callResult rows plan) := by
  obtain ⟨found, hresult, hfound⟩ : ∃ found, callResult rows plan = .ok (found.getD .null) ∧
      Finds e f.type.dataType (c.contributions rows) found := by
    cases hnumeric : NumericType.ofDataType? f.type.dataType with
    | some n =>
      have hf : f.type.dataType = n.dataType := (CallPlan.dataType_of_ofDataType? hnumeric).symm
      have hn : n = .int32 ∨ n = .int64 := by
        rw [hf] at ht
        cases n <;> simp [DataType.Ordered, NumericType.dataType] at ht ⊢
      have hmake : plan.recipe.make = .ok (.pick e arg n (e.seed n) false) := by
        rw [hrecipe, Recipe.make, hnumeric]
      obtain ⟨_, hresult, found, rfl, hfound⟩ | ⟨_, _, -, -, hfails⟩ :=
        callResult_of_argument hargs hmake hplan hfilter (steps_pick hn harg hf) ⟨none, rfl, rfl⟩
          hrows
      · refine ⟨found, hresult.trans ?_, hf ▸ hfound⟩
        cases found <;> rfl
      · exact hfails.elim
    | none =>
      have hmake : plan.recipe.make = .ok (.best e arg none) := by
        rw [hrecipe, Recipe.make, hnumeric]
      obtain ⟨_, hresult, found, rfl, hfound⟩ | ⟨_, _, -, -, hfails⟩ :=
        callResult_of_argument hargs hmake hplan hfilter (steps_best ht harg rfl) ⟨none, rfl, rfl⟩
          hrows
      · exact ⟨found, hresult, hfound⟩
      · exact hfails.elim
  rw [hresult]
  exact picksFrom_of_finds hfound

variable {p : Program} (hrecipe : plan.recipe = .program p)
include hrecipe

theorem callResult_combine {combine : Value → Value → Value}
    (hp : Combines input arg f.type.dataType (later combine) p)
    (hcombine : ∀ acc v, acc.Conforms f.type.dataType → v.Conforms f.type.dataType →
      (combine acc v).Conforms f.type.dataType) :
    callResult rows plan = .ok ((c.contributions rows).foldl (later combine) .null) ∧
      ∀ v ∈ c.contributions rows, v ≠ .null ∧ v.Conforms f.type.dataType := by
  have hmake : plan.recipe.make = .ok (.program p [.null]) := by
    rw [hrecipe, Recipe.make, hp.start]
  obtain ⟨_, hresult, rfl, hvs⟩ | ⟨_, _, -, -, hfails⟩ :=
    callResult_of_argument hargs hmake hplan hfilter (steps_combine hp harg rfl hcombine)
      ⟨rfl, by simp⟩ hrows
  · exact ⟨hresult.trans (hp.result _), hvs⟩
  · exact hfails.elim

theorem callResult_average {s : Source} (hs : average input arg = .ok s) (hp : Compiles input s p)
    (hf : f.type.dataType = .int32 ∨ f.type.dataType = .int64 ∨ f.type.dataType = .float32 ∨
      f.type.dataType = .float64) (hfew : (c.contributions rows).length < 2 ^ 63) :
    (c.contributions rows = [] → callResult rows plan = .ok .null) ∧
      (c.contributions rows ≠ [] → ∃ x, callResult rows plan = .ok (.float64 x)) := by
  have hmake : plan.recipe.make = .ok (.program p p.start) := by rw [hrecipe, Recipe.make]
  obtain ⟨acc, hresult, hacc⟩ | ⟨vs, _, ⟨rest, hrest⟩, -, hfull⟩ :=
    callResult_of_argument hargs hmake hplan hfilter (steps_average hs hp harg hf)
      (averaged_start hs hp) hrows
  · rw [hresult]
    exact averaged_finish hs hp hacc
  · rw [← hrest, List.length_append] at hfew
    omega

theorem callResult_junction {op : Op} (hop : op = .and ∨ op = .or) {s : Source}
    (hs : folding input arg .boolean (skipNulls op) = .ok s) (hp : Compiles input s p)
    (hf : f.type.dataType = .boolean) :
    callResult rows plan = .ok (if c.contributions rows = [] then .null else .boolean (if op = .and
      then (c.contributions rows).all (· == .boolean true)
      else (c.contributions rows).any (· == .boolean true))) := by
  have hcombines := combines_junction hop hs hp harg hf
  rw [← hf] at hcombines
  obtain ⟨hresult, hvs⟩ := callResult_combine hplan hfilter hrows hargs harg hrecipe hcombines
    fun acc v _ _ => hf ▸ both_conforms op acc v
  rw [hf] at hvs
  rw [hresult]
  cases hrest : c.contributions rows with
  | nil => rfl
  | cons v rest =>
    rw [hrest] at hvs
    obtain ⟨hv, hothers⟩ := List.forall_mem_cons.1 hvs
    obtain ⟨b, rfl⟩ := exists_boolean hv
    have hfirst : later (both op) .null (.boolean b) = .boolean b := rfl
    rw [List.foldl_cons, hfirst, foldl_both hothers]
    rcases hop with rfl | rfl <;> cases b <;> simp

theorem callResult_anyValue {s : Source}
    (hs : folding input arg f.type.dataType (fun acc v => mkCall .coalesce [acc, v]) = .ok s)
    (hp : Compiles input s p) :
    callResult rows plan = .ok ((c.contributions rows).headD .null) := by
  obtain ⟨hresult, hvs⟩ := callResult_combine hplan hfilter hrows hargs harg hrecipe
    (combines_of_folding hs hp harg rfl (foldsTo_anyValue _)) fun acc _ hacc _ => hacc
  rw [hresult]
  cases hrest : c.contributions rows with
  | nil => rfl
  | cons v rest =>
    rw [hrest] at hvs
    obtain ⟨⟨hv, -⟩, -⟩ := List.forall_mem_cons.1 hvs
    have hfirst : later (fun acc _ => acc) .null v = v := by simp [later, hv]
    rw [List.foldl_cons, hfirst, foldl_first hv]
    rfl

end Call
end Grouping

namespace AggregateCall
open Accumulator CallPlan Grouping Program
variable {c : AggregateCall} {input : Schema} {rows : List Row}

/-- A call of fewer than 2 ^ 63 rows of its schema has accumulators, and they come to what its
function is of the rows that contribute. -/
theorem computes (hbuilt : c.Built input)
    (hfilter : ∀ column ∈ c.filter, ∃ f, input[column]? = some f ∧ f.type.dataType = .boolean)
    (hrows : ∀ row ∈ rows, row.Conforms input) (hfew : rows.length < 2 ^ 63)
    (registry : UserAggregate.Registry) :
    ∃ plan, CallPlan.ofCall c input registry = .ok plan ∧
      c.function.Computes (c.argumentType input) (c.contributing rows).length
        (c.contributions rows) (callResult rows plan) := by
  obtain ⟨types, hderived⟩ := derived_of_built hbuilt
  have hcolumns := find?_columns hderived hfilter
  have hplan (r : Recipe) (hr : Recipe.ofCall c input registry = .ok r) :
      CallPlan.ofCall c input registry = .ok ⟨r, c.filter⟩ := by
    simp only [CallPlan.ofCall, hr, ok_bind, pure_eq_ok]
  have htype := hderived.type
  simp only [Recipe.ofCall, hcolumns, pure_eq_ok] at hplan
  cases hf : c.function <;>
    simp only [hf, AggregateFunction.resultType, bind_eq_ok, pure_eq_ok, Except.ok.injEq,
      reduceCtorEq] at htype
  case count =>
    exact ⟨_, hplan (.count c.args) (by rw [hf]),
      callResult_count rfl hfilter hrows rfl hderived.lt hfew⟩
  all_goals
    obtain ⟨t, hsingle, htype⟩ := htype
    obtain rfl := single_eq_ok hsingle
    obtain ⟨arg, f, hargs, harg, rfl⟩ := hderived.argument
    have honly : c.onlyArgument = .ok arg := by simp only [AggregateCall.onlyArgument, hargs]
    have hof : Recipe.typeOf input arg = f.type.dataType := by simp [Recipe.typeOf, harg]
    have hargument : c.argumentType input = f.type.dataType := by
      simp [argumentType, hargs, harg]
  case sum | sum0 =>
    refine ⟨_, hplan (.sum arg f.type.dataType _)
      (by simp only [hf, honly, hof, ok_bind]; rfl), fun ht => ?_⟩
    rw [hargument] at ht ⊢
    exact callResult_sum rfl hfilter hrows hargs harg ht rfl
  case min | max =>
    refine ⟨_, hplan (.pick _ arg f.type.dataType)
      (by simp only [hf, honly, hof, ok_bind]; rfl), fun ht => ?_⟩
    exact callResult_pick rfl hfilter hrows hargs harg (hargument ▸ ht) rfl
  all_goals
    obtain ⟨p, s, hcall, hs, hcompiles⟩ :=
      exists_compiles (by simp [Folds, hf]) hargs harg hderived.type
    refine ⟨_, hplan (.program p) (by simp only [hf, hcall, ok_bind]), ?_⟩
    simp only [source, harg, hf] at hs
  case avg =>
    obtain ⟨_, hnumeric, -⟩ := htype
    have ht := numeric_eq_ok hnumeric
    have haverage : average input arg = .ok s := by
      rcases ht with h | h | h | h <;> simpa only [h] using hs
    have hvalues := (contributions_length_le hargs rows).trans_lt hfew
    exact callResult_average rfl hfilter hrows hargs harg rfl haverage hcompiles ht hvalues
  case boolAnd | boolOr =>
    split at htype
    next ht =>
      rw [if_neg (by simpa using ht)] at hs
      exact callResult_junction rfl hfilter hrows hargs harg rfl (by simp) hs hcompiles ht
    · cases htype
  case anyValue =>
    exact fun _ => callResult_anyValue rfl hfilter hrows hargs harg rfl hs hcompiles

theorem computes_kept_amounts :
    let input : Schema := [⟨"amount", ⟨.int32, true⟩, {}⟩, ⟨"kept", .boolean true, {}⟩]
    let c : AggregateCall :=
      { function := .sum, args := [0], filter := some 1, name := "total", type := ⟨.int32, true⟩ }
    let rows : List Row := [[.int32 5, .boolean true], [.null, .boolean true],
      [.int32 7, .boolean false], [.int32 3, .boolean true], [.int32 4, .null]]
    c.Built input ∧
      (∀ column ∈ c.filter, ∃ f, input[column]? = some f ∧ f.type.dataType = .boolean) ∧
      (∀ row ∈ rows, row.Conforms input) ∧ rows.length < 2 ^ 63 ∧
      ∃ plan, CallPlan.ofCall c input {} = .ok plan ∧
        SumsTo .int32 false [.int32 5, .int32 3] (callResult rows plan) ∧
        ∃ sum, callResult rows plan = .ok sum ∧ sum.integer? = some 8 := by
  intro input c rows
  have hderived : derive .sum [0] "total" input = .ok { c with filter := none } := rfl
  have hbuilt : c.Built input := (Built.derived hderived).filtered 1
  have hfilter : ∀ column ∈ c.filter,
      ∃ f, input[column]? = some f ∧ f.type.dataType = .boolean := by
    simp [c, input, SqlType.boolean]
  have hrows : ∀ row ∈ rows, row.Conforms input := by
    simp [rows, input, Row.Conforms, Value.Conforms, Value.dataType, SqlType.boolean]
  have hfew : rows.length < 2 ^ 63 := by decide
  obtain ⟨plan, hplan, hresult⟩ := computes hbuilt hfilter hrows hfew {}
  have hsums : SumsTo .int32 false [.int32 5, .int32 3] (callResult rows plan) := hresult (.inl rfl)
  have hnone : Value.Within .int32 [] := Value.within_nil ⟨by decide, by decide⟩
  have hfirst : Value.Within .int32 ([] ++ [.int32 5]) := hnone.append ⟨by decide, by decide⟩
  have hwithin : Value.Within .int32 ([.int32 5] ++ [.int32 3]) :=
    hfirst.append ⟨by decide, by decide⟩
  obtain ⟨sum, hsum, -, hamount⟩ := hsums.exact (.inl (by simp)) hwithin
  exact ⟨hbuilt, hfilter, hrows, hfew, plan, hplan, hsums, sum, hsum, hamount⟩

end AggregateCall
end Relational
