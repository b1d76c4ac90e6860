import Relational.Proofs.Aggregation.Result

/-!
# Results of rearranged rows

Counts, sums of integers, extremes of ordered values, conjunctions and disjunctions come to the same
over the rows in any order in which they come to something.
-/
namespace Relational

namespace AggregateCall

/-- The calls whose results do not depend on the order of the rows. -/
def OrderFree (c : AggregateCall) (input : Schema) : Prop :=
  match c.function with
  | .count | .boolAnd | .boolOr => True
  | .sum | .sum0 => c.argumentType input = .int32 ∨ c.argumentType input = .int64
  | .min | .max => (c.argumentType input).Ordered
  | _ => False

variable {c : AggregateCall} {rows rows' : List Row}

theorem contributing_perm (h : rows.Perm rows') :
    (c.contributing rows).Perm (c.contributing rows') :=
  h.filter _

theorem contributions_perm (h : rows.Perm rows') :
    (c.contributions rows).Perm (c.contributions rows') :=
  (contributing_perm h).flatMap_right _

end AggregateCall

namespace Accumulator
variable {column : Nat} {inner acc : Accumulator} {rows : List Row} {row : Row} {b : Bool}

def kept (column : Nat) (rows : List Row) : List Row :=
  rows.filter fun row => row[column]? == some (.boolean true)

theorem eq_true_of_passes (h : passes column row = .ok b) :
    b = (row[column]? == some (.boolean true)) := by
  unfold passes at h
  split at h
  next b' hrow =>
    cases h
    cases b <;> simp [hrow]
  next hrow =>
    cases h
    simp [hrow]
  · cases h
  · cases h

theorem foldlM_filtered (h : rows.foldlM send (.filtered column inner) = .ok acc) :
    ∃ last, acc = .filtered column last ∧ (kept column rows).foldlM send inner = .ok last := by
  induction rows generalizing inner with
  | nil =>
    cases h
    exact ⟨inner, rfl, rfl⟩
  | cons row rest ih =>
    rw [List.foldlM_cons, bind_eq_ok] at h
    obtain ⟨next, hsend, hrest⟩ := h
    rw [send, bind_eq_ok] at hsend
    obtain ⟨b, hb, hsend⟩ := hsend
    rw [kept, List.filter_cons, ← eq_true_of_passes hb]
    cases b with
    | false =>
      cases hsend
      exact ih hrest
    | true =>
      simp only [if_true, bind_eq_ok, pure_eq_ok, Except.ok.injEq] at hsend
      obtain ⟨inner', hinner, rfl⟩ := hsend
      obtain ⟨last, hacc, hlast⟩ := ih hrest
      exact ⟨last, hacc, by simp only [if_true, List.foldlM_cons, hinner, ok_bind]; exact hlast⟩

end Accumulator

namespace Value
variable {t : DataType} {v w : Value} {n : Int}

theorem eq_of_integer? (ht : t = .int32 ∨ t = .int64) (hv : v.dataType = t) (hw : w.dataType = t)
    (hvn : v.integer? = some n) (hwn : w.integer? = some n) : v = w := by
  rcases ht with rfl | rfl <;> cases v <;> cases hv <;> cases w <;> cases hw
  case inl.int32.refl.int32.refl a b =>
    exact congrArg int32 (Int32.toInt_inj.1 (Option.some.inj (hvn.trans hwn.symm)))
  case inr.int64.refl.int64.refl a b =>
    exact congrArg int64 (Int64.toInt_inj.1 (Option.some.inj (hvn.trans hwn.symm)))

theorem total_perm {vs ws : List Value} (h : vs.Perm ws) : total vs = total ws :=
  (h.map amount).sum_eq

end Value

variable {vs ws : List Value} {v w : Value} {t : DataType} {zero : Bool} {e : Extreme}

theorem SumsTo.unique (ht : t = .int32 ∨ t = .int64) (hv : SumsTo t zero vs (.ok v))
    (hw : SumsTo t zero ws (.ok w)) (hperm : vs.Perm ws) : v = w := by
  have hwithin {us : List Value} {u : Value} (h : SumsTo t zero us (.ok u)) :
      Value.Within t us := by
    by_contra hnot
    obtain ⟨_, hfault⟩ := h.overflow hnot
    cases hfault
  by_cases hsome : vs ≠ [] ∨ zero = true
  · have hsome' : ws ≠ [] ∨ zero = true :=
      hsome.imp_left fun hne hnil => hne (hnil ▸ hperm).eq_nil
    obtain ⟨_, hsum, htype, hamount⟩ := hv.exact hsome (hwithin hv)
    obtain ⟨_, hsum', htype', hamount'⟩ := hw.exact hsome' (hwithin hw)
    cases hsum
    cases hsum'
    rw [Value.total_perm hperm] at hamount
    exact Value.eq_of_integer? ht htype htype' hamount hamount'
  · obtain ⟨hnil, hzero⟩ := not_or.1 hsome
    obtain rfl := not_not.1 hnil
    obtain rfl := hperm.nil_eq
    have hzero : zero = false := by simpa using hzero
    cases hv.empty rfl hzero
    cases hw.empty rfl hzero
    rfl

theorem Accumulator.PicksFrom.unique (hv : PicksFrom e vs (.ok v)) (hw : PicksFrom e ws (.ok w))
    (hperm : vs.Perm ws) : v = w := by
  by_cases hnil : vs = []
  · subst hnil
    obtain rfl := hperm.nil_eq
    cases hv.empty rfl
    cases hw.empty rfl
    rfl
  · obtain ⟨_, hmem, hok, hprefers⟩ := hv.some hnil
    obtain ⟨_, hmem', hok', hprefers'⟩ := hw.some fun h => hnil (h ▸ hperm).eq_nil
    cases hok
    cases hok'
    exact Extreme.eq_of_prefers (hprefers w (hperm.mem_iff.2 hmem'))
      (hprefers' v (hperm.mem_iff.1 hmem))

namespace Grouping
open Accumulator Program AggregateCall
variable {c : AggregateCall} {input : Schema} {registry : UserAggregate.Registry} {r : Recipe}
  {plan : CallPlan} {rows rows' : List Row} {column : Nat}

theorem callResult_kept (h : callResult rows ⟨r, some column⟩ = .ok v) :
    callResult (kept column rows) ⟨r, none⟩ = .ok v := by
  simp only [callResult, fed, CallPlan.start, bind_eq_ok, pure_eq_ok, Except.ok.injEq,
    Option.elim_some] at h
  obtain ⟨acc, ⟨_, ⟨inner, hmake, rfl⟩, hacc⟩, hv⟩ := h
  obtain ⟨last, rfl, hlast⟩ := foldlM_filtered hacc
  have hfed : fed ⟨r, none⟩ (kept column rows) = .ok last := by
    simpa [fed, CallPlan.start, hmake] using hlast
  rw [callResult, hfed, ok_bind]
  exact hv

inductive Made (input : Schema) (c : AggregateCall) : Recipe → Prop
  | count (hargs : ∀ arg ∈ c.args, arg < input.length) : Made input c (.count c.args)
  | sum {arg : Nat} {f : Field} (zero : Bool) (hargs : c.args = [arg]) (harg : input[arg]? = some f)
      (ht : f.type.dataType = .int32 ∨ f.type.dataType = .int64) :
    Made input c (.sum arg f.type.dataType zero)
  | pick {arg : Nat} {f : Field} (e : Extreme) (hargs : c.args = [arg])
      (harg : input[arg]? = some f) (ht : f.type.dataType.Ordered) :
    Made input c (.pick e arg f.type.dataType)
  | junction {arg : Nat} {f : Field} {op : Op} {s : Source} {p : Program} (hargs : c.args = [arg])
      (harg : input[arg]? = some f) (ht : f.type.dataType = .boolean) (hop : op = .and ∨ op = .or)
      (hs : folding input arg .boolean (skipNulls op) = .ok s) (hp : Compiles input s p) :
    Made input c (.program p)

theorem made_of_ofCall (hr : Recipe.ofCall c input registry = .ok r)
    (hfree : c.OrderFree input) : Made input c r := by
  unfold Recipe.ofCall at hr
  cases hcolumns : (c.args ++ c.filter.toList).find? (input.length ≤ ·) with
  | some i =>
    rw [hcolumns] at hr
    cases hr
  | none =>
    have hlt : ∀ arg ∈ c.args, arg < input.length := fun arg harg => by
      simpa using List.find?_eq_none.1 hcolumns arg (List.mem_append_left _ harg)
    have hargument {arg : Nat} (h : c.onlyArgument = .ok arg) : ∃ f, c.args = [arg] ∧
        input[arg]? = some f ∧ Recipe.typeOf input arg = f.type.dataType ∧
          c.argumentType input = f.type.dataType := by
      have hargs := onlyArgument_eq_ok h
      have hf := List.getElem?_eq_getElem (hlt arg (by simp [hargs]))
      exact ⟨_, hargs, hf, by simp [Recipe.typeOf, hf], by simp [argumentType, hargs, hf]⟩
    simp only [hcolumns, pure_eq_ok] at hr
    cases hf : c.function <;> simp only [hf] at hr <;> simp only [OrderFree, hf] at hfree
    case count =>
      cases hr
      exact .count hlt
    case sum | sum0 =>
      simp only [bind_eq_ok, Except.ok.injEq] at hr
      obtain ⟨arg, honly, rfl⟩ := hr
      obtain ⟨f, hargs, harg, htype, hsame⟩ := hargument honly
      rw [htype]
      exact .sum _ hargs harg (hsame ▸ hfree)
    case min | max =>
      simp only [bind_eq_ok, Except.ok.injEq] at hr
      obtain ⟨arg, honly, rfl⟩ := hr
      obtain ⟨f, hargs, harg, htype, hsame⟩ := hargument honly
      rw [htype]
      exact .pick _ hargs harg (hsame ▸ hfree)
    case boolAnd | boolOr =>
      simp only [Program.ofCall, bind_eq_ok, Except.ok.injEq] at hr
      obtain ⟨p, ⟨arg, honly, hcompile⟩, rfl⟩ := hr
      obtain ⟨f, hargs, harg, -⟩ := hargument honly
      obtain ⟨s, hs, hp⟩ := compiles_of_compile hcompile
      simp only [source, hf, harg] at hs
      split at hs
      · cases hs
      next ht => exact .junction hargs harg (not_not.1 ht) (by simp) hs hp

theorem callResult_perm_of_recipe (hr : Recipe.ofCall c input registry = .ok r)
    (hfree : c.OrderFree input) (hrecipe : plan.recipe = r) (hplan : plan.filter = none)
    (hrows : ∀ row ∈ rows, row.Conforms input) (hperm : rows.Perm rows')
    (hv : callResult rows plan = .ok v) (hw : callResult rows' plan = .ok w) : v = w := by
  let call : AggregateCall := { c with filter := none }
  have hfilter : plan.filter = call.filter := hplan
  have hnone : ∀ column ∈ call.filter,
      ∃ f, input[column]? = some f ∧ f.type.dataType = .boolean := by simp [call]
  have hrows' : ∀ row ∈ rows', row.Conforms input := fun row h => hrows row (hperm.mem_iff.2 h)
  have hvalues := contributions_perm (c := call) hperm
  cases made_of_ofCall hr hfree with
  | count hargs =>
    have hcount := callResult_number hfilter hnone hrows hrecipe hargs
    have hcount' := callResult_number hfilter hnone hrows' hrecipe hargs
    rw [(contributing_perm hperm).length_eq] at hcount
    exact Except.ok.inj (hv.symm.trans (hcount.trans (hcount'.symm.trans hw)))
  | sum zero hargs harg ht =>
    have hsums := callResult_sum hfilter hnone hrows hargs harg ht hrecipe
    have hsums' := callResult_sum hfilter hnone hrows' hargs harg ht hrecipe
    rw [hv] at hsums
    rw [hw] at hsums'
    exact hsums.unique ht hsums' hvalues
  | pick e hargs harg ht =>
    have hpicks := callResult_pick hfilter hnone hrows hargs harg ht hrecipe
    have hpicks' := callResult_pick hfilter hnone hrows' hargs harg ht hrecipe
    rw [hv] at hpicks
    rw [hw] at hpicks'
    exact hpicks.unique hpicks' hvalues
  | junction hargs harg ht hop hs hp =>
    have hboth := callResult_junction hfilter hnone hrows hargs harg hrecipe hop hs hp ht
    have hboth' := callResult_junction hfilter hnone hrows' hargs harg hrecipe hop hs hp ht
    have hnil : call.contributions rows = [] ↔ call.contributions rows' = [] :=
      ⟨fun h => (h ▸ hvalues).nil_eq.symm, fun h => (h ▸ hvalues).eq_nil⟩
    simp only [hvalues.all_eq, hvalues.any_eq, hnil] at hboth
    exact Except.ok.inj (hv.symm.trans (hboth.trans (hboth'.symm.trans hw)))

theorem callResult_perm (hplan : CallPlan.ofCall c input registry = .ok plan)
    (hfree : c.OrderFree input) (hrows : ∀ row ∈ rows, row.Conforms input)
    (hperm : rows.Perm rows') (hv : callResult rows plan = .ok v)
    (hw : callResult rows' plan = .ok w) : v = w := by
  simp only [CallPlan.ofCall, bind_eq_ok, pure_eq_ok, Except.ok.injEq] at hplan
  obtain ⟨r, hr, rfl⟩ := hplan
  cases hfilter : c.filter with
  | none =>
    rw [hfilter] at hv hw
    exact callResult_perm_of_recipe hr hfree rfl rfl hrows hperm hv hw
  | some column =>
    rw [hfilter] at hv hw
    have hkept : ∀ row ∈ kept column rows, row.Conforms input :=
      fun row hrow => hrows row (List.mem_of_mem_filter hrow)
    exact callResult_perm_of_recipe hr hfree rfl rfl hkept (hperm.filter _) (callResult_kept hv)
      (callResult_kept hw)

end Grouping
end Relational
