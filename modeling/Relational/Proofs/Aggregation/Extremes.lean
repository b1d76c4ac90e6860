import Mathlib.Data.String.Basic
import Mathlib.Order.Compare
import Relational.Proofs.Aggregation.Contribution

/-!
# Extreme values

Of the values of a type with an order, the fold that starts from the other end of the type and the
one that starts from nothing both keep a value that no other comes before, or after.
-/
namespace Relational

def DataType.Ordered (t : DataType) : Prop := t = .boolean ∨ t = .int32 ∨ t = .int64 ∨ t = .utf8

/-- The order of the values of one type: false before true, text by its characters. -/
def Value.AtMost : Value → Value → Prop
  | .boolean a, .boolean b => a ≤ b
  | .int32 a, .int32 b => a.toInt ≤ b.toInt
  | .int64 a, .int64 b => a.toInt ≤ b.toInt
  | .utf8 a, .utf8 b => a ≤ b
  | _, _ => False

def Extreme.Prefers (e : Extreme) (v w : Value) : Prop :=
  match e with
  | .min => v.AtMost w
  | .max => w.AtMost v

namespace Extreme
open Value
variable {e : Extreme} {t : DataType} {u v w : Value}

theorem le_of_compare {α : Type} [LinearOrder α] (a b : α) :
    (compare a b = .lt → a ≤ b) ∧ (compare a b ≠ .lt → b ≤ a) ∧
      (compare a b = .gt → b ≤ a) ∧ (compare a b ≠ .gt → a ≤ b) := by
  rw [Ne, Ne, compare_lt_iff_lt, compare_gt_iff_gt, not_lt, not_lt]
  exact ⟨le_of_lt, id, le_of_lt, id⟩

theorem atMost_of_compare? (ht : t.Ordered) (hv : v.dataType = t) (hw : w.dataType = t) :
    ∃ o, v.compare? w = some o ∧ (o = .lt → v.AtMost w) ∧ (o ≠ .lt → w.AtMost v) ∧
      (o = .gt → w.AtMost v) ∧ (o ≠ .gt → v.AtMost w) := by
  rcases ht with rfl | rfl | rfl | rfl <;> cases v <;> cases hv <;> cases w <;> cases hw <;>
    exact ⟨_, rfl, le_of_compare _ _⟩

theorem prefers_of_compare? (e : Extreme) (ht : t.Ordered) (hv : v.dataType = t)
    (hw : w.dataType = t) : ∃ o, v.compare? w = some o ∧ (o = e.better → e.Prefers v w) ∧
      (o ≠ e.better → e.Prefers w v) := by
  obtain ⟨o, ho, hlt, hnlt, hgt, hngt⟩ := atMost_of_compare? ht hv hw
  cases e with
  | min => exact ⟨o, ho, hlt, hnlt⟩
  | max => exact ⟨o, ho, hgt, hngt⟩

theorem atMost_trans (huv : u.AtMost v) (hvw : v.AtMost w) : u.AtMost w := by
  cases u <;> cases v <;>
    first
    | exact False.elim huv
    | cases w <;> first | exact False.elim hvw | exact le_trans huv hvw

theorem eq_of_atMost (hvw : v.AtMost w) (hwv : w.AtMost v) : v = w := by
  cases v <;> cases w <;> first | exact hvw.elim | skip
  case boolean.boolean a b => exact congrArg boolean (le_antisymm hvw hwv)
  case int32.int32 a b => exact congrArg int32 (Int32.toInt_inj.1 (le_antisymm hvw hwv))
  case int64.int64 a b => exact congrArg int64 (Int64.toInt_inj.1 (le_antisymm hvw hwv))
  case utf8.utf8 a b => exact congrArg utf8 (le_antisymm hvw hwv)

theorem eq_of_prefers (hvw : e.Prefers v w) (hwv : e.Prefers w v) : v = w := by
  cases e with
  | min => exact eq_of_atMost hvw hwv
  | max => exact eq_of_atMost hwv hvw

theorem prefers_trans (huv : e.Prefers u v) (hvw : e.Prefers v w) : e.Prefers u w := by
  cases e with
  | min => exact atMost_trans huv hvw
  | max => exact atMost_trans hvw huv

theorem prefers_self (e : Extreme) (ht : t.Ordered) (hv : v.dataType = t) : e.Prefers v v := by
  obtain ⟨o, -, hbetter, hother⟩ := prefers_of_compare? e ht hv hv
  by_cases h : o = e.better
  · exact hbetter h
  · exact hother h

theorem eq_seed {n : NumericType} (hn : n = .int32 ∨ n = .int64) (hv : v.dataType = n.dataType)
    (h : e.Prefers (e.seed n) v) : v = e.seed n := by
  rcases hn with rfl | rfl <;> cases v <;> cases hv
  case inl a =>
    have hlt : a.toInt ≤ Int32.maxValue.toInt := Int.le_of_lt_add_one a.toInt_lt
    cases e with
    | min => exact congrArg Value.int32 (Int32.toInt_inj.1 (Int.le_antisymm hlt h))
    | max => exact congrArg Value.int32 (Int32.toInt_inj.1 (Int.le_antisymm h a.le_toInt))
  case inr a =>
    have hlt : a.toInt ≤ Int64.maxValue.toInt := Int.le_of_lt_add_one a.toInt_lt
    cases e with
    | min => exact congrArg Value.int64 (Int64.toInt_inj.1 (Int.le_antisymm hlt h))
    | max => exact congrArg Value.int64 (Int64.toInt_inj.1 (Int.le_antisymm h a.le_toInt))

structure Picks (e : Extreme) (vs : List Value) (v : Value) : Prop where
  mem : v ∈ vs
  prefers : ∀ w ∈ vs, e.Prefers v w

theorem picks_single (e : Extreme) (ht : t.Ordered) (hv : v.dataType = t) : e.Picks [v] v := by
  refine ⟨List.mem_singleton_self v, fun w hw => ?_⟩
  obtain rfl := List.mem_singleton.1 hw
  exact prefers_self e ht hv

theorem Picks.append {vs : List Value} (h : e.Picks vs w) (ht : t.Ordered)
    (hvs : ∀ w ∈ vs, w.dataType = t) (hv : v.dataType = t) :
    ∃ o, v.compare? w = some o ∧ e.Picks (vs ++ [v]) (if o = e.better then v else w) := by
  obtain ⟨o, ho, hbetter, hother⟩ := prefers_of_compare? e ht hv (hvs w h.mem)
  refine ⟨o, ho, ?_⟩
  split
  next heq =>
    refine ⟨by simp, fun u hu => ?_⟩
    rcases List.mem_append.1 hu with hu | hu
    · exact prefers_trans (hbetter heq) (h.prefers u hu)
    · obtain rfl := List.mem_singleton.1 hu
      exact prefers_self e ht hv
  next hne =>
    refine ⟨List.mem_append_left _ h.mem, fun u hu => ?_⟩
    rcases List.mem_append.1 hu with hu | hu
    · exact h.prefers u hu
    · obtain rfl := List.mem_singleton.1 hu
      exact hother hne

end Extreme

namespace Accumulator
open Value Extreme
variable {input : Schema} {arg : Nat} {f : Field} {n : NumericType} {e : Extreme} {t : DataType}

def Finds (e : Extreme) (t : DataType) (vs : List Value) : Option Value → Prop
  | none => vs = []
  | some v => (∀ w ∈ vs, w.dataType = t) ∧ e.Picks vs v

theorem dataType_of_ordered (ht : t.Ordered) {v : Value} (hv : v.Conforms t) (hnull : v ≠ .null) :
    v.dataType = t := by
  rcases hv.cases hnull with h | ⟨-, rfl⟩
  · exact h.symm
  · rcases ht with h | h | h | h <;> cases h

theorem Finds.append {vs : List Value} {w : Value} (h : Finds e t vs (some w)) (ht : t.Ordered)
    {v : Value} (hv : v.dataType = t) : ∃ o, v.compare? w = some o ∧
      Finds e t (vs ++ [v]) (some (if o = e.better then v else w)) := by
  obtain ⟨hvs, hpicks⟩ := h
  obtain ⟨o, ho, hnext⟩ := hpicks.append ht hvs hv
  refine ⟨o, ho, fun u hu => ?_, hnext⟩
  rcases List.mem_append.1 hu with hu | hu
  · exact hvs u hu
  · obtain rfl := List.mem_singleton.1 hu
    exact hv

theorem finds_single {v : Value} (ht : t.Ordered) (hv : v.dataType = t) : Finds e t [v] (some v) :=
  ⟨by simpa using hv, picks_single e ht hv⟩

def PicksSeeded (e : Extreme) (arg : Nat) (n : NumericType) (vs : List Value)
    (acc : Accumulator) : Prop :=
  ∃ found : Option Value, acc = .pick e arg n (found.getD (e.seed n)) found.isSome ∧
    Finds e n.dataType vs found

def PicksBest (e : Extreme) (arg : Nat) (t : DataType) (vs : List Value) (acc : Accumulator) :
    Prop :=
  ∃ found, acc = .best e arg found ∧ Finds e t vs found

theorem steps_pick (hn : n = .int32 ∨ n = .int64) (harg : input[arg]? = some f)
    (hf : f.type.dataType = n.dataType) :
    StepsOn input arg n.dataType (PicksSeeded e arg n) fun _ _ => False := by
  have ht : n.dataType.Ordered := by
    rcases hn with rfl | rfl <;> simp [DataType.Ordered, NumericType.dataType]
  refine ⟨⟨f, harg, hf⟩, ?_, ?_⟩
  · rintro vs _ row ⟨found, rfl, -⟩ hrow hv
    simp [send, argument, hv, typed, isNull]
  · rintro vs _ row v ⟨found, rfl, hfound⟩ hrow hv hnull hconforms
    obtain ⟨htyped, hv'⟩ := typed_of_ne_null e.name hconforms hnull
    simp only [send, argument, hv, htyped, ok_bind, pure_eq_ok]
    cases found with
    | none =>
      obtain rfl : vs = [] := hfound
      have hseed : (e.seed n).dataType = n.dataType := by cases e <;> cases n <;> rfl
      obtain ⟨o, ho, -, hother⟩ := prefers_of_compare? e ht hv' hseed
      have hpicked : (if v.compare? (e.seed n) = some e.better then v else e.seed n) = v := by
        simp only [ho, Option.some.injEq]
        split
        · rfl
        next hne => exact (eq_seed hn hv' (hother hne)).symm
      refine ⟨some v, ?_, finds_single ht hv'⟩
      simp only [Option.getD_none, hpicked, Option.getD_some, Option.isSome_some]
    | some w =>
      obtain ⟨o, ho, hnext⟩ := hfound.append ht hv'
      refine ⟨_, ?_, hnext⟩
      simp only [Option.getD_some, ho, Option.some.injEq, Option.isSome_some]

theorem steps_best (ht : t.Ordered) (harg : input[arg]? = some f) (hf : f.type.dataType = t) :
    StepsOn input arg t (PicksBest e arg t) fun _ _ => False := by
  refine ⟨⟨f, harg, hf⟩, ?_, ?_⟩
  · rintro vs _ row ⟨found, rfl, -⟩ hrow hv
    simp [send, argument, hv, isNull]
  · rintro vs _ row v ⟨found, rfl, hfound⟩ hrow hv hnull hconforms
    have hv' : v.dataType = t := dataType_of_ordered ht hconforms hnull
    have hsome : v.isNull = false := by simpa [← Bool.not_eq_true] using hnull
    cases found with
    | none =>
      obtain rfl : vs = [] := hfound
      simp only [send, argument, hv, hsome, ok_bind, pure_eq_ok, Bool.false_eq_true, if_false]
      exact ⟨some v, rfl, finds_single ht hv'⟩
    | some w =>
      obtain ⟨o, ho, hnext⟩ := hfound.append ht hv'
      simp only [send, argument, hv, hsome, ho, ok_bind, pure_eq_ok, Bool.false_eq_true, if_false]
      exact ⟨_, rfl, hnext⟩

/-- A value that is preferred to all, null if there is none. -/
structure PicksFrom (e : Extreme) (vs : List Value) (outcome : Except Error Value) : Prop where
  empty : vs = [] → outcome = .ok .null
  some : vs ≠ [] → ∃ v ∈ vs, outcome = .ok v ∧ ∀ w ∈ vs, e.Prefers v w

theorem picksFrom_of_finds {vs : List Value} {found : Option Value} (h : Finds e t vs found) :
    PicksFrom e vs (.ok (found.getD .null)) := by
  cases found with
  | none =>
    obtain rfl : vs = [] := h
    exact ⟨fun _ => rfl, fun hne => absurd rfl hne⟩
  | some v =>
    refine ⟨?_, fun _ => ⟨v, h.2.mem, rfl, h.2.prefers⟩⟩
    rintro rfl
    cases h.2.mem

end Accumulator
end Relational
