import Mathlib.Algebra.BigOperators.Group.List.Basic
import Mathlib.Algebra.Ring.Int.Defs
import Relational.Proofs.Aggregation.Contribution

/-!
# Counts and sums

A count is the number of the rows that contribute. A sum of integers is exact as long as every sum
on the way is in the range of its type, and an error of the accumulator from the first that is not.
-/
namespace Relational

def DataType.Fits : DataType → Int → Prop
  | .int32, n => Integer.least32 ≤ n ∧ n ≤ Integer.greatest32
  | .int64, n => Integer.least64 ≤ n ∧ n ≤ Integer.greatest64
  | _, _ => False

namespace Value

def amount (v : Value) : Int := v.integer?.getD 0

def total (vs : List Value) : Int := (vs.map amount).sum

@[simp] theorem total_append (vs : List Value) (v : Value) :
    total (vs ++ [v]) = total vs + v.amount := by simp [total]

variable {v w : Value} {n : NumericType}

theorem add?_of_fits (hn : n = .int32 ∨ n = .int64) (hv : v.dataType = n.dataType)
    (hw : w.dataType = n.dataType) (hfits : n.dataType.Fits (v.amount + w.amount)) :
    ∃ sum, v.add? w = some sum ∧ sum.dataType = n.dataType ∧
      sum.amount = v.amount + w.amount := by
  rcases hn with rfl | rfl <;> cases v <;> cases hv <;> cases w <;> cases hw
  case inl a b =>
    refine ⟨.int32 (.ofInt (a.toInt + b.toInt)), ?_, rfl, ?_⟩
    · exact Option.map_eq_some_iff.2 ⟨_, if_pos hfits, rfl⟩
    · exact Int32.toInt_ofInt_of_le hfits.1 (Int.lt_of_le_sub_one hfits.2)
  case inr a b =>
    refine ⟨.int64 (.ofInt (a.toInt + b.toInt)), ?_, rfl, ?_⟩
    · exact Option.map_eq_some_iff.2 ⟨_, if_pos hfits, rfl⟩
    · exact Int64.toInt_ofInt_of_le hfits.1 (Int.lt_of_le_sub_one hfits.2)

theorem add?_of_not_fits (hn : n = .int32 ∨ n = .int64) (hv : v.dataType = n.dataType)
    (hw : w.dataType = n.dataType) (hfits : ¬n.dataType.Fits (v.amount + w.amount)) :
    v.add? w = none := by
  rcases hn with rfl | rfl <;> cases v <;> cases hv <;> cases w <;> cases hw
  case inl a b => exact Option.map_eq_none_iff.2 (if_neg hfits)
  case inr a b => exact Option.map_eq_none_iff.2 (if_neg hfits)

def Within (t : DataType) (vs : List Value) : Prop :=
  ∀ before, before <+: vs → t.Fits (total before)

theorem within_nil {t : DataType} (h : t.Fits (total [])) : Within t [] := by
  intro before hbefore
  rwa [List.prefix_nil.1 hbefore]

theorem Within.append {t : DataType} {vs : List Value} (h : Within t vs)
    (hfits : t.Fits (total (vs ++ [v]))) : Within t (vs ++ [v]) := by
  intro before hbefore
  obtain rfl | hbefore := List.prefix_concat_iff.1 hbefore
  · exact hfits
  · exact h before hbefore

end Value

/-- The exact sum as long as every sum on the way is in range. Of nothing the sum is null unless it
is meant to be zero. -/
structure SumsTo (t : DataType) (zeroWhenEmpty : Bool) (vs : List Value)
    (outcome : Except Error Value) : Prop where
  empty : vs = [] → zeroWhenEmpty = false → outcome = .ok .null
  exact : vs ≠ [] ∨ zeroWhenEmpty = true → Value.Within t vs →
    ∃ sum, outcome = .ok sum ∧ sum.dataType = t ∧ sum.integer? = some (Value.total vs)
  overflow : ¬Value.Within t vs → ∃ fault, outcome = .error (.accumulator fault)

namespace Accumulator
open Value
variable {input : Schema} {args : List Nat} {arg : Nat} {f : Field} {n : NumericType}
  {zero : Bool} {row : Row}

theorem allPresent_eq_ok (hrow : row.Conforms input) (hargs : ∀ arg ∈ args, arg < input.length) :
    allPresent row args = .ok (args.all fun arg => row[arg]? != some .null) := by
  induction args with
  | nil => rfl
  | cons arg rest ih =>
    obtain ⟨harg, hrest⟩ := List.forall_mem_cons.1 hargs
    obtain ⟨v, hv, -⟩ := hrow.getElem (List.getElem?_eq_getElem harg)
    rw [allPresent, argument, hv, ok_bind, ih hrest, List.all_cons, hv]
    cases v <;> simp [isNull]

theorem steps_count (hargs : ∀ arg ∈ args, arg < input.length) :
    Steps input (fun row => args.all fun arg => row[arg]? != some .null)
      (fun taken acc => acc = .count args taken.length) (fun _ _ => False) := by
  constructor
  case pass =>
    rintro taken _ row rfl hrow hpass
    simp only [send, allPresent_eq_ok hrow hargs, hpass]
    rfl
  case take =>
    rintro taken _ row rfl hrow htake
    simp only [send, allPresent_eq_ok hrow hargs, htake]
    simp [Leaves]

def Sums (arg : Nat) (n : NumericType) (zero : Bool) (vs : List Value) (acc : Accumulator) : Prop :=
  ∃ sum, acc = .sum arg n sum (!vs.isEmpty) zero ∧ sum.dataType = n.dataType ∧
    sum.amount = total vs ∧ Within n.dataType vs

def Overflows (n : NumericType) (vs : List Value) (e : Error) : Prop :=
  ¬n.dataType.Fits (total vs) ∧ ∃ fault, e = .accumulator fault

theorem fits_nil (hn : n = .int32 ∨ n = .int64) : n.dataType.Fits (total []) := by
  rcases hn with rfl | rfl <;> exact ⟨by decide, by decide⟩

theorem sums_nil (hn : n = .int32 ∨ n = .int64) :
    Sums arg n zero [] (.sum arg n n.zero false zero) := by
  refine ⟨n.zero, rfl, by cases n <;> rfl, ?_, within_nil (fits_nil hn)⟩
  rcases hn with rfl | rfl <;> rfl

theorem steps_sum (hn : n = .int32 ∨ n = .int64) (harg : input[arg]? = some f)
    (hf : f.type.dataType = n.dataType) :
    StepsOn input arg n.dataType (Sums arg n zero) (Overflows n) := by
  refine ⟨⟨f, harg, hf⟩, ?_, ?_⟩
  · rintro vs _ row ⟨sum, rfl, -⟩ hrow hv
    simp [send, argument, hv, typed, isNull]
  · rintro vs _ row v ⟨sum, rfl, hsum, htotal, hwithin⟩ hrow hv hnull hconforms
    obtain ⟨htyped, hv'⟩ := typed_of_ne_null "SUM" hconforms hnull
    have htotal' : total (vs ++ [v]) = sum.amount + v.amount := by rw [total_append, htotal]
    simp only [send, argument, hv, htyped, ok_bind]
    by_cases hfits : n.dataType.Fits (sum.amount + v.amount)
    · obtain ⟨next, hnext, htype, hamount⟩ := add?_of_fits hn hsum hv' hfits
      rw [hnext]
      refine ⟨next, by simp, htype, hamount.trans htotal'.symm, hwithin.append ?_⟩
      rwa [htotal']
    · rw [add?_of_not_fits hn hsum hv' hfits]
      exact ⟨by rwa [htotal'], _, rfl⟩

theorem sumsTo_of_run {vs : List Value} {outcome : Except Error Value}
    (hn : n = .int32 ∨ n = .int64)
    (h : (∃ acc, outcome = acc.finish ∧ Sums arg n zero vs acc) ∨
      ∃ before e, before <+: vs ∧ outcome = .error e ∧ Overflows n before e) :
    SumsTo n.dataType zero vs outcome := by
  obtain ⟨_, rfl, sum, rfl, htype, htotal, hwithin⟩ | ⟨before, e, hbefore, rfl, hfits, hfault⟩ := h
  · refine ⟨?_, fun hsome _ => ⟨sum, ?_, htype, ?_⟩, fun hnot => absurd hwithin hnot⟩
    · rintro rfl rfl
      rfl
    · have hkept : (!vs.isEmpty || zero) = true := by
        simpa [List.isEmpty_eq_false_iff] using hsome
      simp only [finish, hkept, if_true]
    · rw [← htotal]
      rcases hn with rfl | rfl <;> cases sum <;> cases htype <;> rfl
  · refine ⟨?_, fun _ hwithin => absurd (hwithin before hbefore) hfits, fun _ => ?_⟩
    · rintro rfl -
      obtain rfl := List.prefix_nil.1 hbefore
      exact absurd (fits_nil hn) hfits
    · obtain ⟨fault, rfl⟩ := hfault
      exact ⟨fault, rfl⟩

end Accumulator
end Relational
