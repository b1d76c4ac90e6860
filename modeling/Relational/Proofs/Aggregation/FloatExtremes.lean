import Relational.Proofs.Binary.Exactness
import Relational.Proofs.Grouping.Reference
import Relational.Proofs.Typing.Accumulation

/-!
# Extremes of floating-point columns

A value that is not a number is passed over, yet it counts as a value. So the extreme of some numbers
is one of them, whatever else is in the column, but where nothing is a number the infinity is left
from which the search starts.
-/
namespace Relational
variable {n : NumericType} {e : Extreme} {v w current : Value} {vs : List Value} {i j k : Int}

/-- A floating-point value that is a number, and where it is on the number line. -/
def Value.Place (v : Value) (i : Int) : Prop :=
  (v.dataType = .float32 ∨ v.dataType = .float64) ∧
    ∃ x, v.number? = some x ∧ x.isNaN = false ∧ x.rank = i

namespace Value

theorem place_of_not_isNaN (hv : v.dataType = .float32 ∨ v.dataType = .float64) (h : ¬v.IsNaN) :
    ∃ i, v.Place i := by
  obtain ⟨x, hx⟩ : ∃ x, v.number? = some x := by
    rcases hv with hv | hv <;> cases v <;> cases hv <;> exact ⟨_, rfl⟩
  refine ⟨x.rank, hv, x, hx, ?_, rfl⟩
  by_contra hnan
  exact h ⟨x, hx, by simpa using hnan⟩

theorem Place.compare? (hv : v.Place i) (hw : w.Place j) : v.compare? w = some (compare i j) := by
  obtain ⟨hv, x, hx, hxnumber, rfl⟩ := hv
  obtain ⟨hw, y, hy, hynumber, rfl⟩ := hw
  have hwords : x.compare? y = some (compare x.rank y.rank) := by
    simp [Binary.Word.compare?, hxnumber, hynumber]
  rcases hv with hv | hv <;> rcases hw with hw | hw <;> cases v <;> cases hv <;> cases w <;>
    cases hw <;> cases hx <;> cases hy <;> exact hwords

theorem compare?_of_isNaN (hv : v.dataType = .float32 ∨ v.dataType = .float64) (h : v.IsNaN)
    (w : Value) (o : Ordering) : v.compare? w ≠ some o := by
  obtain ⟨x, hx, hnan⟩ := h
  have hwords (y : Binary64) : x.compare? y = none := by simp [Binary.Word.compare?, hnan]
  have hnumbers : (do (← v.number?).compare? (← w.number?)) = (none : Option Ordering) := by
    rw [hx]
    cases w.number? with
    | none => rfl
    | some y => exact hwords y
  have hnone : v.compare? w = none := by
    rcases hv with hv | hv <;> cases v <;> cases hv <;> cases w <;> exact hnumbers
  rw [hnone]
  exact Option.some_ne_none o ∘ Eq.symm

end Value

namespace NumericType

def Floating (n : NumericType) : Prop := n = .float32 ∨ n = .float64

theorem Floating.dataType (hn : n.Floating) (hv : v.dataType = n.dataType) :
    v.dataType = .float32 ∨ v.dataType = .float64 := by
  rcases hn with rfl | rfl
  · exact .inl hv
  · exact .inr hv

end NumericType

namespace Extreme

def Ahead : Extreme → Int → Int → Prop
  | min, i, j => i < j
  | max, i, j => j < i

theorem Ahead.trans (hij : e.Ahead i j) (hjk : e.Ahead j k) : e.Ahead i k := by
  cases e
  · exact Int.lt_trans hij hjk
  · exact Int.lt_trans hjk hij

theorem better_iff (hv : v.Place i) (hw : w.Place j) :
    v.compare? w = some e.better ↔ e.Ahead i j := by
  rw [hv.compare? hw, Option.some.injEq]
  cases e
  · exact compare_lt_iff_lt
  · exact compare_gt_iff_gt

def fromNegative : Extreme → Bool
  | min => false
  | max => true

theorem eq_infinity {x : Binary64} (hx : x.isNaN = false)
    (h : ¬e.Ahead x.rank (Binary.Word.infinity e.fromNegative : Binary64).rank) :
    x = .infinity e.fromNegative := by
  refine Binary.Word.eq_infinity_of_rank hx ?_
  cases e <;> simpa [Ahead, fromNegative] using h

theorem eq_seed_of_place (hn : n.Floating) (hv : v.dataType = n.dataType) (hplace : v.Place i) :
    ∃ j, (e.seed n).Place j ∧ (¬e.Ahead i j → v = e.seed n) := by
  obtain ⟨-, x, hx, hnumber, rfl⟩ := hplace
  have hreal : (Binary.Word.infinity e.fromNegative : Binary64).isNaN = false := by
    rw [Binary.Word.isNaN, Binary.Word.datum_infinity]
  refine ⟨(Binary.Word.infinity e.fromNegative : Binary64).rank, ?_, fun hbehind => ?_⟩
  · rcases hn with rfl | rfl
    · refine ⟨.inl (by cases e <;> rfl), _, ?_, hreal, rfl⟩
      have hseed : e.seed .float32 = .float32 (.infinity e.fromNegative) := by cases e <;> rfl
      rw [hseed, Value.number?, Binary.Word.convert, Binary.Word.datum_infinity]
    · refine ⟨.inr (by cases e <;> rfl), _, ?_, hreal, rfl⟩
      cases e <;> rfl
  · have hx' := eq_infinity hnumber hbehind
    subst hx'
    rcases hn with rfl | rfl <;> cases v <;> cases hv
    case inl.float32.refl y =>
      have hy : y = .infinity e.fromNegative :=
        Binary.Word.eq_infinity_of_convert (Option.some.inj hx)
      cases e <;> exact congrArg Value.float32 hy
    case inr.float64.refl y =>
      cases hx
      cases e <;> rfl

/-- What is left of the values: where the search starts while none is a number, then the number that
no other is better than. -/
inductive Keeps (e : Extreme) (n : NumericType) (vs : List Value) : Value → Prop
  | seed (h : ∀ v ∈ vs, v.IsNaN) : Keeps e n vs (e.seed n)
  | number {current : Value} (hmem : current ∈ vs) (hnumber : ¬current.IsNaN)
      (hbest : ∀ v ∈ vs, v.compare? current ≠ some e.better) : Keeps e n vs current

theorem not_better_self (hv : v.Place i) : v.compare? v ≠ some e.better := by
  rw [hv.compare? hv, compare_eq_iff_eq.2 rfl]
  cases e <;> decide

theorem Keeps.pass (h : e.Keeps n vs current) (hn : n.Floating) (hv : v.dataType = n.dataType)
    (hnan : v.IsNaN) : e.Keeps n (vs ++ [v]) current := by
  cases h with
  | seed h => exact .seed (List.forall_mem_append.2 ⟨h, List.forall_mem_singleton.2 hnan⟩)
  | number hmem hnumber hbest =>
    have hworse := Value.compare?_of_isNaN (hn.dataType hv) hnan current e.better
    exact .number (List.mem_append_left _ hmem) hnumber
      (List.forall_mem_append.2 ⟨hbest, List.forall_mem_singleton.2 hworse⟩)

theorem Keeps.take (hplace : v.Place i) (hnumber : ¬v.IsNaN)
    (hbest : ∀ w ∈ vs, w.compare? v ≠ some e.better) : e.Keeps n (vs ++ [v]) v :=
  .number (List.mem_append_right _ (List.mem_singleton_self v)) hnumber
    (List.forall_mem_append.2 ⟨hbest, List.forall_mem_singleton.2 (not_better_self hplace)⟩)

theorem Keeps.append (h : e.Keeps n vs current) (hn : n.Floating)
    (hvs : ∀ w ∈ vs ++ [v], w.dataType = n.dataType) :
    e.Keeps n (vs ++ [v]) (if v.compare? current = some e.better then v else current) := by
  simp only [List.forall_mem_append, List.forall_mem_singleton] at hvs
  obtain ⟨hvs, hv⟩ := hvs
  by_cases hnan : v.IsNaN
  · rw [if_neg (Value.compare?_of_isNaN (hn.dataType hv) hnan _ _)]
    exact h.pass hn hv hnan
  obtain ⟨i, hplace⟩ := Value.place_of_not_isNaN (hn.dataType hv) hnan
  cases h with
  | seed h =>
    obtain ⟨j, hseed, heq⟩ := eq_seed_of_place (e := e) hn hv hplace
    have htaken : (if v.compare? (e.seed n) = some e.better then v else e.seed n) = v := by
      split
      · rfl
      next hbehind => exact (heq (mt (better_iff hplace hseed).2 hbehind)).symm
    rw [htaken]
    refine .take hplace hnan fun w hw => ?_
    exact Value.compare?_of_isNaN (hn.dataType (hvs w hw)) (h w hw) _ _
  | number hmem hnumber hbest =>
    obtain ⟨j, hcurrent⟩ := Value.place_of_not_isNaN (hn.dataType (hvs _ hmem)) hnumber
    by_cases hahead : e.Ahead i j
    · rw [if_pos ((better_iff hplace hcurrent).2 hahead)]
      refine .take hplace hnan fun w hw hbetter => ?_
      by_cases hwnan : w.IsNaN
      · exact Value.compare?_of_isNaN (hn.dataType (hvs w hw)) hwnan _ _ hbetter
      · -- what is better than the value that is taken was better than the one before
        obtain ⟨k, hw'⟩ := Value.place_of_not_isNaN (hn.dataType (hvs w hw)) hwnan
        have hbehind := ((better_iff hw' hplace).1 hbetter).trans hahead
        exact hbest w hw ((better_iff hw' hcurrent).2 hbehind)
    · have hbehind := mt (better_iff hplace hcurrent).1 hahead
      rw [if_neg hbehind]
      exact .number (List.mem_append_left _ hmem) hnumber
        (List.forall_mem_append.2 ⟨hbest, List.forall_mem_singleton.2 hbehind⟩)

end Extreme

namespace Accumulator
variable {arg : Nat} {rows : List Row} {row : Row}

def present (arg : Nat) (rows : List Row) : List Value :=
  rows.filterMap fun row => row[arg]?.filter (· ≠ .null)

theorem present_append (hv : row[arg]? = some v) :
    present arg (rows ++ [row]) = present arg rows ++ if v = .null then [] else [v] := by
  simp only [present, List.filterMap_append, List.filterMap_cons, List.filterMap_nil, hv,
    Option.filter_some]
  cases v <;> rfl

theorem mem_present : v ∈ present arg rows ↔ v ≠ .null ∧ ∃ row ∈ rows, row[arg]? = some v := by
  simp only [present, List.mem_filterMap, Option.filter_eq_some_iff, decide_eq_true_eq]
  constructor
  · rintro ⟨row, hrow, hv, hnull⟩
    exact ⟨hnull, row, hrow, hv⟩
  · rintro ⟨hnull, row, hrow, hv⟩
    exact ⟨row, hrow, hv, hnull⟩

theorem dataType_of_present
    (hrows : ∀ row ∈ rows, ∃ v, row[arg]? = some v ∧ v.Conforms n.dataType) :
    ∀ v ∈ present arg rows, v.dataType = n.dataType := by
  intro v hv
  obtain ⟨hnull, row, hrow, hcolumn⟩ := mem_present.1 hv
  obtain ⟨w, hw, hconforms⟩ := hrows row hrow
  obtain rfl : v = w := Option.some.inj (hcolumn.symm.trans hw)
  exact (typed_of_ne_null "" hconforms hnull).2

theorem foldlM_pick (e : Extreme) (hn : n.Floating)
    (hrows : ∀ row ∈ rows, ∃ v, row[arg]? = some v ∧ v.Conforms n.dataType) :
    ∃ current, rows.foldlM send (.pick e arg n (e.seed n) false) =
        .ok (.pick e arg n current (! (present arg rows).isEmpty)) ∧
      e.Keeps n (present arg rows) current := by
  induction rows using List.reverseRecOn with
  | nil => exact ⟨e.seed n, rfl, .seed (by simp [present])⟩
  | append_singleton rows row ih =>
    have htypes := dataType_of_present hrows
    simp only [List.forall_mem_append, List.forall_mem_singleton] at hrows
    obtain ⟨hrows, v, hv, hconforms⟩ := hrows
    obtain ⟨current, hcurrent, hkeeps⟩ := ih hrows
    rw [present_append hv] at htypes ⊢
    simp only [List.foldlM_append, hcurrent, List.foldlM_cons, List.foldlM_nil, bind_pure, ok_bind,
      send, argument, hv]
    by_cases hnull : v = .null
    · subst hnull
      refine ⟨current, ?_, by simpa using hkeeps⟩
      simp [typed, Value.isNull]
    · rw [if_neg hnull] at htypes ⊢
      refine ⟨_, ?_, hkeeps.append hn htypes⟩
      rw [(typed_of_ne_null e.name hconforms hnull).1]
      simp

end Accumulator

namespace Grouping
open Accumulator
variable {arg : Nat} {rows : List Row}

/-- Over a floating-point column the result is null if all values are, one of the numbers if there
are any, and the infinity from which the search starts if no value is a number. -/
theorem extreme_of_floats (e : Extreme) (hn : n.Floating)
    (hrows : ∀ row ∈ rows, ∃ v, row[arg]? = some v ∧ v.Conforms n.dataType) :
    ∃ r, callResult rows ⟨.pick e arg n.dataType, none⟩ = .ok r ∧
      (r = .null ↔ ∀ row ∈ rows, row[arg]? = some .null) ∧
      ((∃ v ∈ present arg rows, ¬v.IsNaN) → r ∈ present arg rows ∧
        ∀ v ∈ present arg rows, v.compare? r ≠ some e.better) ∧
      (present arg rows ≠ [] → (∀ v ∈ present arg rows, v.IsNaN) → r = e.seed n) := by
  obtain ⟨current, hcurrent, hkeeps⟩ := foldlM_pick e hn hrows
  have hresult : callResult rows ⟨.pick e arg n.dataType, none⟩ =
      .ok (if (present arg rows).isEmpty then .null else current) := by
    simp [callResult, fed, CallPlan.start, Recipe.make, CallPlan.ofDataType?_dataType, hcurrent,
      finish]
  by_cases hempty : present arg rows = []
  · rw [hempty] at hresult ⊢
    refine ⟨_, hresult, iff_of_true rfl fun row hrow => ?_, by simp, by simp⟩
    obtain ⟨v, hv, -⟩ := hrows row hrow
    by_contra hnull
    have hmem : v ∈ present arg rows := mem_present.2 ⟨by rintro rfl; exact hnull hv, row, hrow, hv⟩
    simp [hempty] at hmem
  · have hsome : (present arg rows).isEmpty = false := by simpa using hempty
    rw [hsome, if_neg Bool.false_ne_true] at hresult
    have hcurrent : current ≠ .null := by
      cases hkeeps with
      | seed h => cases e <;> cases n <;> exact Value.noConfusion
      | number hmem _ _ => exact (mem_present.1 hmem).1
    have hcolumn : ¬∀ row ∈ rows, row[arg]? = some .null := by
      intro hall
      obtain ⟨v, hv⟩ := List.exists_mem_of_ne_nil _ hempty
      obtain ⟨hnull, row, hrow, hv⟩ := mem_present.1 hv
      exact hnull (Option.some.inj (hv.symm.trans (hall row hrow)))
    refine ⟨current, hresult, iff_of_false hcurrent hcolumn, ?_, fun _ hnan => ?_⟩
    · rintro ⟨v, hv, hnumber⟩
      cases hkeeps with
      | seed h => exact absurd (h v hv) hnumber
      | number hmem _ hbest => exact ⟨hmem, hbest⟩
    · cases hkeeps with
      | seed h => rfl
      | number hmem hnumber _ => exact absurd (hnan _ hmem) hnumber

theorem extreme_of_floats_zeros :
    let rows : List Row := [[.null], [.float32 (.nan false)], [.float32 (.zero true)],
      [.float32 (.zero false)], [.float32 (.infinity false)]]
    (∀ row ∈ rows, ∃ v, row[0]? = some v ∧ v.Conforms NumericType.float32.dataType) ∧
      callResult rows ⟨.pick .min 0 .float32, none⟩ = .ok (.float32 (.zero true)) ∧
      .float32 (.zero true) ∈ present 0 rows := by
  intro rows
  have hrows : ∀ row ∈ rows, ∃ v, row[0]? = some v ∧ v.Conforms NumericType.float32.dataType := by
    simp [rows, Value.Conforms, Value.dataType, NumericType.dataType]
  have hresult : callResult rows ⟨.pick .min 0 .float32, none⟩ = .ok (.float32 (.zero true)) := rfl
  obtain ⟨r, hr, -, hnumber, -⟩ := extreme_of_floats .min (.inl rfl) hrows
  obtain rfl : r = .float32 (.zero true) := Except.ok.inj (hr.symm.trans hresult)
  refine ⟨hrows, hresult, (hnumber ⟨.float32 (.zero false), ?_, ?_⟩).1⟩
  · simp [rows, mem_present]
  · rintro ⟨x, hx, hnan⟩
    cases hx
    revert hnan
    decide

/-- The least of a value that is not a number is an infinity, which is not in the column. -/
theorem extreme_of_nothing_but_nan :
    let rows : List Row := [[.float64 (.nan false)]]
    (∀ row ∈ rows, ∃ v, row[0]? = some v ∧ v.Conforms .float64) ∧
      ∃ r, callResult rows ⟨.pick .min 0 .float64, none⟩ = .ok r ∧ r ≠ .null ∧
        ∀ row ∈ rows, row[0]? ≠ some r := by
  intro rows
  refine ⟨?_, .float64 (.infinity false), rfl, by decide, ?_⟩
  · simp [rows, Value.Conforms, Value.dataType]
  · decide

end Grouping
end Relational
