import Mathlib.Analysis.SpecialFunctions.Log.Base
import Mathlib.Data.Real.ENatENNReal
import Relational.Metadata.RowBound

/-!
# Exact estimates

Quantities read as extended non-negative reals, in which no estimate is rounded. A difference is
not less than zero, and neither is a logarithm. The bounds on numbers of rows are whole.
-/
namespace Relational.Metadata.ExactEstimate
open Quantity
open scoped ENNReal

noncomputable instance : Quantity ℝ≥0∞ where
  ofNat n := n
  neutral := 0
  infinity := ⊤
  decay x := if x = ⊤ then 0 else .ofReal (Real.exp (-x.toReal))
  log2 x := if x = ⊤ then ⊤ else .ofReal (Real.logb 2 x.toReal)
  lt x y := decide (x < y)
  le x y := decide (x ≤ y)
  isInfinite x := decide (x = ⊤)
  least := min
  greatest := max

variable {x y l r l' r' : ℝ≥0∞}

@[simp] theorem ofNat_eq (n : ℕ) : (ofNat n : ℝ≥0∞) = n := rfl

@[simp] theorem zero_eq : (Quantity.zero : ℝ≥0∞) = 0 := Nat.cast_zero

@[simp] theorem one_eq : (Quantity.one : ℝ≥0∞) = 1 := Nat.cast_one

@[simp] theorem infinity_eq : (infinity : ℝ≥0∞) = ⊤ := rfl

@[simp] theorem le_eq : le x y = decide (x ≤ y) := rfl

@[simp] theorem least_eq : least x y = min x y := rfl

@[simp] theorem greatest_eq : greatest x y = max x y := rfl

@[simp] theorem atLeastZero_eq (x : ℝ≥0∞) : atLeastZero x = x := by
  simp [atLeastZero]

@[simp] theorem isZero_eq : isZero x = decide (x = 0) := by
  simp [isZero]

@[simp] theorem times_eq (x y : ℝ≥0∞) : times x y = x * y := by
  by_cases hx : x = 0
  · simp [times, hx]
  by_cases hy : y = 0
  · simp [times, hy]
  · simp [times, hx, hy]

theorem sum_eq (xs : List ℝ≥0∞) : Quantity.sum xs = xs.sum := by
  rw [Quantity.sum, List.sum_eq_foldl]
  rfl

def Whole (x : ℝ≥0∞) : Prop := ∃ n : ℕ∞, (n : ℝ≥0∞) = x

theorem whole_natCast (n : ℕ) : Whole n := ⟨n, by simp⟩

theorem whole_top : Whole ⊤ := ⟨⊤, by simp⟩

theorem whole_add (hx : Whole x) (hy : Whole y) : Whole (x + y) := by
  obtain ⟨n, rfl⟩ := hx
  obtain ⟨k, rfl⟩ := hy
  exact ⟨n + k, by simp⟩

theorem whole_mul (hx : Whole x) (hy : Whole y) : Whole (x * y) := by
  obtain ⟨n, rfl⟩ := hx
  obtain ⟨k, rfl⟩ := hy
  exact ⟨n * k, by simp⟩

theorem whole_sub (hx : Whole x) (hy : Whole y) : Whole (x - y) := by
  obtain ⟨n, rfl⟩ := hx
  obtain ⟨k, rfl⟩ := hy
  exact ⟨n - k, by simp⟩

theorem whole_min (hx : Whole x) (hy : Whole y) : Whole (min x y) := by
  obtain ⟨n, rfl⟩ := hx
  obtain ⟨k, rfl⟩ := hy
  exact ⟨min n k, by simp⟩

theorem whole_sum {xs : List ℝ≥0∞} (h : ∀ x ∈ xs, Whole x) : Whole xs.sum := by
  induction xs with
  | nil => exact ⟨0, ENat.toENNReal_zero⟩
  | cons x rest ih =>
    obtain ⟨hx, hrest⟩ := List.forall_mem_cons.1 h
    rw [List.sum_cons]
    exact whole_add hx (ih hrest)

theorem whole_least {xs : List ℝ≥0∞} (hx : Whole x) (h : ∀ y ∈ xs, Whole y) :
    Whole (xs.foldl least x) := by
  induction xs generalizing x with
  | nil => exact hx
  | cons y rest ih =>
    obtain ⟨hy, hrest⟩ := List.forall_mem_cons.1 h
    exact ih (whole_min hx hy) hrest

theorem one_le_of_whole (h : Whole x) (hx : x ≠ 0) : 1 ≤ x := by
  obtain ⟨n, rfl⟩ := h
  have hn : 1 ≤ n := Order.one_le_iff_ne_zero.2 fun hn => hx (by simp [hn])
  exact_mod_cast hn

/-! What the rules for bounds make of them -/

theorem limit_eq (x : ℝ≥0∞) (offset fetch : Option ℕ) :
    limit x offset fetch =
      fetch.elim (x - (offset.getD 0 : ℕ)) fun n => min (x - (offset.getD 0 : ℕ)) n := by
  cases fetch <;> simp [limit]

theorem whole_limit (h : Whole x) (offset fetch : Option ℕ) : Whole (limit x offset fetch) := by
  have hrest := whole_sub h (whole_natCast (offset.getD 0))
  rw [limit_eq]
  cases fetch with
  | none => exact hrest
  | some n => exact whole_min hrest (whole_natCast n)

theorem limit_mono (h : x ≤ y) (offset fetch : Option ℕ) :
    limit x offset fetch ≤ limit y offset fetch := by
  have hrest : x - (offset.getD 0 : ℕ) ≤ y - (offset.getD 0 : ℕ) := tsub_le_tsub_right h _
  rw [limit_eq, limit_eq]
  cases fetch with
  | none => exact hrest
  | some n => exact min_le_min_right _ hrest

theorem whole_joinMax (hl : Whole l) (hr : Whole r) (type : JoinType) :
    Whole (RowBound.joinMax type l r) := by
  cases type with
  | inner => simpa [RowBound.joinMax] using whole_mul hl hr
  | semi | anti => exact hl
  | _ =>
    simp only [RowBound.joinMax, times_eq]
    repeat' split
    all_goals first | assumption | exact whole_mul hl hr

theorem le_mul_right_of_whole (hr : Whole r) (hne : r ≠ 0) : l ≤ l * r :=
  le_mul_of_one_le_right bot_le (one_le_of_whole hr hne)

theorem le_mul_left_of_whole (hl : Whole l) (hne : l ≠ 0) : r ≤ l * r :=
  le_mul_of_one_le_left bot_le (one_le_of_whole hl hne)

theorem le_joinMax_left (hr : Whole r) : l ≤ RowBound.joinMax .left l r := by
  simp only [RowBound.joinMax, isZero_eq, times_eq, decide_eq_true_eq]
  split
  · exact le_rfl
  next hne => exact le_mul_right_of_whole hr hne

theorem le_joinMax_right (hl : Whole l) : r ≤ RowBound.joinMax .right l r := by
  simp only [RowBound.joinMax, isZero_eq, times_eq, decide_eq_true_eq]
  split
  · exact le_rfl
  next hne => exact le_mul_left_of_whole hl hne

theorem max_le_joinMax_full (hl : Whole l) (hr : Whole r) :
    max l r ≤ RowBound.joinMax .full l r := by
  simp only [RowBound.joinMax, isZero_eq, times_eq, decide_eq_true_eq]
  split
  next hzero => exact max_le (hzero ▸ bot_le) le_rfl
  next hlne =>
    split
    next hzero => exact max_le le_rfl (hzero ▸ bot_le)
    next hrne => exact max_le (le_mul_right_of_whole hr hrne) (le_mul_left_of_whole hl hlne)

end Relational.Metadata.ExactEstimate
