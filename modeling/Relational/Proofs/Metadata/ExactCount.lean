import Mathlib.Data.ENat.Lattice
import Relational.Proofs.Metadata.Counting

/-!
# Exact counts

Quantities read as natural numbers or infinity, in which no bound is rounded. What the rules for
numbers of rows do not use is rounded down.
-/
namespace Relational.Metadata
open Quantity

namespace ExactCount

def quotient (x y : ℕ∞) : ℕ∞ :=
  if y = ⊤ then 0 else if x = ⊤ then ⊤ else (x.toNat / y.toNat : ℕ)

noncomputable instance : Quantity ℕ∞ where
  div := quotient
  ofNat n := n
  neutral := 0
  infinity := ⊤
  decay x := if x = 0 then 1 else 0
  log2 x := if x = ⊤ then ⊤ else (x.toNat.log2 : ℕ)
  lt x y := decide (x < y)
  le x y := decide (x ≤ y)
  isInfinite x := decide (x = ⊤)
  least := min
  greatest := max

variable {x y : ℕ∞} {n k : ℕ}

@[simp] theorem ofNat_eq (n : ℕ) : (ofNat n : ℕ∞) = n := rfl

@[simp] theorem zero_eq : (Quantity.zero : ℕ∞) = 0 := rfl

@[simp] theorem one_eq : (Quantity.one : ℕ∞) = 1 := rfl

@[simp] theorem le_eq : le x y = decide (x ≤ y) := rfl

@[simp] theorem least_eq : least x y = min x y := rfl

@[simp] theorem atLeastZero_eq (x : ℕ∞) : atLeastZero x = x := max_eq_right bot_le

@[simp] theorem times_eq (x y : ℕ∞) : times x y = x * y := by
  unfold times
  split
  next h =>
    have hzero : x = 0 ∨ y = 0 := by simpa [isZero] using h
    exact (mul_eq_zero.2 hzero).symm
  · rfl

theorem sum_eq (xs : List ℕ∞) : Quantity.sum xs = xs.sum := by
  rw [Quantity.sum, List.sum_eq_foldl]
  rfl

instance : Counting ℕ∞ where
  Covers x n := (n : ℕ∞) ≤ x
  Exact _ := True
  covers_ofNat _ := le_rfl
  covers_infinity _ := le_top
  covers_neutral := le_rfl
  covers_add hx hy := by
    rw [Nat.cast_add]
    exact add_le_add hx hy
  covers_times hx k := by
    rw [times_eq, Nat.cast_mul]
    exact mul_le_mul_left hx _
  covers_atLeastZero hx := hx.trans (le_max_right _ _)
  covers_offset hx _ _ := by
    rw [atLeastZero_eq, ENat.natCast_sub]
    exact tsub_le_tsub_right hx _
  covers_least hx hy := le_min hx hy
  covers_mono hx h := (Nat.cast_le.2 h).trans hx
  le_one_of_covers hx h := by
    have hone : _ ≤ (1 : ℕ∞) := of_decide_eq_true h
    exact_mod_cast hx.trans hone

theorem limit_le (hx : x ≤ n) (offset fetch : Option ℕ) :
    limit x offset fetch ≤
      (fetch.elim (n - offset.getD 0) (min (n - offset.getD 0)) : ℕ) := by
  have hrest : x - (offset.getD 0 : ℕ) ≤ ((n - offset.getD 0 : ℕ) : ℕ∞) := by
    rw [ENat.natCast_sub]
    exact tsub_le_tsub_right hx _
  cases fetch with
  | none => simpa only [limit, Option.elim_none, atLeastZero_eq, ofNat_eq] using hrest
  | some k =>
    simp only [limit, Option.elim_some, least_eq, atLeastZero_eq, ofNat_eq]
    exact min_le_min_right _ hrest

end ExactCount
end Relational.Metadata
