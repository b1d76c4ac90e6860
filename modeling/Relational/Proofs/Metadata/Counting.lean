import Relational.Metadata.RowBound
import Relational.Proofs.Binary.Counting

/-!
# Counted rows

Which numbers of rows a quantity covers as an upper bound. Doubles round, but never below a number
of up to 53 bits, and only what is left by an offset needs the number of rows to be one of those.
-/
namespace Relational.Metadata
open Quantity

class Counting (Q : Type) [Quantity Q] where
  /-- As far as quantities tell, the rows are no more than that. -/
  Covers : Q → Nat → Prop
  Exact : Nat → Prop
  covers_ofNat (n : Nat) : Covers (ofNat n) n
  covers_infinity (n : Nat) : Covers infinity n
  covers_neutral : Covers neutral 0
  covers_add {x y : Q} {m n : Nat} (hx : Covers x m) (hy : Covers y n) : Covers (x + y) (m + n)
  covers_times {x : Q} {n : Nat} (hx : Covers x n) (k : Nat) : Covers (times x (ofNat k)) (n * k)
  covers_atLeastZero {x : Q} {n : Nat} (hx : Covers x n) : Covers (atLeastZero x) n
  covers_offset {x : Q} {n : Nat} (hx : Covers x n) {k : Nat} (h : 0 < k → Exact n) :
    Covers (atLeastZero (x - ofNat k)) (n - k)
  covers_least {x y : Q} {n : Nat} (hx : Covers x n) (hy : Covers y n) : Covers (least x y) n
  covers_mono {x : Q} {m n : Nat} (hx : Covers x n) (h : m ≤ n) : Covers x m
  le_one_of_covers {x : Q} {n : Nat} (hx : Covers x n) (h : le x one = true) : n ≤ 1

namespace Counting
section Doubles
open Binary Binary.Word
variable {x y : Binary64} {m n : Nat}

/-- At least the number, or 2⁵³ if it is larger. -/
def CoversDouble (x : Binary64) (n : Nat) : Prop := x.AtLeast (min n (2 ^ 53) : Nat)

theorem coversDouble_ofNat (n : Nat) : CoversDouble (ofNat n) n := by
  refine ofScaled_atLeast (Nat.min_le_right _ _) ?_
  simp

theorem coversDouble_add (hx : CoversDouble x m) (hy : CoversDouble y n) :
    CoversDouble (x + y) (m + n) := by
  refine hx.add hy (Nat.min_le_right _ _) ?_
  exact_mod_cast (by omega : min (m + n) (2 ^ 53) ≤ min m (2 ^ 53) + min n (2 ^ 53))

theorem atLeastZero_eq (hx : x.isNaN = false) :
    atLeastZero x = if (Word.zero false : Binary64).lt x then x else Word.zero false := by
  have hgreatest : atLeastZero x = Word.greatest (Word.zero false) x := rfl
  have hzero : (Word.zero false : Binary64).isNaN = false := by decide
  rw [hgreatest, Word.greatest, hzero, hx]
  rfl

theorem coversDouble_atLeastZero (hx : CoversDouble x n) : CoversDouble (atLeastZero x) n := by
  rw [atLeastZero_eq hx.not_isNaN]
  split
  · exact hx
  next hnot =>
    refine (zero_atLeast false).mono ?_
    by_contra hpos
    exact hnot (hx.zero_lt (not_le.1 hpos))

theorem coversDouble_zero (x : Binary64) : CoversDouble (atLeastZero x) 0 := by
  cases hx : x.isNaN with
  | true =>
    have hzero : atLeastZero x = Word.zero false := by
      have hgreatest : atLeastZero x = Word.greatest (Word.zero false) x := rfl
      rw [hgreatest, Word.greatest, hx]
      rfl
    exact hzero ▸ zero_atLeast false
  | false =>
    rw [atLeastZero_eq hx]
    split
    next hlt => exact atLeast_of_zero_lt hlt
    · exact zero_atLeast false

theorem coversDouble_offset (hx : CoversDouble x n) {k : Nat} (h : 0 < k → n ≤ 2 ^ 53) :
    CoversDouble (atLeastZero (x - ofNat k)) (n - k) := by
  rcases Nat.lt_or_ge n k with hlt | hle
  · rw [Nat.sub_eq_zero_of_le hlt.le]
    exact coversDouble_zero _
  · have hk : k ≤ 2 ^ 53 := by
      rcases Nat.eq_zero_or_pos k with rfl | hk
      · exact Nat.zero_le _
      · exact hle.trans (h hk)
    refine coversDouble_atLeastZero (hx.sub_ofInt hk (Nat.min_le_right _ _) ?_)
    have : min (n - k) (2 ^ 53) + k ≤ min n (2 ^ 53) := by omega
    have : ((min (n - k) (2 ^ 53) : Nat) : ℚ) + k ≤ (min n (2 ^ 53) : Nat) := by exact_mod_cast this
    linarith

theorem isZero_eq (x : Binary64) :
    isZero x = (Word.le x (Word.zero false) && Word.le (Word.zero false) x) := rfl

theorem not_isZero (hx : x.AtLeast 1) : isZero x = false := by
  rw [isZero_eq, le_eq_false (hx.zero_lt one_pos), Bool.false_and]

theorem isZero_of_rank (hx : x.isNaN = false) (h : x.rank = 0) : isZero x = true := by
  have hzero : (Word.zero false : Binary64).rank = 0 ∧
      (Word.zero false : Binary64).isNaN = false := by
    decide
  simp only [isZero_eq, Word.le, Word.lt, compare?, hx, h, hzero]
  decide

theorem exists_pos_atLeast (hx : x.AtLeast 0) (hzero : isZero x = false) :
    ∃ a > 0, x.AtLeast a := by
  have hnumber := hx.not_isNaN
  unfold Word.AtLeast Datum.AtLeast at hx
  split at hx
  · exact hx.elim
  next negative hinfinite =>
    exact ⟨1, one_pos, by simp [Word.AtLeast, hinfinite, Datum.AtLeast, hx]⟩
  next negative m e hfinite =>
    rcases Nat.eq_zero_or_pos m with rfl | hm
    · rw [isZero_of_rank hnumber (rank_of_zero hfinite)] at hzero
      cases hzero
    · have hpos : (0 : ℚ) < m * 2 ^ e := by positivity
      cases negative with
      | true =>
        simp only [Datum.value, if_true] at hx
        linarith
      | false => exact ⟨m * 2 ^ e, hpos, by simp [Word.AtLeast, hfinite, Datum.AtLeast, Datum.value]⟩

theorem coversDouble_times (hx : CoversDouble x n) (k : Nat) :
    CoversDouble (times x (ofNat k)) (n * k) := by
  have hy := coversDouble_ofNat k
  unfold times
  split
  next hzero =>
    have hnone : n * k = 0 := by
      by_contra hpos
      obtain ⟨hn, hk⟩ := Nat.mul_ne_zero_iff.1 hpos
      have hxone : x.AtLeast 1 := hx.mono (by exact_mod_cast (by omega : 1 ≤ min n (2 ^ 53)))
      have hyone : Word.AtLeast 1 (ofNat k : Binary64) :=
        hy.mono (by exact_mod_cast (by omega : 1 ≤ min k (2 ^ 53)))
      simp [not_isZero hxone, not_isZero hyone] at hzero
    rw [hnone]
    exact (zero_atLeast false).mono (by simp)
  next hpos =>
    obtain ⟨hxzero, hyzero⟩ : isZero x = false ∧ isZero (ofNat k : Binary64) = false := by
      simpa using hpos
    rcases Nat.eq_zero_or_pos (n * k) with hnone | hsome
    · obtain ⟨a, ha, hxa⟩ := exists_pos_atLeast (hx.mono (Nat.cast_nonneg _)) hxzero
      obtain ⟨b, hb, hyb⟩ := exists_pos_atLeast (hy.mono (Nat.cast_nonneg _)) hyzero
      rw [hnone]
      exact hxa.mul hyb ha hb (Nat.zero_le _) (by simpa using (mul_pos ha hb).le)
    · have hn : 0 < min n (2 ^ 53) := lt_min (Nat.pos_of_mul_pos_right hsome) (by norm_num)
      have hk : 0 < min k (2 ^ 53) := lt_min (Nat.pos_of_mul_pos_left hsome) (by norm_num)
      refine hx.mul hy (by exact_mod_cast hn) (by exact_mod_cast hk) (Nat.min_le_right _ _) ?_
      have hproduct : min (n * k) (2 ^ 53) ≤ min n (2 ^ 53) * min k (2 ^ 53) := by
        rcases le_total n (2 ^ 53) with hsmall | hlarge
        · rcases le_total k (2 ^ 53) with hk' | hk'
          · rw [min_eq_left hsmall, min_eq_left hk']
            exact min_le_left _ _
          · rw [min_eq_right hk']
            exact (min_le_right _ _).trans (Nat.le_mul_of_pos_left _ hn)
        · rw [min_eq_right hlarge]
          exact (min_le_right _ _).trans (Nat.le_mul_of_pos_right _ hk)
      exact_mod_cast hproduct

theorem coversDouble_least (hx : CoversDouble x n) (hy : CoversDouble y n) :
    CoversDouble (Quantity.least x y) n := by
  have hleast : Quantity.least x y = Word.least x y := rfl
  rw [hleast, Word.least]
  split
  · exact hy
  · split
    · exact hx
    · split
      · exact hy
      · exact hx

theorem le_one_of_coversDouble (hx : CoversDouble x n) (h : Quantity.le x one = true) : n ≤ 1 := by
  by_contra hn
  have htwo : x.AtLeast 2 := hx.mono (by exact_mod_cast (by omega : 2 ≤ min n (2 ^ 53)))
  exact absurd ((le_eq_false htwo.one_lt).symm.trans h) Bool.false_ne_true

theorem coversDouble_mono (hx : CoversDouble x n) (h : m ≤ n) : CoversDouble x m :=
  hx.mono (Nat.cast_le.2 (min_le_min_right _ h))

instance : Counting Binary64 where
  Covers := CoversDouble
  Exact n := n ≤ 2 ^ 53
  covers_ofNat := coversDouble_ofNat
  covers_infinity n := infinity_atLeast _
  covers_neutral := (zero_atLeast true).mono (by simp)
  covers_add := coversDouble_add
  covers_times := coversDouble_times
  covers_atLeastZero := coversDouble_atLeastZero
  covers_offset := coversDouble_offset
  covers_least := coversDouble_least
  covers_mono := coversDouble_mono
  le_one_of_covers := le_one_of_coversDouble

end Doubles

variable {Q : Type} [Quantity Q] [Counting Q]

theorem covers_foldl {xs : List Q} {counts : List Nat} (h : List.Forall₂ Covers xs counts) {x : Q}
    {n : Nat} (hx : Covers x n) : Covers (xs.foldl (· + ·) x) (n + counts.sum) := by
  induction h generalizing x n with
  | nil => exact hx
  | cons hcount _ ih =>
    rw [List.foldl_cons, List.sum_cons, ← Nat.add_assoc]
    exact ih (covers_add hx hcount)

theorem covers_sum {xs : List Q} {counts : List Nat} (h : List.Forall₂ Covers xs counts) :
    Covers (sum xs) counts.sum := by
  have hfold := covers_foldl h covers_neutral
  rwa [Nat.zero_add] at hfold

theorem covers_limit {x : Q} {n : Nat} (hx : Covers x n) {offset : Option Nat}
    (h : 0 < offset.getD 0 → Exact Q n) (fetch : Option Nat) :
    Covers (limit x offset fetch) (fetch.elim (n - offset.getD 0) (min (n - offset.getD 0))) := by
  have hrest := covers_offset hx h
  cases fetch with
  | none => exact hrest
  | some k =>
    exact covers_least (covers_mono hrest (min_le_left _ _))
      (covers_mono (covers_ofNat k) (min_le_right _ _))

end Counting
end Relational.Metadata
