import Relational.Proofs.Binary.Counting
import Relational.Proofs.Binary.Order

/-!
# Doubles up to one

What is not greater than one stays so when it is multiplied by such a number, when something is
taken away from it, and when a lesser number is taken instead.
-/
namespace Relational.Binary.Word
variable {x y : Word double} {s : Bool} {num den : Nat}

theorem le_iff_rank {f : Format} {x y : Word f} :
    x.le y = true ↔ (x.isNaN = false ∧ y.isNaN = false) ∧ x.rank ≤ y.rank := by
  rw [le, lt, Bool.or_eq_true, beq_iff_eq, beq_iff_eq, compare?_eq_some, compare?_eq_some,
    ← and_or_left, ← compare_le_iff_le]
  cases compare x.rank y.rank <;> simp

theorem lt_iff_rank {f : Format} {x y : Word f} :
    x.lt y = true ↔ (x.isNaN = false ∧ y.isNaN = false) ∧ x.rank < y.rank := by
  rw [lt, beq_iff_eq, compare?_eq_some, compare_lt_iff_lt]

def UpToOne (x : Word double) : Prop :=
  ∃ s c e, x.datum = .finite s c e ∧ 0 ≤ x.datum.value ∧ x.datum.value ≤ 1

theorem round_le_one (hden : 0 < den) (h : num ≤ den) :
    (round s num den : Word double).le (ofInt 1) = true := by
  have hmagnitude : double.magnitude num den ≤ double.magnitude 1 1 :=
    magnitude_mono double hden one_pos (by omega)
  have hone : (ofInt 1 : Word double).rank = double.magnitude 1 1 := rank_ofInt 1
  refine le_iff_rank.2 ⟨⟨isNaN_ofNat (magnitude_le_infinity _ _), isNaN_ofInt 1⟩, ?_⟩
  rw [rank_round, hone]
  split <;> omega

theorem scaleUp_le_of_mul_le_one {n : Nat} {e : Int} (h : (n : ℚ) * 2 ^ e ≤ 1) :
    scaleUp n e ≤ scaleUp 1 (-e) := by
  have hpos : (0 : ℚ) < scaleUp 1 (-e) := by exact_mod_cast scaleUp_pos one_pos (-e)
  rw [← scaleUp_div_one, div_le_one hpos] at h
  exact_mod_cast h

theorem ofScaled_le_one {v e : Int} {zeroSign : Bool} (h : (v : ℚ) * 2 ^ e ≤ 1) :
    (ofScaled v e zeroSign : Word double).le (ofInt 1) = true := by
  have hden : 0 < scaleUp 1 (-e) := scaleUp_pos one_pos _
  unfold ofScaled
  split
  · cases zeroSign <;> decide +kernel
  rcases lt_or_ge v 0 with hv | hv
  · -- what is rounded down from zero is below one by its sign
    refine le_iff_rank.2 ⟨⟨isNaN_ofNat (magnitude_le_infinity _ _), isNaN_ofInt 1⟩, ?_⟩
    have hone : (ofInt 1 : Word double).rank = double.magnitude 1 1 := rank_ofInt 1
    rw [rank_round, hone, decide_eq_true hv, if_pos rfl]
    omega
  · refine round_le_one hden (scaleUp_le_of_mul_le_one ?_)
    rwa [Nat.cast_natAbs, abs_of_nonneg hv]

theorem datum_ofInt_natCast (k : Nat) : (ofInt k : Word double).datum = .infinite false ∨
    ∃ c e, (ofInt k : Word double).datum = .finite false c e := by
  rw [ofInt_eq_round, decide_eq_false (by omega), datum_round]
  rcases (magnitude_le_infinity (f := double) (k : Int).natAbs 1).lt_or_eq with hlt | heq
  · rw [datum_double hlt]
    split
    · exact .inr ⟨_, _, rfl⟩
    · exact .inr ⟨_, _, rfl⟩
  · rw [heq]
    exact .inl (by decide +kernel)

theorem value_one : ∃ s c e, (ofInt 1 : Word double).datum = .finite s c e ∧
    (ofInt 1 : Word double).datum.value = 1 := by
  obtain ⟨s, c, e, hdatum, hvalue⟩ := value_ofInt (f := double) (n := 1) (by decide) (by decide)
  exact ⟨s, c, e, hdatum, by rw [hvalue, Int.cast_one]⟩

namespace UpToOne

theorem le_one (h : x.UpToOne) : x.le (ofInt 1) = true := by
  obtain ⟨s, c, e, hdatum, -, hle⟩ := h
  obtain ⟨t, d, k, hone, hvalue⟩ := value_one
  rwa [le_iff_value hdatum hone, hvalue]

theorem zero (s : Bool) : (Word.zero s : Word double).UpToOne := by
  have hdatum : (Word.zero s : Word double).datum = .finite s 0 (-1074) := by cases s <;> rfl
  exact ⟨s, 0, -1074, hdatum, by simp [hdatum, Datum.value], by simp [hdatum, Datum.value]⟩

theorem atLeastZero (h : x.le (ofInt 1) = true) : (greatest (Word.zero false) x).UpToOne := by
  obtain ⟨⟨hx, -⟩, -⟩ := le_iff_rank.1 h
  have hnumber : (Word.zero false : Word double).isNaN = false := by decide
  rw [greatest, hnumber, hx, if_neg Bool.false_ne_true, if_neg Bool.false_ne_true]
  split
  next hpos =>
    have hatLeast := atLeast_of_zero_lt hpos
    unfold AtLeast Datum.AtLeast at hatLeast
    split at hatLeast
    · exact hatLeast.elim
    next s hdatum =>
      rw [eq_infinity hdatum, hatLeast] at h
      exact absurd h (by decide +kernel)
    next s c e hdatum =>
      obtain ⟨t, d, k, hone, hvalue⟩ := value_one
      rw [le_iff_value hdatum hone, hvalue] at h
      exact ⟨s, c, e, hdatum, hdatum ▸ hatLeast, h⟩
  · exact zero false

theorem significand_le (h : x.UpToOne) :
    ∃ s m e, x.datum = .finite s m e ∧ (m : ℚ) * 2 ^ e ≤ 1 := by
  obtain ⟨s, m, e, hdatum, hpos, hle⟩ := h
  refine ⟨s, m, e, hdatum, ?_⟩
  rw [hdatum, Datum.value] at hpos hle
  cases s with
  | false => simpa using hle
  | true =>
    rw [if_pos rfl, neg_one_mul] at hpos
    linarith

theorem mul (hx : x.UpToOne) (hy : y.UpToOne) : (x * y).le (ofInt 1) = true := by
  obtain ⟨s, m, e, hdx, hxle⟩ := hx.significand_le
  obtain ⟨t, n, d, hdy, hyle⟩ := hy.significand_le
  change (x.mul y).le (ofInt 1) = true
  simp only [Word.mul, hdx, hdy]
  refine round_le_one (scaleUp_pos one_pos _) (scaleUp_le_of_mul_le_one ?_)
  calc ((m * n : Nat) : ℚ) * 2 ^ (e + d) = m * 2 ^ e * (n * 2 ^ d) := by
        rw [zpow_add₀ two_ne_zero]
        push_cast
        ring
    _ ≤ 1 := mul_le_one₀ hxle (by positivity) hyle

theorem sub (hx : x.UpToOne) (k : Nat) : (x - ofInt k).le (ofInt 1) = true := by
  obtain ⟨s, m, e, hdx, -, hxle⟩ := hx
  have hsub : x - ofInt k = x.add (ofInt k : Word double).neg := by
    change x.sub (ofInt k) = _
    rw [Word.sub, isNaN_ofInt, if_neg Bool.false_ne_true]
  rw [hsub]
  rcases datum_ofInt_natCast k with hdy | ⟨n, d, hdy⟩
  · have hneg : (ofInt k : Word double).neg = infinity true := by rw [eq_infinity hdy]; rfl
    have hsum : x.add (infinity true) = infinity true := by rw [add, hdx, datum_infinity]
    rw [hneg, hsum]
    decide +kernel
  · rw [add, hdx, datum_neg hdy]
    refine ofScaled_le_one ?_
    push_cast
    rw [add_mul, signedInt_scaleUp s m (min_le_left e d),
      signedInt_scaleUp true n (min_le_right e d)]
    have hless : (Datum.finite true n d).value ≤ 0 := by
      rw [Datum.value, if_pos rfl, neg_one_mul, neg_nonpos]
      positivity
    rw [hdx] at hxle
    linarith

end UpToOne

theorem least_le_left (hx : x.le (ofInt 1) = true) (hy : y.isNaN = false) :
    (least x y).le (ofInt 1) = true := by
  have hxone := le_iff_rank.1 hx
  rw [least, hxone.1.1, hy, if_neg Bool.false_ne_true, if_neg Bool.false_ne_true]
  split
  next hlt =>
    have := (lt_iff_rank.1 hlt).2
    exact le_iff_rank.2 ⟨⟨hy, hxone.1.2⟩, by omega⟩
  · exact hx

theorem least_le_right (hy : y.le (ofInt 1) = true) : (least x y).le (ofInt 1) = true := by
  have hyone := le_iff_rank.1 hy
  cases hx : x.isNaN with
  | true => rwa [least, hx, if_pos rfl]
  | false =>
    rw [least, hx, hyone.1.1, if_neg Bool.false_ne_true, if_neg Bool.false_ne_true]
    split
    · exact hy
    next hnot =>
      have hle : x.rank ≤ y.rank := by
        by_contra hlt
        exact hnot (lt_iff_rank.2 ⟨⟨hyone.1.1, hx⟩, by omega⟩)
      exact le_iff_rank.2 ⟨⟨hx, hyone.1.2⟩, hle.trans hyone.2⟩

end Relational.Binary.Word
