import Mathlib.Algebra.Order.Field.Power
import Mathlib.Data.Rat.Cast.Order
import Mathlib.Tactic.FieldSimp
import Mathlib.Tactic.Linarith
import Mathlib.Tactic.NormNum
import Mathlib.Tactic.Positivity
import Mathlib.Tactic.Ring
import Relational.Binary.Arithmetic

/-!
# Rounding from below

A double is never rounded below a natural number that doubles hold exactly. What a word stands for
is an exact rational number.
-/
namespace Relational.Binary

theorem scaleUp_cast (n : Nat) (e : Int) : (scaleUp n e : ℚ) = n * 2 ^ e.toNat := by
  simp [scaleUp]

theorem scaleUp_pos {n : Nat} (h : 0 < n) (e : Int) : 0 < scaleUp n e :=
  Nat.mul_pos h (Nat.pow_pos (by decide))

theorem scaleUp_div_scaleUp (num den : Nat) (q : Int) :
    (scaleUp num (-q) : ℚ) / scaleUp den q = num / den * 2 ^ (-q) := by
  have hpow : (2 : ℚ) ^ (-q).toNat = 2 ^ (-q) * 2 ^ q.toNat := by
    rw [← zpow_natCast, ← zpow_natCast, ← zpow_add₀ two_ne_zero]
    congr 1
    omega
  have hne : (2 : ℚ) ^ q.toNat ≠ 0 := pow_ne_zero _ two_ne_zero
  rw [scaleUp_cast, scaleUp_cast, hpow]
  field_simp

theorem le_quotient {num den k : Nat} {q : Int} (hden : 0 < den) :
    k ≤ scaleUp num (-q) / scaleUp den q ↔ (k : ℚ) ≤ num / den * 2 ^ (-q) := by
  have hpos : (0 : ℚ) < scaleUp den q := Nat.cast_pos.2 (scaleUp_pos hden q)
  rw [← scaleUp_div_scaleUp, le_div_iff₀ hpos, Nat.le_div_iff_mul_le (scaleUp_pos hden q)]
  exact_mod_cast Iff.rfl

theorem quotient_bounds {num den : Nat} (hnum : num ≠ 0) (hden : den ≠ 0) :
    (2 : ℚ) ^ ((num.log2 : Int) - den.log2 - 1) ≤ num / den ∧
      (num : ℚ) / den < 2 ^ ((num.log2 : Int) - den.log2 + 1) := by
  have hnumlow : (2 : ℚ) ^ (num.log2 : Int) ≤ num := by
    exact_mod_cast Nat.log2_self_le hnum
  have hnumhigh : (num : ℚ) < 2 ^ ((num.log2 : Int) + 1) := by
    exact_mod_cast Nat.lt_log2_self
  have hdenlow : (2 : ℚ) ^ (den.log2 : Int) ≤ den := by
    exact_mod_cast Nat.log2_self_le hden
  have hdenhigh : (den : ℚ) < 2 ^ ((den.log2 : Int) + 1) := by
    exact_mod_cast Nat.lt_log2_self
  have hpos : (0 : ℚ) < den := by positivity
  constructor
  · rw [le_div_iff₀ hpos, sub_sub, zpow_sub₀ two_ne_zero]
    calc (2 : ℚ) ^ (num.log2 : Int) / 2 ^ ((den.log2 : Int) + 1) * den
        ≤ 2 ^ (num.log2 : Int) / 2 ^ ((den.log2 : Int) + 1) * 2 ^ ((den.log2 : Int) + 1) := by
          gcongr
      _ = 2 ^ (num.log2 : Int) := div_mul_cancel₀ _ (by positivity)
      _ ≤ num := hnumlow
  · rw [div_lt_iff₀ hpos, sub_add_eq_add_sub, zpow_sub₀ two_ne_zero]
    calc (num : ℚ) < 2 ^ ((num.log2 : Int) + 1) := hnumhigh
      _ = 2 ^ ((num.log2 : Int) + 1) / 2 ^ (den.log2 : Int) * 2 ^ (den.log2 : Int) :=
          (div_mul_cancel₀ _ (by positivity)).symm
      _ ≤ 2 ^ ((num.log2 : Int) + 1) / 2 ^ (den.log2 : Int) * den := by gcongr

theorem mul_two_zpow_neg (x : ℚ) (m q : Int) : x * 2 ^ (-q) = x * 2 ^ (-m) * 2 ^ (m - q) := by
  rw [mul_assoc, ← zpow_add₀ two_ne_zero]
  congr 2
  omega

/-- In units of the estimated exponent or the next one the quotient has one bit more than there are
in the fraction. -/
theorem normal_quotient {num den : Nat} (hnum : num ≠ 0) (hden : den ≠ 0) {fraction : Nat}
    {estimate : Int} (hestimate : (num.log2 : Int) - den.log2 - 1 - fraction = estimate) :
    let q := if scaleUp num (-estimate) / scaleUp den estimate < 2 ^ (fraction + 1) then estimate
      else estimate + 1
    2 ^ fraction ≤ scaleUp num (-q) / scaleUp den q ∧
      scaleUp num (-q) / scaleUp den q < 2 ^ (fraction + 1) := by
  have hpos := Nat.pos_of_ne_zero hden
  obtain ⟨hlow, hhigh⟩ := quotient_bounds hnum hden
  have hlow : ((2 ^ fraction : Nat) : ℚ) ≤ num / den * 2 ^ (-estimate) := by
    have hexponent : (num.log2 : Int) - den.log2 - 1 + -estimate = fraction := by omega
    calc ((2 ^ fraction : Nat) : ℚ)
        = 2 ^ ((num.log2 : Int) - den.log2 - 1) * 2 ^ (-estimate) := by
          rw [← zpow_add₀ two_ne_zero, hexponent, zpow_natCast, Nat.cast_pow, Nat.cast_ofNat]
      _ ≤ num / den * 2 ^ (-estimate) := by gcongr
  have hhigh : (num : ℚ) / den * 2 ^ (-(estimate + 1)) < ((2 ^ (fraction + 1) : Nat) : ℚ) := by
    have hexponent : (num.log2 : Int) - den.log2 + 1 + -(estimate + 1) = (fraction + 1 : Nat) := by
      omega
    calc (num : ℚ) / den * 2 ^ (-(estimate + 1))
        < 2 ^ ((num.log2 : Int) - den.log2 + 1) * 2 ^ (-(estimate + 1)) := by gcongr
      _ = ((2 ^ (fraction + 1) : Nat) : ℚ) := by
          rw [← zpow_add₀ two_ne_zero, hexponent, zpow_natCast, Nat.cast_pow, Nat.cast_ofNat]
  intro q
  by_cases h : scaleUp num (-estimate) / scaleUp den estimate < 2 ^ (fraction + 1)
  · have hq : q = estimate := if_pos h
    rw [hq]
    exact ⟨(le_quotient hpos).2 hlow, h⟩
  · have hq : q = estimate + 1 := if_neg h
    have hhalf : ((2 ^ fraction : Nat) : ℚ) ≤ num / den * 2 ^ (-(estimate + 1)) := by
      have htwice := (le_quotient hpos).1 (Nat.not_lt.1 h)
      have htwo : (2 : ℚ) ^ (estimate - (estimate + 1)) = 1 / 2 := by
        rw [sub_add_cancel_left]
        norm_num
      rw [mul_two_zpow_neg _ estimate, htwo]
      push_cast at htwice ⊢
      rw [pow_succ] at htwice
      linarith
    rw [hq]
    exact ⟨(le_quotient hpos).2 hhalf, Nat.not_le.1 fun h => hhigh.not_ge ((le_quotient hpos).1 h)⟩

/-- A magnitude has a significand of one bit more than the fraction, fewer only at the least
exponent. -/
theorem magnitude_eq (f : Format) {num den : Nat} (hnum : num ≠ 0) (hden : den ≠ 0) :
    ∃ u : Nat, ∃ q : Int, q = f.leastExponent + u ∧
      f.magnitude num den = min (u * 2 ^ f.fraction +
        nearestQuotient (scaleUp num (-q)) (scaleUp den q)) f.infinity ∧
      scaleUp num (-q) / scaleUp den q < 2 ^ (f.fraction + 1) ∧
      (u = 0 ∨ 2 ^ f.fraction ≤ scaleUp num (-q) / scaleUp den q) := by
  have hpos := Nat.pos_of_ne_zero hden
  generalize hestimate : (num.log2 : Int) - den.log2 - 1 - f.fraction = estimate
  obtain ⟨hlow, hhigh⟩ := normal_quotient hnum hden hestimate
  generalize hnormal : (if scaleUp num (-estimate) / scaleUp den estimate < 2 ^ (f.fraction + 1)
      then estimate else estimate + 1) = normal at hlow hhigh
  have hmagnitude : f.magnitude num den =
      min ((max normal f.leastExponent - f.leastExponent).toNat * 2 ^ f.fraction +
        nearestQuotient (scaleUp num (-max normal f.leastExponent))
          (scaleUp den (max normal f.leastExponent))) f.infinity := by
    rw [← hnormal, ← hestimate, Format.magnitude, if_neg hnum]
    simp
  refine ⟨(max normal f.leastExponent - f.leastExponent).toNat,
    max normal f.leastExponent, by omega, hmagnitude, ?_⟩
  rcases le_total f.leastExponent normal with h | h
  · rw [max_eq_left h]
    exact ⟨hhigh, .inr hlow⟩
  · rw [max_eq_right h]
    refine ⟨Nat.not_le.1 fun hle => ?_, .inl (by omega)⟩
    refine hhigh.not_ge ((le_quotient hpos).2 (((le_quotient hpos).1 hle).trans ?_))
    gcongr
    exact one_le_two

theorem datum_double {bits : Nat} (h : bits < double.infinity) :
    double.datum bits =
      if bits / 2 ^ 52 = 0 then .finite false (bits % 2 ^ 52) (-1074)
      else .finite false (2 ^ 52 + bits % 2 ^ 52) (-1074 + (bits / 2 ^ 52 : Nat) - 1) := by
  have hinfinity : double.infinity = 2047 * 2 ^ 52 := rfl
  have hfield : bits / 2 ^ 52 % 2 ^ 11 = bits / 2 ^ 52 := by omega
  have hsign : ¬double.signBit ≤ bits := by
    have : double.signBit = 2 ^ 63 := rfl
    omega
  have hleast : double.leastExponent = -1074 := rfl
  have hfinite : ¬bits / 2 ^ 52 = 2 ^ 11 - 1 := by omega
  have hdouble : double.fraction = 52 ∧ double.exponent = 11 := ⟨rfl, rfl⟩
  simp only [Format.datum, Nat.pow_eq, hdouble, hfield, hsign, hfinite, hleast, decide_false, if_false]

theorem datum_carry {u c : Nat} (hc : c ≤ 2 ^ 53) (hu : u = 0 ∨ 2 ^ 52 ≤ c)
    (h : u * 2 ^ 52 + c < double.infinity) :
    ∃ m e, double.datum (u * 2 ^ 52 + c) = .finite false m e ∧
      (m : ℚ) * 2 ^ e = c * 2 ^ (-1074 + u : Int) := by
  rw [datum_double h]
  rcases Nat.lt_or_ge c (2 ^ 52) with hsmall | hlarge
  · obtain rfl : u = 0 := by omega
    refine ⟨c, -1074, ?_, by simp⟩
    rw [if_pos (by omega)]
    congr 1
    omega
  · rcases Nat.lt_or_ge c (2 ^ 53) with hnormal | hcarry
    · refine ⟨c, -1074 + u, ?_, rfl⟩
      rw [if_neg (by omega)]
      congr 1 <;> omega
    · refine ⟨2 ^ 52, -1074 + u + 1, ?_, ?_⟩
      · rw [if_neg (by omega)]
        congr 1 <;> omega
      · obtain rfl : c = 2 ^ 53 := by omega
        rw [zpow_add_one₀ two_ne_zero]
        norm_num
        ring

theorem le_nearestQuotient (num den : Nat) : num / den ≤ nearestQuotient num den := by
  unfold nearestQuotient
  dsimp only
  split <;> omega

theorem nearestQuotient_le (num den : Nat) : nearestQuotient num den ≤ num / den + 1 := by
  unfold nearestQuotient
  dsimp only
  split <;> omega

theorem nearestQuotient_mul (k : Nat) {den : Nat} (h : 0 < den) :
    nearestQuotient (k * den) den = k := by
  simp [nearestQuotient, Nat.mul_div_cancel k h, h.ne]

/-- What a word stands for, zero if that is not finite. -/
def Datum.value : Datum → ℚ
  | .finite negative m e => (if negative then -1 else 1) * (m * 2 ^ e)
  | _ => 0

def Datum.AtLeast (k : ℚ) : Datum → Prop
  | .nan _ => False
  | .infinite negative => negative = false
  | .finite negative m e => k ≤ (finite negative m e).value

namespace Word
variable {x y : Word double} {k : ℚ} {n : Nat}

def AtLeast (k : ℚ) (x : Word double) : Prop := x.datum.AtLeast k

theorem magnitude_le_infinity {f : Format} (num den : Nat) :
    f.magnitude num den ≤ f.infinity := by
  unfold Format.magnitude
  split
  · exact Nat.zero_le _
  · exact Nat.min_le_right _ _

theorem datum_round (num den : Nat) :
    (round false num den : Word double).datum = double.datum (double.magnitude num den) := by
  have hwidth : double.infinity < 2 ^ double.width := by decide
  have hlt := (magnitude_le_infinity num den).trans_lt hwidth
  simp [round, datum, ofNat, Nat.mod_eq_of_lt hlt]

theorem le_significand {num den : Nat} {q : Int} (hden : den ≠ 0) (hq : q ≤ 0)
    (h : (n : ℚ) ≤ num / den) :
    (n : ℚ) ≤ (scaleUp num (-q) / scaleUp den q : Nat) * 2 ^ q := by
  have hscale : ((n * 2 ^ (-q).toNat : Nat) : ℚ) = n * 2 ^ (-q) := by
    have hnat : ((-q).toNat : Int) = -q := Int.toNat_of_nonneg (by omega)
    rw [Nat.cast_mul, Nat.cast_pow, Nat.cast_ofNat, ← zpow_natCast, hnat]
  have hquotient : n * 2 ^ (-q).toNat ≤ scaleUp num (-q) / scaleUp den q := by
    rw [le_quotient (Nat.pos_of_ne_zero hden), hscale]
    gcongr
  calc (n : ℚ) = n * 2 ^ (-q) * 2 ^ q := by
        rw [mul_assoc, ← zpow_add₀ two_ne_zero, neg_add_cancel, zpow_zero, mul_one]
    _ ≤ (scaleUp num (-q) / scaleUp den q : Nat) * 2 ^ q := by
        rw [← hscale]
        gcongr

/-- Rounding does not go below a natural number of up to 53 bits. -/
theorem round_atLeast {num den : Nat} (hden : den ≠ 0) (hn : n ≤ 2 ^ 53)
    (h : (n : ℚ) ≤ num / den) : (round false num den : Word double).AtLeast n := by
  rw [AtLeast, datum_round]
  rcases Nat.eq_zero_or_pos num with rfl | hnum
  · have hzero : double.datum (double.magnitude 0 den) = .finite false 0 (-1074) := by
      rw [Format.magnitude, if_pos rfl]
      rfl
    simpa [hzero, Datum.AtLeast, Datum.value] using h
  obtain ⟨u, q, hq, hmagnitude, hquotient, hnormal⟩ := magnitude_eq double hnum.ne' hden
  have hfraction : double.fraction = 52 := rfl
  rw [hfraction] at hmagnitude hquotient hnormal
  have hleast : double.leastExponent = -1074 := rfl
  rw [hmagnitude]
  have hc := le_nearestQuotient (scaleUp num (-q)) (scaleUp den q)
  have hc' := nearestQuotient_le (scaleUp num (-q)) (scaleUp den q)
  generalize nearestQuotient (scaleUp num (-q)) (scaleUp den q) = c at hc hc'
  rcases Nat.lt_or_ge (u * 2 ^ 52 + c) double.infinity with hfinite | hinfinite
  · obtain ⟨m, e, hdatum, hvalue⟩ := datum_carry (by omega) (by omega) hfinite
    rw [min_eq_left hfinite.le, hdatum, Datum.AtLeast, Datum.value, hvalue]
    rw [hleast] at hq
    rw [← hq, if_neg Bool.false_ne_true, one_mul]
    rcases le_or_gt q 0 with hsmall | hlarge
    · refine (le_significand hden hsmall h).trans ?_
      gcongr
    · have hbits : 2 ^ 52 ≤ c := by omega
      calc (n : ℚ) ≤ (2 ^ 52 : Nat) * 2 ^ (1 : Int) := by
            norm_num
            exact_mod_cast hn
        _ ≤ c * 2 ^ q := by
            gcongr
            · exact one_le_two
            · omega
  · rw [min_eq_right hinfinite]
    rfl

end Word
end Relational.Binary
