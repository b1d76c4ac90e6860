import Relational.Proofs.Binary.Rounding

/-!
# Exact words

A word is a sign and a magnitude, and the magnitude of a finite one is a significand and an exponent
that fit its format. Rounding leaves what fits as it is, so that a single has its value as a double
and comes back from there.
-/
namespace Relational.Binary
variable {f : Format} {u c m num den : Nat} {s : Bool} {e : Int}

/-- A significand and an exponent above the least one, as the finite words of the format have them. -/
structure Format.Fits (f : Format) (u c : Nat) : Prop where
  significand : c < 2 ^ (f.fraction + 1)
  leading : u = 0 ∨ 2 ^ f.fraction ≤ c
  finite : u * 2 ^ f.fraction + c < f.infinity

theorem infinity_eq (f : Format) : f.infinity = (2 ^ f.exponent - 1) * 2 ^ f.fraction := rfl

theorem signBit_eq (f : Format) : f.signBit = 2 ^ f.exponent * 2 ^ f.fraction := by
  rw [Format.signBit, Nat.pow_eq, Nat.add_comm, Nat.pow_add]

theorem two_pow_width (f : Format) : 2 ^ f.width = 2 * f.signBit := by
  rw [Format.width, Nat.pow_succ, Nat.mul_comm]
  rfl

theorem infinity_add_lt_signBit {p : Nat} (hp : p < 2 ^ f.fraction) :
    f.infinity + p < f.signBit := by
  have hle := Nat.le_mul_of_pos_left (2 ^ f.fraction) (Nat.two_pow_pos f.exponent)
  rw [infinity_eq, signBit_eq, Nat.sub_mul, Nat.one_mul]
  omega

theorem infinity_lt_signBit (f : Format) : f.infinity < f.signBit :=
  infinity_add_lt_signBit (Nat.two_pow_pos _)

namespace Format
variable {g : Format} {p : Nat}

theorem payload_pos (f g : Format) (p : Nat) : 0 < f.payload g p := by
  rw [payload]
  split
  · exact Nat.two_pow_pos _
  next hkept => exact Nat.pos_of_ne_zero hkept

theorem payload_lt (hg : 0 < g.fraction) (hp : p < 2 ^ f.fraction) :
    f.payload g p < 2 ^ g.fraction := by
  rw [payload]
  split
  · exact Nat.pow_lt_pow_right one_lt_two (Nat.sub_lt hg one_pos)
  · rw [Nat.pow_eq, Nat.pow_eq, Nat.div_lt_iff_lt_mul (Nat.two_pow_pos _), Nat.mul_comm]
    exact Nat.mul_lt_mul_of_pos_left hp (Nat.two_pow_pos _)

theorem payload_of_le (h : f.fraction ≤ g.fraction) (hpos : 0 < p) :
    f.payload g p = p * 2 ^ (g.fraction - f.fraction) := by
  have hkept : p * 2 ^ g.fraction / 2 ^ f.fraction = p * 2 ^ (g.fraction - f.fraction) := by
    rw [Nat.mul_div_assoc _ (Nat.pow_dvd_pow 2 h), Nat.pow_div h two_pos]
  rw [payload, Nat.pow_eq, Nat.pow_eq, hkept, if_neg (by positivity)]

theorem payload_payload (h : f.fraction ≤ g.fraction) (hpos : 0 < p) :
    g.payload f (f.payload g p) = p := by
  have hback : p * 2 ^ (g.fraction - f.fraction) * 2 ^ f.fraction / 2 ^ g.fraction = p := by
    rw [Nat.mul_assoc, ← Nat.pow_add, Nat.sub_add_cancel h,
      Nat.mul_div_cancel _ (Nat.two_pow_pos _)]
  rw [payload_of_le h hpos, payload, Nat.pow_eq, Nat.pow_eq, hback, if_neg hpos.ne']

end Format

theorem Format.Fits.zero (h : f.Fits u 0) : u = 0 :=
  h.leading.resolve_right (Nat.not_le.2 (Nat.two_pow_pos _))

/-- The exponent of what fits is the one that leaves as many bits as the format has. -/
theorem exponent_of_fits {v n : Nat} (h : f.Fits u c) (hlt : n < 2 ^ (f.fraction + 1))
    (hnormal : v = 0 ∨ 2 ^ f.fraction ≤ n)
    (hfloor : ∀ k, k ≤ n ↔ (k : ℚ) ≤ c * 2 ^ ((u : Int) - v)) : v = u := by
  rcases Nat.lt_trichotomy v u with hlow | heq | hhigh
  · have hbits := h.leading.resolve_left (Nat.ne_zero_of_lt hlow)
    refine absurd ((hfloor (2 ^ (f.fraction + 1))).2 ?_) (Nat.not_le.2 hlt)
    calc ((2 ^ (f.fraction + 1) : Nat) : ℚ) = (2 ^ f.fraction : Nat) * 2 ^ (1 : Int) := by
          push_cast
          ring
      _ ≤ c * 2 ^ ((u : Int) - v) := by
          gcongr
          · exact one_le_two
          · omega
  · exact heq
  · have hbits := (hfloor _).1 (hnormal.resolve_left (Nat.ne_zero_of_lt hhigh))
    have hhalf : (c : ℚ) * 2 ^ ((u : Int) - v) ≤ c * 2 ^ (-1 : Int) := by
      gcongr
      · exact one_le_two
      · omega
    have htwice : ((2 ^ (f.fraction + 1) : Nat) : ℚ) ≤ c := by
      push_cast at hbits ⊢
      rw [pow_succ]
      norm_num at hhalf
      linarith
    exact absurd h.significand (Nat.not_lt.2 (Nat.cast_le.1 htwice))

theorem magnitude_of_fits (h : f.Fits u c) (hden : den ≠ 0)
    (hvalue : (num : ℚ) / den = c * 2 ^ (f.leastExponent + u)) :
    f.magnitude num den = u * 2 ^ f.fraction + c := by
  have hden' : (den : ℚ) ≠ 0 := Nat.cast_ne_zero.2 hden
  by_cases hc : c = 0
  · subst hc
    obtain rfl : num = 0 := by simpa [hden] using hvalue
    rw [h.zero, Format.magnitude, if_pos rfl, Nat.zero_mul]
  have hnum : num ≠ 0 := by
    rintro rfl
    have hpow : (2 : ℚ) ^ (f.leastExponent + u) ≠ 0 := zpow_ne_zero _ two_ne_zero
    simp [hc, hpow] at hvalue
  obtain ⟨v, q, hq, hmagnitude, hlt, hnormal⟩ := magnitude_eq f hnum hden
  have hquotient : (num : ℚ) / den * 2 ^ (-q) = c * 2 ^ ((u : Int) - v) := by
    rw [hvalue, hq, mul_assoc, ← zpow_add₀ two_ne_zero]
    congr 2
    omega
  obtain rfl : v = u := exponent_of_fits h hlt hnormal fun k => by
    rw [le_quotient (Nat.pos_of_ne_zero hden), hquotient]
  have hexact : scaleUp num (-q) = c * scaleUp den q := by
    have hpos : (scaleUp den q : ℚ) ≠ 0 :=
      Nat.cast_ne_zero.2 (scaleUp_pos (Nat.pos_of_ne_zero hden) q).ne'
    have hscaled := scaleUp_div_scaleUp num den q
    rw [hquotient, sub_self, zpow_zero, mul_one, div_eq_iff hpos] at hscaled
    exact_mod_cast hscaled
  rw [hmagnitude, hexact, nearestQuotient_mul c (scaleUp_pos (Nat.pos_of_ne_zero hden) q),
    min_eq_left h.finite.le]

theorem two_pow_exponent (h : 2 ≤ f.bias) : 2 ^ f.exponent = 2 * f.bias := by
  rw [Format.bias] at h ⊢
  cases hexp : f.exponent with
  | zero => simp [hexp] at h
  | succ w => rw [Nat.pow_eq, Nat.add_sub_cancel, pow_succ, mul_comm]

/-- A natural number of no more bits than a significand has fits the format, scaled or not. -/
theorem exists_fits_of_lt {n j : Nat} (hf : f.fraction + j + 2 ≤ f.bias) (hpos : 0 < n)
    (h : n < 2 ^ (f.fraction + 1)) : ∃ u c : Nat, f.Fits u c ∧
      (c : ℚ) * 2 ^ (f.leastExponent + u) = n * 2 ^ j := by
  have hlow := Nat.log2_self_le hpos.ne'
  have hhigh := Nat.lt_log2_self (n := n)
  have hlog : n.log2 < f.fraction + 1 := (Nat.log2_lt hpos.ne').2 h
  obtain ⟨k, hk⟩ : ∃ k, n.log2 + k = f.fraction := ⟨f.fraction - n.log2, by omega⟩
  obtain ⟨u, hu⟩ : ∃ u : Nat, f.leastExponent + u = j - k :=
    ⟨(j - k - f.leastExponent).toNat, by rw [Format.leastExponent]; omega⟩
  have hsignificand : n * 2 ^ k < 2 ^ (f.fraction + 1) := by
    have hsucc : n.log2 + 1 + k = f.fraction + 1 := by omega
    rw [← hsucc, pow_add]
    exact Nat.mul_lt_mul_of_pos_right hhigh (Nat.two_pow_pos k)
  refine ⟨u, n * 2 ^ k, ⟨hsignificand, .inr ?_, ?_⟩, ?_⟩
  · rw [← hk, pow_add]
    exact Nat.mul_le_mul_right _ hlow
  · rw [infinity_eq, two_pow_exponent (by omega)]
    rw [Format.leastExponent] at hu
    calc u * 2 ^ f.fraction + n * 2 ^ k < u * 2 ^ f.fraction + 2 * 2 ^ f.fraction := by
          rw [pow_succ] at hsignificand
          omega
      _ = (u + 2) * 2 ^ f.fraction := by ring
      _ ≤ (2 * f.bias - 1) * 2 ^ f.fraction := Nat.mul_le_mul_right _ (by omega)
  · rw [hu, sub_eq_add_neg, zpow_add₀ two_ne_zero, zpow_neg, zpow_natCast, zpow_natCast]
    push_cast
    field_simp

theorem exists_fits_of_le {n : Nat} (hf : f.fraction + 3 ≤ f.bias) (h : n ≤ 2 ^ (f.fraction + 1)) :
    ∃ u c : Nat, f.Fits u c ∧ (c : ℚ) * 2 ^ (f.leastExponent + u) = n := by
  rcases Nat.eq_zero_or_pos n with rfl | hpos
  · refine ⟨0, 0, ⟨by positivity, .inl rfl, ?_⟩, by simp⟩
    rw [infinity_eq, two_pow_exponent (by omega)]
    rw [Nat.zero_mul, Nat.add_zero]
    exact Nat.mul_pos (by omega) (Nat.two_pow_pos _)
  rcases h.lt_or_eq with hlt | rfl
  · obtain ⟨u, c, hfits, hvalue⟩ := exists_fits_of_lt (j := 0) (by omega) hpos hlt
    exact ⟨u, c, hfits, by rw [hvalue, pow_zero, mul_one]⟩
  · obtain ⟨u, c, hfits, hvalue⟩ := exists_fits_of_lt (n := 2 ^ f.fraction) (j := 1) (by omega)
      (by positivity) (Nat.pow_lt_pow_right one_lt_two (Nat.lt_succ_self _))
    exact ⟨u, c, hfits, by rw [hvalue, pow_one, pow_succ, Nat.cast_mul, Nat.cast_ofNat]⟩

namespace Word
variable {x : Word f}

theorem toNat_ofNat (hm : m < f.signBit) :
    (ofNat f s m).bits.toNat = if s then f.signBit + m else m := by
  have hwidth := two_pow_width f
  rw [ofNat, BitVec.toNat_ofNat, Nat.mod_eq_of_lt]
  cases s <;> simp only [Bool.false_eq_true, if_false, if_true] <;> omega

theorem exists_ofNat (x : Word f) : ∃ s m, m < f.signBit ∧ x = ofNat f s m := by
  have hwidth : x.bits.toNat < 2 * f.signBit := two_pow_width f ▸ x.bits.isLt
  by_cases hs : f.signBit ≤ x.bits.toNat
  · refine ⟨true, x.bits.toNat - f.signBit, by omega, ?_⟩
    rw [ofNat, if_pos rfl, Nat.add_sub_of_le hs, BitVec.ofNat_toNat, BitVec.setWidth_eq]
  · refine ⟨false, x.bits.toNat, by omega, ?_⟩
    rw [ofNat, if_neg Bool.false_ne_true, BitVec.ofNat_toNat, BitVec.setWidth_eq]

theorem rank_ofNat (hm : m < f.signBit) : (ofNat f s m).rank = if s then -(m : Int) else m := by
  rw [rank, toNat_ofNat hm]
  cases s with
  | false => exact if_neg (Nat.not_le.2 hm)
  | true => simp

theorem datum_ofNat (hm : m < f.signBit) :
    (ofNat f s m).datum =
      if m / 2 ^ f.fraction = 2 ^ f.exponent - 1 then
        if m % 2 ^ f.fraction = 0 then .infinite s else .nan s
      else if m / 2 ^ f.fraction = 0 then .finite s (m % 2 ^ f.fraction) f.leastExponent
      else .finite s (2 ^ f.fraction + m % 2 ^ f.fraction)
        (f.leastExponent + (m / 2 ^ f.fraction : Nat) - 1) := by
  have hfield : m / 2 ^ f.fraction < 2 ^ f.exponent :=
    Nat.div_lt_of_lt_mul (Nat.mul_comm _ _ ▸ signBit_eq f ▸ hm)
  have hsign : decide (f.signBit ≤ if s then f.signBit + m else m) = s := by
    cases s <;> simp [hm]
  have hfraction : (if s then f.signBit + m else m) % 2 ^ f.fraction = m % 2 ^ f.fraction := by
    cases s <;> simp [signBit_eq]
  have hexponent : (if s then f.signBit + m else m) / 2 ^ f.fraction % 2 ^ f.exponent =
      m / 2 ^ f.fraction := by
    cases s with
    | false => exact Nat.mod_eq_of_lt hfield
    | true =>
      rw [if_pos rfl, signBit_eq, Nat.add_comm, Nat.add_mul_div_right _ _ (Nat.two_pow_pos _),
        Nat.add_mod_right, Nat.mod_eq_of_lt hfield]
  simp only [datum, toNat_ofNat hm, Format.datum, Nat.pow_eq, hsign, hfraction, hexponent]

theorem datum_infinity (s : Bool) : (infinity s : Word f).datum = .infinite s := by
  rw [infinity, datum_ofNat (infinity_lt_signBit f), infinity_eq,
    Nat.mul_div_cancel _ (Nat.two_pow_pos _), if_pos rfl, Nat.mul_mod_left, if_pos rfl]

theorem eq_infinity (h : x.datum = .infinite s) : x = infinity s := by
  obtain ⟨t, m, hm, rfl⟩ := exists_ofNat x
  rw [datum_ofNat hm] at h
  split at h
  next hfield =>
    split at h
    next hfraction =>
      cases h
      have hdiv := Nat.div_add_mod m (2 ^ f.fraction)
      rw [infinity, infinity_eq, ← hdiv, hfield, hfraction, Nat.mul_comm, Nat.add_zero]
    · cases h
  · split at h <;> cases h

theorem datum_ofNat_nan {p : Nat} (hpos : 0 < p) (hp : p < 2 ^ f.fraction) :
    (ofNat f s (f.infinity + p)).datum = .nan s := by
  have hfraction := Nat.two_pow_pos f.fraction
  have hfield : (f.infinity + p) / 2 ^ f.fraction = 2 ^ f.exponent - 1 := by
    rw [infinity_eq, Nat.add_comm, Nat.add_mul_div_right _ _ hfraction, Nat.div_eq_of_lt hp,
      Nat.zero_add]
  have hpayload : (f.infinity + p) % 2 ^ f.fraction = p := by
    rw [infinity_eq, Nat.mul_add_mod_self_right, Nat.mod_eq_of_lt hp]
  rw [datum_ofNat (infinity_add_lt_signBit hp), if_pos hfield, hpayload, if_neg hpos.ne']

theorem exists_payload (h : x.datum = .nan s) :
    ∃ p, 0 < p ∧ p < 2 ^ f.fraction ∧ x = ofNat f s (f.infinity + p) := by
  obtain ⟨t, m, hm, rfl⟩ := exists_ofNat x
  rw [datum_ofNat hm] at h
  split at h
  next hfield =>
    split at h
    · cases h
    next hpayload =>
      cases h
      have hdiv := Nat.div_add_mod' m (2 ^ f.fraction)
      rw [hfield, ← infinity_eq] at hdiv
      exact ⟨_, Nat.pos_of_ne_zero hpayload, Nat.mod_lt _ (Nat.two_pow_pos _), by rw [hdiv]⟩
  · split at h <;> cases h

theorem datum_of_fits (h : f.Fits u c) :
    (ofNat f s (u * 2 ^ f.fraction + c)).datum = .finite s c (f.leastExponent + u) := by
  have hpos := Nat.two_pow_pos f.fraction
  have hfinite := h.finite
  have hlt : (u * 2 ^ f.fraction + c) / 2 ^ f.fraction < 2 ^ f.exponent - 1 :=
    (Nat.div_lt_iff_lt_mul hpos).2 hfinite
  rw [datum_ofNat (hfinite.trans (infinity_lt_signBit f)), if_neg hlt.ne]
  have hfield : (u * 2 ^ f.fraction + c) / 2 ^ f.fraction = u + c / 2 ^ f.fraction := by
    rw [Nat.add_comm, Nat.add_mul_div_right _ _ hpos, Nat.add_comm]
  rw [hfield, Nat.mul_add_mod_self_right]
  by_cases hsmall : c < 2 ^ f.fraction
  · obtain rfl := h.leading.resolve_right (Nat.not_le.2 hsmall)
    simp [Nat.div_eq_of_lt hsmall, Nat.mod_eq_of_lt hsmall]
  · have hone : c / 2 ^ f.fraction = 1 := by
      have := h.significand
      rw [pow_succ] at this
      rw [Nat.div_eq_of_lt_le] <;> omega
    have hrest : 2 ^ f.fraction + c % 2 ^ f.fraction = c := by
      have := Nat.div_add_mod c (2 ^ f.fraction)
      rwa [hone, Nat.mul_one] at this
    rw [if_neg (by omega), hrest, hone]
    congr 1
    push_cast
    ring

theorem exists_fits (h : x.datum = .finite s c e) :
    ∃ u, f.Fits u c ∧ e = f.leastExponent + u ∧ x = ofNat f s (u * 2 ^ f.fraction + c) := by
  obtain ⟨t, m, hm, rfl⟩ := exists_ofNat x
  have hpos := Nat.two_pow_pos f.fraction
  have hmod := Nat.mod_lt m hpos
  have hdiv := Nat.div_add_mod' m (2 ^ f.fraction)
  have htwo : 2 ^ (f.fraction + 1) = 2 ^ f.fraction + 2 ^ f.fraction := by rw [pow_succ, mul_two]
  have hfield : m / 2 ^ f.fraction < 2 ^ f.exponent :=
    Nat.div_lt_of_lt_mul (Nat.mul_comm _ _ ▸ signBit_eq f ▸ hm)
  rw [datum_ofNat hm] at h
  split at h
  · split at h <;> cases h
  next hnot =>
    have hfinite : m < f.infinity := by
      rw [infinity_eq]
      exact (Nat.div_lt_iff_lt_mul hpos).1 (by omega)
    split at h
    next hzero =>
      cases h
      rw [hzero, Nat.zero_mul, Nat.zero_add] at hdiv
      exact ⟨0, ⟨by omega, .inl rfl, by simpa [hdiv] using hfinite⟩, by simp, by simp [hdiv]⟩
    next hne =>
      cases h
      obtain ⟨u, hu⟩ := Nat.exists_eq_succ_of_ne_zero hne
      rw [hu, Nat.succ_mul, Nat.add_assoc] at hdiv
      refine ⟨u, ⟨by omega, .inr (Nat.le_add_right _ _), by rwa [hdiv]⟩, ?_, by rw [hdiv]⟩
      rw [hu]
      push_cast
      ring

theorem scaleUp_div_one (m : Nat) (e : Int) : (scaleUp m e : ℚ) / scaleUp 1 (-e) = m * 2 ^ e := by
  have hratio := scaleUp_div_scaleUp m 1 (-e)
  rwa [neg_neg, Nat.cast_one, div_one] at hratio

/-- Rounding to what a word stands for gives the word. -/
theorem round_of_datum (h : x.datum = .finite s c e) (hden : den ≠ 0)
    (hvalue : (num : ℚ) / den = c * 2 ^ e) : round s num den = x := by
  obtain ⟨u, hfits, rfl, rfl⟩ := exists_fits h
  rw [round, magnitude_of_fits hfits hden hvalue]

theorem ofInt_eq_round (n : Int) : (ofInt n : Word f) = round (decide (n < 0)) n.natAbs 1 := by
  rw [ofInt, ofScaled]
  split
  next hzero =>
    subst hzero
    simp [round, Format.magnitude, zero]
  · simp [scaleUp]

theorem datum_ofInt_exact {n : Int} (hf : f.fraction + 3 ≤ f.bias)
    (h : n.natAbs ≤ 2 ^ (f.fraction + 1)) :
    ∃ c e, (ofInt n : Word f).datum = .finite (decide (n < 0)) c e ∧ (c : ℚ) * 2 ^ e = n.natAbs := by
  obtain ⟨u, c, hfits, hvalue⟩ := exists_fits_of_le hf h
  refine ⟨c, f.leastExponent + u, ?_, hvalue⟩
  rw [ofInt_eq_round, round,
    magnitude_of_fits hfits one_ne_zero (by rw [hvalue, Nat.cast_one, div_one])]
  exact datum_of_fits hfits

theorem eq_of_value {y : Word f} {t : Bool} {d : Nat} {k : Int} (hx : x.datum = .finite s c e)
    (hy : y.datum = .finite t d k) (hvalue : x.datum.value = y.datum.value)
    (hne : y.datum.value ≠ 0) : x = y := by
  have hc : (0 : ℚ) ≤ c * 2 ^ e := by positivity
  have hd : (0 : ℚ) ≤ d * 2 ^ k := by positivity
  rw [hx, hy] at hvalue
  rw [hy] at hne
  have hsame : s = t ∧ (c : ℚ) * 2 ^ e = d * 2 ^ k := by
    cases s <;> cases t <;> simp only [Datum.value, Bool.false_eq_true, if_false, if_true, one_mul,
      neg_one_mul, neg_inj] at hvalue hne
    · exact ⟨rfl, hvalue⟩
    · exact absurd (by linarith : -((d : ℚ) * 2 ^ k) = 0) hne
    · exact absurd (by linarith : (d : ℚ) * 2 ^ k = 0) hne
    · exact ⟨rfl, hvalue⟩
  obtain ⟨rfl, hmagnitude⟩ := hsame
  have hden : scaleUp 1 (-e) ≠ 0 := (scaleUp_pos one_pos _).ne'
  rw [← round_of_datum hx hden (scaleUp_div_one c e),
    ← round_of_datum hy hden ((scaleUp_div_one c e).trans hmagnitude)]

theorem eq_zero (h : x.datum = .finite s 0 e) : x = zero s := by
  obtain ⟨u, hfits, -, rfl⟩ := exists_fits h
  rw [hfits.zero, Nat.zero_mul]
  rfl

theorem rank_infinity (s : Bool) :
    (infinity s : Word f).rank = if s then -(f.infinity : Int) else f.infinity :=
  rank_ofNat (infinity_lt_signBit f)

theorem eq_infinity_of_rank {x : Word double} (hx : x.isNaN = false)
    (h : if s then x.rank ≤ (infinity s : Word double).rank
      else (infinity s : Word double).rank ≤ x.rank) : x = infinity s := by
  have hpos : 0 < double.infinity := by decide
  rw [rank_infinity] at h
  cases hdatum : x.datum with
  | nan t => simp [isNaN, hdatum] at hx
  | infinite t =>
    obtain rfl := eq_infinity hdatum
    rw [rank_infinity] at h
    cases s <;> cases t <;> simp only [if_true, Bool.false_eq_true, if_false] at h ⊢ <;> omega
  | finite t c e =>
    obtain ⟨u, hfits, -, rfl⟩ := exists_fits hdatum
    have hfinite := hfits.finite
    rw [rank_ofNat (hfinite.trans (infinity_lt_signBit double))] at h
    cases s <;> cases t <;> simp only [if_true, Bool.false_eq_true, if_false] at h <;> omega

/-- What fits single precision fits double precision, with more bits of the significand set. -/
theorem exists_fits_double (h : single.Fits u c) : ∃ v d, double.Fits v d ∧
    (d : ℚ) * 2 ^ (double.leastExponent + v) = c * 2 ^ (single.leastExponent + u) := by
  obtain ⟨hsignificand, -, hfinite⟩ := h
  have hsingle : single.fraction = 23 ∧ single.leastExponent = -149 ∧
      single.infinity = 255 * 2 ^ 23 := ⟨rfl, rfl, rfl⟩
  have hdouble : double.fraction = 52 ∧ double.leastExponent = -1074 ∧
      double.infinity = 2047 * 2 ^ 52 := ⟨rfl, rfl, rfl⟩
  simp only [hsingle] at hsignificand hfinite ⊢
  by_cases hc : c = 0
  · subst hc
    exact ⟨0, 0, ⟨by simp, .inl rfl, by simp [hdouble]⟩, by simp⟩
  have hlow := Nat.log2_self_le hc
  have hhigh := Nat.lt_log2_self (n := c)
  have hlog : c.log2 < 24 := (Nat.log2_lt hc).2 hsignificand
  obtain ⟨k, hk⟩ : ∃ k, c.log2 + k = 52 := ⟨52 - c.log2, by omega⟩
  have hleading : 2 ^ 52 ≤ c * 2 ^ k := by
    rw [← hk, pow_add]
    exact Nat.mul_le_mul_right _ hlow
  have hbits : c * 2 ^ k < 2 ^ 53 := by
    have hsucc : c.log2 + 1 + k = 53 := by omega
    rw [← hsucc, pow_add]
    exact Nat.mul_lt_mul_of_pos_right hhigh (Nat.two_pow_pos k)
  refine ⟨u + 925 - k, c * 2 ^ k, ⟨?_, .inr ?_, ?_⟩, ?_⟩
  · simpa only [hdouble] using hbits
  · simpa only [hdouble] using hleading
  · simp only [hdouble]
    have hu : u < 255 := by omega
    clear hfinite
    omega
  · have hexponent : (k : Int) + (double.leastExponent + (u + 925 - k : Nat)) = -149 + u := by
      rw [hdouble.2.1]
      omega
    rw [Nat.cast_mul, Nat.cast_pow, Nat.cast_ofNat, mul_assoc, ← zpow_natCast,
      ← zpow_add₀ two_ne_zero, hexponent]

theorem datum_convert_double {x : Word single} (h : x.datum = .finite s c e) :
    ∃ d k, (x.convert double).datum = .finite s d k ∧ (d : ℚ) * 2 ^ k = c * 2 ^ e := by
  obtain ⟨u, hfits, rfl, hx⟩ := exists_fits h
  obtain ⟨v, d, hdouble, hvalue⟩ := exists_fits_double hfits
  refine ⟨d, _, ?_, hvalue⟩
  rw [convert, h]
  dsimp only
  rw [round, magnitude_of_fits hdouble (scaleUp_pos one_pos _).ne'
    ((scaleUp_div_one c _).trans hvalue.symm)]
  exact datum_of_fits hdouble

theorem convert_ofNat_nan {p : Nat} (hpos : 0 < p) (hp : p < 2 ^ f.fraction) (g : Format) :
    (ofNat f s (f.infinity + p)).convert g = ofNat g s (g.infinity + f.payload g p) := by
  have hpayload : (ofNat f s (f.infinity + p)).bits.toNat % Nat.pow 2 f.fraction = p := by
    rw [toNat_ofNat (infinity_add_lt_signBit hp), signBit_eq, infinity_eq, Nat.pow_eq]
    cases s <;> simp [Nat.mod_eq_of_lt hp]
  rw [convert, datum_ofNat_nan hpos hp, hpayload]

theorem datum_convert_nan {g : Format} (hg : 0 < g.fraction) (h : x.datum = .nan s) :
    (x.convert g).datum = .nan s := by
  obtain ⟨p, hpos, hp, rfl⟩ := exists_payload h
  rw [convert_ofNat_nan hpos hp]
  exact datum_ofNat_nan (Format.payload_pos f g p) (Format.payload_lt hg hp)

theorem datum_convert_infinite {g : Format} (h : x.datum = .infinite s) :
    (x.convert g).datum = .infinite s := by
  rw [convert, h]
  exact datum_infinity s

theorem eq_infinity_of_convert {x : Word single} (h : x.convert double = infinity s) :
    x = infinity s := by
  have hwide := congrArg datum h
  rw [datum_infinity] at hwide
  cases hdatum : x.datum with
  | nan t =>
    rw [datum_convert_nan (by decide) hdatum] at hwide
    cases hwide
  | infinite t =>
    rw [datum_convert_infinite hdatum] at hwide
    cases hwide
    exact eq_infinity hdatum
  | finite t c e =>
    obtain ⟨d, k, hfinite, -⟩ := datum_convert_double hdatum
    rw [hfinite] at hwide
    cases hwide

/-- A single is recovered from the double. -/
theorem convert_single_double (x : Word single) : (x.convert double).convert single = x := by
  cases hdatum : x.datum with
  | nan s =>
    obtain ⟨p, hpos, hp, rfl⟩ := exists_payload hdatum
    have hlt := Format.payload_lt (g := double) (by decide) hp
    rw [convert_ofNat_nan hpos hp, convert_ofNat_nan (Format.payload_pos _ _ _) hlt,
      Format.payload_payload (by decide) hpos]
  | infinite s =>
    rw [convert, datum_convert_infinite hdatum, eq_infinity hdatum]
  | finite s c e =>
    obtain ⟨d, k, hwide, hvalue⟩ := datum_convert_double hdatum
    rw [convert, hwide]
    exact round_of_datum hdatum (scaleUp_pos one_pos _).ne' ((scaleUp_div_one d k).trans hvalue)

end Word
end Relational.Binary
