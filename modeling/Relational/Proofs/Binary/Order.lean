import Relational.Proofs.Binary.Exactness

/-!
# The order of words

Finite words are ordered as the numbers that they stand for, and rounding keeps the order: of two
integers the greater does not become the lesser word.
-/
namespace Relational.Binary
variable {f : Format} {u v c d num den num' den' : Nat}

/-! Words by their significands and exponents -/

theorem Format.Fits.carry (h : f.Fits u c) (h' : f.Fits v d) (huv : u < v) :
    u * 2 ^ f.fraction + c < v * 2 ^ f.fraction + d ∧ c * 2 ^ u < d * 2 ^ v := by
  have hleading := h'.leading.resolve_left (Nat.ne_zero_of_lt huv)
  have hbits := h.significand
  constructor
  · have hstep : (u + 1) * 2 ^ f.fraction ≤ v * 2 ^ f.fraction := Nat.mul_le_mul_right _ huv
    rw [Nat.add_one_mul] at hstep
    rw [pow_succ] at hbits
    omega
  · calc c * 2 ^ u < 2 ^ (f.fraction + 1) * 2 ^ u := Nat.mul_lt_mul_of_pos_right hbits (by positivity)
      _ = 2 ^ f.fraction * 2 ^ (u + 1) := by ring
      _ ≤ d * 2 ^ v := Nat.mul_le_mul hleading (Nat.pow_le_pow_right two_pos huv)

theorem Format.Fits.le_iff (h : f.Fits u c) (h' : f.Fits v d) :
    u * 2 ^ f.fraction + c ≤ v * 2 ^ f.fraction + d ↔ c * 2 ^ u ≤ d * 2 ^ v := by
  rcases Nat.lt_trichotomy u v with hlt | rfl | hgt
  · exact iff_of_true (h.carry h' hlt).1.le (h.carry h' hlt).2.le
  · rw [Nat.add_le_add_iff_left, Nat.mul_le_mul_right_iff (by positivity)]
  · exact iff_of_false (h'.carry h hgt).1.not_ge (h'.carry h hgt).2.not_ge

theorem Format.Fits.eq_zero_iff (h : f.Fits u c) :
    u * 2 ^ f.fraction + c = 0 ↔ c * 2 ^ u = 0 := by
  have hzero : f.Fits 0 0 := ⟨by positivity, .inl rfl, by have := h.finite; omega⟩
  have hle := h.le_iff hzero
  simp only [Nat.zero_mul, Nat.add_zero, Nat.le_zero] at hle
  exact hle

namespace Word
variable {x y : Word f} {s t : Bool} {e k : Int}

theorem value_of_fits (s : Bool) (u c : Nat) :
    (Datum.finite s c (f.leastExponent + u)).value =
      (signedInt s (c * 2 ^ u) : ℚ) * 2 ^ f.leastExponent := by
  have hpow : (2 : ℚ) ^ (f.leastExponent + u) = 2 ^ u * 2 ^ f.leastExponent := by
    rw [zpow_add₀ two_ne_zero, zpow_natCast, mul_comm]
  cases s <;> simp [Datum.value, signedInt, hpow, mul_assoc]

theorem compare?_swap (x y : Word f) : y.compare? x = (x.compare? y).map Ordering.swap := by
  rw [compare?, compare?, Bool.or_comm]
  split
  · rfl
  · rw [Option.map_some, ← Std.OrientedOrd.eq_swap]

theorem compare?_eq_some {o : Ordering} : x.compare? y = some o ↔
    (x.isNaN = false ∧ y.isNaN = false) ∧ compare x.rank y.rank = o := by
  cases hx : x.isNaN <;> cases hy : y.isNaN <;> simp [compare?, hx, hy]

theorem rank_eq_of_compare? (h : x.compare? y = some .eq) : x.rank = y.rank :=
  compare_eq_iff_eq.1 (compare?_eq_some.1 h).2

theorem eq_or_zero_of_compare? (h : x.compare? y = some .eq) :
    x = y ∨ ∃ s, x = zero s ∧ y = zero !s := by
  have hrank := rank_eq_of_compare? h
  obtain ⟨s, m, hm, rfl⟩ := exists_ofNat x
  obtain ⟨t, k, hk, rfl⟩ := exists_ofNat y
  rw [rank_ofNat hm, rank_ofNat hk] at hrank
  by_cases hst : s = t
  · subst hst
    refine .inl (congrArg _ ?_)
    cases s <;> simp only [Bool.false_eq_true, if_false, if_true] at hrank <;> omega
  · obtain rfl : t = !s := by cases s <;> cases t <;> first | rfl | exact absurd rfl hst
    have hzero : m = 0 ∧ k = 0 := by
      cases s <;> simp only [Bool.not_false, Bool.not_true, Bool.false_eq_true, if_false, if_true]
        at hrank <;> omega
    rw [hzero.1, hzero.2]
    exact .inr ⟨s, rfl, rfl⟩

theorem rank_le_iff (hx : x.datum = .finite s c e) (hy : y.datum = .finite t d k) :
    x.rank ≤ y.rank ↔ x.datum.value ≤ y.datum.value := by
  rw [hx, hy]
  obtain ⟨u, hu, rfl, rfl⟩ := exists_fits hx
  obtain ⟨v, hv, rfl, rfl⟩ := exists_fits hy
  have hle := hu.le_iff hv
  have hge := hv.le_iff hu
  have hzero := hu.eq_zero_iff
  have hzero' := hv.eq_zero_iff
  rw [rank_ofNat (hu.finite.trans (infinity_lt_signBit f)),
    rank_ofNat (hv.finite.trans (infinity_lt_signBit f)), value_of_fits, value_of_fits,
    mul_le_mul_iff_left₀ (by positivity), Int.cast_le]
  cases s <;> cases t <;> simp only [signedInt, Bool.false_eq_true, if_true, if_false] <;> omega

theorem compare?_eq (hx : x.datum = .finite s c e) (hy : y.datum = .finite t d k) :
    x.compare? y = some (compare x.datum.value y.datum.value) := by
  have hle := rank_le_iff hx hy
  have hge := rank_le_iff hy hx
  refine compare?_eq_some.2 ⟨by simp [isNaN, hx, hy], ?_⟩
  rcases lt_trichotomy x.datum.value y.datum.value with hlt | heq | hgt
  · rw [compare_lt_iff_lt.2 hlt, compare_lt_iff_lt, ← not_le, hge, not_le]
    exact hlt
  · rw [compare_eq_iff_eq.2 heq, compare_eq_iff_eq]
    exact le_antisymm (hle.2 heq.le) (hge.2 heq.ge)
  · rw [compare_gt_iff_gt.2 hgt, compare_gt_iff_gt, ← not_le, hle, not_le]
    exact hgt

theorem le_iff_value (hx : x.datum = .finite s c e) (hy : y.datum = .finite t d k) :
    x.le y = true ↔ x.datum.value ≤ y.datum.value := by
  rw [le, lt, compare?_eq hx hy, ← compare_le_iff_le]
  cases compare x.datum.value y.datum.value <;> decide

end Word

/-! Rounding -/

theorem div_le_div_of_mul_le (hden : 0 < den) (hden' : 0 < den') (h : num * den' ≤ num' * den) :
    num / den ≤ num' / den' := by
  rw [Nat.le_div_iff_mul_le hden']
  refine Nat.le_of_mul_le_mul_right ?_ hden
  calc num / den * den' * den = num / den * den * den' := by ring
    _ ≤ num * den' := Nat.mul_le_mul_right _ (Nat.div_mul_le_self num den)
    _ ≤ num' * den := h

theorem nearestQuotient_mono (hden : 0 < den) (hden' : 0 < den') (h : num * den' ≤ num' * den) :
    nearestQuotient num den ≤ nearestQuotient num' den' := by
  rcases (div_le_div_of_mul_le hden hden' h).lt_or_eq with hlt | heq
  · calc nearestQuotient num den ≤ num / den + 1 := nearestQuotient_le num den
      _ ≤ num' / den' := hlt
      _ ≤ nearestQuotient num' den' := le_nearestQuotient num' den'
  have hrest : num % den * den' ≤ num' % den' * den := by
    have hnum : num * den' = num' / den' * (den * den') + num % den * den' := by
      conv_lhs => rw [← Nat.div_add_mod num den, heq]
      ring
    have hnum' : num' * den = num' / den' * (den * den') + num' % den' * den := by
      conv_lhs => rw [← Nat.div_add_mod num' den']
      ring
    rw [hnum, hnum'] at h
    exact Nat.le_of_add_le_add_left h
  unfold nearestQuotient
  dsimp only
  rw [heq]
  by_cases hup : den' < 2 * (num' % den') ∨ 2 * (num' % den') = den' ∧ num' / den' % 2 = 1
  · rw [if_pos hup]
    split <;> omega
  · -- the greater quotient is below half, or at half and even, and so is the lesser one
    have hbelow : 2 * (num' % den') * den ≤ den' * den := Nat.mul_le_mul_right _ (by omega)
    rw [if_neg hup, if_neg]
    rintro (habove | ⟨hhalf, hodd⟩)
    · have := Nat.mul_lt_mul_of_pos_right habove hden'
      linarith
    · have hhalf' : den' * den ≤ 2 * (num' % den') * den := by
        have : den * den' = 2 * (num % den) * den' := by rw [hhalf]
        linarith
      have := Nat.le_of_mul_le_mul_right hhalf' hden
      omega

theorem scaleUp_mul_le (h : num * den' ≤ num' * den) (q : Int) :
    scaleUp num (-q) * scaleUp den' q ≤ scaleUp num' (-q) * scaleUp den q := by
  have hpow : 0 < 2 ^ (-q).toNat * 2 ^ q.toNat := by positivity
  simp only [scaleUp, Nat.pow_eq]
  calc num * 2 ^ (-q).toNat * (den' * 2 ^ q.toNat)
      = num * den' * (2 ^ (-q).toNat * 2 ^ q.toNat) := by ring
    _ ≤ num' * den * (2 ^ (-q).toNat * 2 ^ q.toNat) := Nat.mul_le_mul_right _ h
    _ = num' * 2 ^ (-q).toNat * (den * 2 ^ q.toNat) := by ring

theorem exponent_mono {bits : Nat} {q q' : Int} (hden : 0 < den) (hden' : 0 < den')
    (h : num * den' ≤ num' * den) (hbits : 2 ^ bits ≤ scaleUp num (-q) / scaleUp den q)
    (hbits' : scaleUp num' (-q') / scaleUp den' q' < 2 ^ (bits + 1)) : q ≤ q' := by
  by_contra hlt
  refine hbits'.not_ge ((le_quotient hden').2 ?_)
  have hquotient : (num : ℚ) / den ≤ num' / den' := by
    rw [div_le_div_iff₀ (by positivity) (by positivity)]
    exact_mod_cast h
  calc ((2 ^ (bits + 1) : Nat) : ℚ) = (2 ^ bits : Nat) * 2 := by push_cast; ring
    _ ≤ num / den * 2 ^ (-q) * 2 := by
        gcongr
        exact (le_quotient hden).1 hbits
    _ = num / den * 2 ^ (-q + 1) := by rw [zpow_add_one₀ two_ne_zero, mul_assoc]
    _ ≤ num' / den' * 2 ^ (-q') := by
        gcongr
        · exact one_le_two
        · omega

/-- The magnitude of a greater quotient is not less. -/
theorem magnitude_mono (f : Format) (hden : 0 < den) (hden' : 0 < den')
    (h : num * den' ≤ num' * den) : f.magnitude num den ≤ f.magnitude num' den' := by
  rcases Nat.eq_zero_or_pos num with rfl | hnum
  · rw [Format.magnitude, if_pos rfl]
    exact Nat.zero_le _
  have hnum' : 0 < num' := Nat.pos_of_mul_pos_right (h.trans_lt' (Nat.mul_pos hnum hden'))
  obtain ⟨u, q, hq, hmagnitude, hlt, hnormal⟩ := magnitude_eq f hnum.ne' hden.ne'
  obtain ⟨v, q', hq', hmagnitude', hlt', hnormal'⟩ := magnitude_eq f hnum'.ne' hden'.ne'
  rw [hmagnitude, hmagnitude']
  refine min_le_min_right _ ?_
  have huv : u ≤ v := by
    rcases hnormal with rfl | hbits
    · exact Nat.zero_le v
    · have := exponent_mono hden hden' h hbits hlt'
      omega
  rcases huv.lt_or_eq with hless | rfl
  · have hbits := hnormal'.resolve_left (Nat.ne_zero_of_lt hless)
    have hceiling := nearestQuotient_le (scaleUp num (-q)) (scaleUp den q)
    have hfloor := le_nearestQuotient (scaleUp num' (-q')) (scaleUp den' q')
    have hstep : (u + 1) * 2 ^ f.fraction ≤ v * 2 ^ f.fraction := Nat.mul_le_mul_right _ hless
    rw [Nat.add_one_mul] at hstep
    rw [pow_succ] at hlt
    omega
  · obtain rfl : q = q' := hq.trans hq'.symm
    exact Nat.add_le_add_left (nearestQuotient_mono (scaleUp_pos hden q) (scaleUp_pos hden' q)
      (scaleUp_mul_le h q)) _

namespace Word
variable {x y : Word f} {s : Bool} {e m n : Int}

theorem rank_round (s : Bool) (num den : Nat) :
    (round s num den : Word f).rank =
      if s then -(f.magnitude num den : Int) else f.magnitude num den :=
  rank_ofNat ((magnitude_le_infinity num den).trans_lt (infinity_lt_signBit f))

theorem rank_ofInt (v : Int) :
    (ofInt v : Word f).rank =
      if v < 0 then -(f.magnitude v.natAbs 1 : Int) else f.magnitude v.natAbs 1 := by
  rw [ofInt_eq_round, rank_round]
  simp only [decide_eq_true_eq]

theorem isNaN_ofNat {m : Nat} {s : Bool} (h : m ≤ f.infinity) : (ofNat f s m).isNaN = false := by
  have hdiv := Nat.div_add_mod' m (2 ^ f.fraction)
  rw [infinity_eq] at h
  rw [isNaN, datum_ofNat (h.trans_lt (infinity_lt_signBit f))]
  by_cases hfield : m / 2 ^ f.fraction = 2 ^ f.exponent - 1
  · rw [hfield] at hdiv
    rw [if_pos hfield, if_pos (by omega)]
  · rw [if_neg hfield]
    by_cases hzero : m / 2 ^ f.fraction = 0
    · rw [if_pos hzero]
    · rw [if_neg hzero]

theorem isNaN_ofInt (v : Int) : (ofInt v : Word f).isNaN = false := by
  rw [ofInt_eq_round]
  exact isNaN_ofNat (magnitude_le_infinity _ _)

theorem rank_ofInt_mono (h : m ≤ n) : (ofInt m : Word f).rank ≤ (ofInt n : Word f).rank := by
  have hup : m.natAbs ≤ n.natAbs → f.magnitude m.natAbs 1 ≤ f.magnitude n.natAbs 1 :=
    fun h => magnitude_mono f one_pos one_pos (Nat.mul_le_mul_right 1 h)
  have hdown : n.natAbs ≤ m.natAbs → f.magnitude n.natAbs 1 ≤ f.magnitude m.natAbs 1 :=
    fun h => magnitude_mono f one_pos one_pos (Nat.mul_le_mul_right 1 h)
  rw [rank_ofInt, rank_ofInt]
  split <;> split <;> omega

theorem value_ofInt (hf : f.fraction + 3 ≤ f.bias) (h : n.natAbs ≤ 2 ^ (f.fraction + 1)) :
    ∃ s c e, (ofInt n : Word f).datum = .finite s c e ∧ (ofInt n : Word f).datum.value = n := by
  obtain ⟨c, e, hdatum, hvalue⟩ := datum_ofInt_exact hf h
  refine ⟨_, c, e, hdatum, ?_⟩
  rw [hdatum, Datum.value, hvalue]
  rcases lt_or_ge n 0 with hn | hn
  · rw [decide_eq_true hn, if_pos rfl, neg_one_mul, ← Int.cast_natCast,
      Int.ofNat_natAbs_of_nonpos hn.le, Int.cast_neg, neg_neg]
  · rw [decide_eq_false hn.not_gt, if_neg Bool.false_ne_true, one_mul, ← Int.cast_natCast,
      Int.natAbs_of_nonneg hn]

/-- An integer is not rounded to a word of another integer that words around it hold. -/
theorem eq_of_compare?_ofInt (hf : f.fraction + 3 ≤ f.bias)
    (hn : n.natAbs < 2 ^ (f.fraction + 1)) (hy : y.datum = .finite s c e) (hvalue : y.datum.value = n)
    (h : (ofInt m : Word f).compare? y = some .eq) : m = n := by
  have hrank := rank_eq_of_compare? h
  rcases lt_trichotomy m n with hlt | heq | hgt
  · obtain ⟨t, d, k, hbelow, hbelowValue⟩ := value_ofInt (n := n - 1) hf (by omega)
    have hm := rank_ofInt_mono (f := f) (Int.le_sub_one_of_lt hlt)
    have hle := (rank_le_iff hy hbelow).1 (hrank ▸ hm)
    rw [hvalue, hbelowValue, Int.cast_le] at hle
    omega
  · exact heq
  · obtain ⟨t, d, k, habove, haboveValue⟩ := value_ofInt (n := n + 1) hf (by omega)
    have hm := rank_ofInt_mono (f := f) (Int.add_one_le_of_lt hgt)
    have hle := (rank_le_iff habove hy).1 (hrank ▸ hm)
    rw [hvalue, haboveValue, Int.cast_le] at hle
    omega

end Word
end Relational.Binary
