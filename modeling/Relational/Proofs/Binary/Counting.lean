import Relational.Proofs.Binary.Exactness

/-!
# Counting in doubles

Sums, differences, products and comparisons of doubles that are not less than some natural numbers
of up to 53 bits.
-/
namespace Relational.Binary.Word
variable {x y : Word double} {a b : ℚ} {n : Nat}

theorem AtLeast.mono (h : x.AtLeast a) (hb : b ≤ a) : x.AtLeast b := by
  unfold AtLeast Datum.AtLeast at *
  split at h
  · exact h
  · exact h
  · exact hb.trans h

theorem infinity_atLeast (a : ℚ) : (infinity false : Word double).AtLeast a := rfl

theorem zero_atLeast (negative : Bool) : (zero negative : Word double).AtLeast 0 := by
  have hzero : (zero negative : Word double).datum = .finite negative 0 (-1074) := by
    cases negative <;> rfl
  simp [AtLeast, hzero, Datum.AtLeast, Datum.value]

theorem ofScaled_atLeast {v e : Int} {zeroSign : Bool} (hn : n ≤ 2 ^ 53) (h : (n : ℚ) ≤ v * 2 ^ e) :
    (ofScaled v e zeroSign : Word double).AtLeast n := by
  have hpow : (0 : ℚ) < 2 ^ e := by positivity
  unfold ofScaled
  split
  next hv =>
    subst hv
    exact (zero_atLeast zeroSign).mono (by simpa using h)
  next hv =>
    have hv : 0 < v := by
      have : (0 : ℚ) ≤ v := nonneg_of_mul_nonneg_left (n.cast_nonneg.trans h) hpow
      have : 0 ≤ v := by exact_mod_cast this
      omega
    have hratio := scaleUp_div_scaleUp v.natAbs 1 (-e)
    rw [neg_neg] at hratio
    have hone : scaleUp 1 (-e) ≠ 0 := (scaleUp_pos one_pos _).ne'
    rw [decide_eq_false (by omega)]
    refine round_atLeast hone hn ?_
    rw [hratio, Nat.cast_natAbs, abs_of_pos hv]
    simpa using h

theorem ofInt_atLeast {v : Int} (hn : n ≤ 2 ^ 53) (h : (n : Int) ≤ v) :
    (ofInt v : Word double).AtLeast n := by
  refine ofScaled_atLeast hn ?_
  rw [zpow_zero, mul_one]
  exact_mod_cast h

theorem AtLeast.positive (h : x.AtLeast a) (ha : 0 < a) :
    x.datum = .infinite false ∨
      ∃ m e, x.datum = .finite false m e ∧ 0 < m ∧ a ≤ (m : ℚ) * 2 ^ e := by
  unfold AtLeast Datum.AtLeast at h
  split at h
  · exact h.elim
  next negative hx => exact .inl (h ▸ hx)
  next negative m e hx =>
    simp only [Datum.value] at h
    cases negative with
    | true =>
      have : (0 : ℚ) ≤ m * 2 ^ e := by positivity
      simp only [if_true] at h
      linarith
    | false =>
      simp only [Bool.false_eq_true, if_false, one_mul] at h
      refine .inr ⟨m, e, hx, Nat.pos_of_ne_zero fun hm => ?_, h⟩
      rw [hm, Nat.cast_zero, zero_mul] at h
      exact ha.not_ge h

theorem signedInt_scaleUp (negative : Bool) (m : Nat) {e low : Int} (h : low ≤ e) :
    (signedInt negative (scaleUp m (e - low)) : ℚ) * 2 ^ low =
      (Datum.finite negative m e).value := by
  have hpow : (2 : ℚ) ^ (e - low).toNat * 2 ^ low = 2 ^ e := by
    rw [← zpow_natCast, ← zpow_add₀ two_ne_zero]
    congr 1
    omega
  cases negative <;> simp [signedInt, Datum.value, scaleUp_cast, mul_assoc, hpow]

theorem AtLeast.add (hx : x.AtLeast a) (hy : y.AtLeast b) (hn : n ≤ 2 ^ 53) (h : (n : ℚ) ≤ a + b) :
    (x + y).AtLeast n := by
  change (x.add y).AtLeast n
  unfold AtLeast at hx hy
  unfold Word.add
  cases hdx : x.datum with
  | nan s => simp [hdx, Datum.AtLeast] at hx
  | infinite s =>
    obtain rfl : s = false := by simpa [hdx, Datum.AtLeast] using hx
    cases hdy : y.datum with
    | nan t => simp [hdy, Datum.AtLeast] at hy
    | infinite t =>
      obtain rfl : t = false := by simpa [hdy, Datum.AtLeast] using hy
      exact infinity_atLeast _
    | finite t m e => exact infinity_atLeast _
  | finite s m e =>
    cases hdy : y.datum with
    | nan t => simp [hdy, Datum.AtLeast] at hy
    | infinite t =>
      obtain rfl : t = false := by simpa [hdy, Datum.AtLeast] using hy
      exact infinity_atLeast _
    | finite t k d =>
      rw [hdx, Datum.AtLeast] at hx
      rw [hdy, Datum.AtLeast] at hy
      refine ofScaled_atLeast hn ?_
      push_cast
      rw [add_mul, signedInt_scaleUp s m (min_le_left e d), signedInt_scaleUp t k (min_le_right e d)]
      exact h.trans (add_le_add hx hy)

theorem AtLeast.mul (hx : x.AtLeast a) (hy : y.AtLeast b) (ha : 0 < a) (hb : 0 < b)
    (hn : n ≤ 2 ^ 53) (h : (n : ℚ) ≤ a * b) : (x * y).AtLeast n := by
  change (x.mul y).AtLeast n
  unfold Word.mul
  rcases hx.positive ha with hdx | ⟨m, e, hdx, hm, hxa⟩ <;>
    rcases hy.positive hb with hdy | ⟨k, d, hdy, hk, hyb⟩ <;> simp only [hdx, hdy]
  · exact infinity_atLeast _
  · rw [if_neg hk.ne']
    exact infinity_atLeast _
  · rw [if_neg hm.ne']
    exact infinity_atLeast _
  · have hratio := scaleUp_div_scaleUp (m * k) 1 (-(e + d))
    rw [neg_neg] at hratio
    refine round_atLeast (scaleUp_pos one_pos _).ne' hn ?_
    rw [hratio, zpow_add₀ two_ne_zero]
    calc (n : ℚ) ≤ a * b := h
      _ ≤ (m * 2 ^ e) * (k * 2 ^ d) := by gcongr
      _ = (m * k : Nat) / (1 : Nat) * (2 ^ e * 2 ^ d) := by
          push_cast
          ring

theorem datum_ofInt (hn : n ≤ 2 ^ 53) :
    ∃ m e, (ofInt n : Word double).datum = .finite false m e ∧ (m : ℚ) * 2 ^ e = n := by
  obtain ⟨m, e, hdatum, hvalue⟩ := datum_ofInt_exact (f := double) (n := n) (by decide) hn
  exact ⟨m, e, by rw [hdatum, decide_eq_false (by omega)], hvalue⟩

theorem xor_signBit {bits : Nat} (h : bits < 2 ^ 63) : bits ^^^ 2 ^ 63 = bits + 2 ^ 63 := by
  have hmod : (bits ^^^ 2 ^ 63) % 2 ^ 63 = bits := by
    rw [Nat.xor_mod_two_pow, Nat.mod_self, Nat.xor_zero, Nat.mod_eq_of_lt h]
  have hdiv : (bits ^^^ 2 ^ 63) / 2 ^ 63 = 1 := by
    rw [Nat.xor_div_two_pow, Nat.div_eq_of_lt h, Nat.div_self (by norm_num), Nat.zero_xor]
  omega

theorem lt_signBit_of_datum {bits m : Nat} {e : Int} (h : double.datum bits = .finite false m e) :
    bits < 2 ^ 63 := by
  have hsign : double.signBit = 2 ^ 63 := rfl
  by_contra hlt
  have hnegative : decide (double.signBit ≤ bits) = true := decide_eq_true (by omega)
  simp only [Format.datum, hnegative] at h
  split at h
  · split at h <;> cases h
  · split at h <;> cases h

theorem datum_add_signBit {bits m : Nat} {e : Int} (h : double.datum bits = .finite false m e) :
    double.datum (bits + 2 ^ 63) = .finite true m e := by
  have hsign : double.signBit = 2 ^ 63 := rfl
  have hlt := lt_signBit_of_datum h
  have hpositive : decide (double.signBit ≤ bits) = false := decide_eq_false (by omega)
  have hnegative : decide (double.signBit ≤ bits + 2 ^ 63) = true := decide_eq_true (by omega)
  have hdouble : double.fraction = 52 ∧ double.exponent = 11 := ⟨rfl, rfl⟩
  have hfraction : (bits + 2 ^ 63) % 2 ^ 52 = bits % 2 ^ 52 := by omega
  have hfield : (bits + 2 ^ 63) / 2 ^ 52 % 2 ^ 11 = bits / 2 ^ 52 % 2 ^ 11 := by omega
  simp only [Format.datum, Nat.pow_eq, hdouble, hpositive, hnegative, hfraction, hfield] at h ⊢
  split at h
  · split at h <;> cases h
  next hexponent =>
    rw [if_neg hexponent]
    split at h
    next hzero =>
      cases h
      rw [if_pos hzero]
    next hzero =>
      cases h
      rw [if_neg hzero]

theorem datum_neg {m : Nat} {e : Int} (h : y.datum = .finite false m e) :
    y.neg.datum = .finite true m e := by
  have hlt : y.bits.toNat < 2 ^ 63 := lt_signBit_of_datum h
  have hbits : (y.bits ^^^ BitVec.ofNat _ double.signBit).toNat = y.bits.toNat + 2 ^ 63 := by
    rw [BitVec.toNat_xor, ← xor_signBit hlt]
    rfl
  rw [datum, neg, hbits]
  exact datum_add_signBit h

theorem AtLeast.sub_ofInt {k : Nat} (hx : x.AtLeast a) (hk : k ≤ 2 ^ 53) (hn : n ≤ 2 ^ 53)
    (h : (n : ℚ) ≤ a - k) : (x - ofInt k).AtLeast n := by
  obtain ⟨m, e, hdatum, hvalue⟩ := datum_ofInt hk
  have hneg : (ofInt k : Word double).neg.AtLeast (-k) := by
    simp [AtLeast, datum_neg hdatum, Datum.AtLeast, Datum.value, hvalue]
  have hsub : x - ofInt k = x + (ofInt k : Word double).neg := by
    change x.sub (ofInt k) = x.add (ofInt k : Word double).neg
    rw [sub, isNaN, hdatum]
    rfl
  rw [hsub]
  exact hx.add hneg hn (by linarith)

theorem bits_of_infinite {bits : Nat} (h : double.datum bits = .infinite false) :
    bits < 2 ^ 63 ∧ double.infinity ≤ bits := by
  have hsign : double.signBit = 2 ^ 63 := rfl
  have hinfinity : double.infinity = 2047 * 2 ^ 52 := rfl
  have hdouble : double.fraction = 52 ∧ double.exponent = 11 := ⟨rfl, rfl⟩
  simp only [Format.datum, Nat.pow_eq, hdouble, hsign] at h
  split at h
  · split at h
    next hfield _ =>
      have hsmall : ¬2 ^ 63 ≤ bits := by simpa using h
      omega
    · cases h
  · split at h <;> cases h

theorem AtLeast.bits (h : x.AtLeast a) (ha : 0 < a) :
    x.bits.toNat < 2 ^ 63 ∧ 0 < x.bits.toNat := by
  rcases h.positive ha with hx | ⟨m, e, hx, hm, -⟩
  · obtain ⟨hlt, hle⟩ := bits_of_infinite hx
    have hinfinity : double.infinity = 2047 * 2 ^ 52 := rfl
    omega
  · refine ⟨lt_signBit_of_datum hx, Nat.pos_of_ne_zero fun hzero => ?_⟩
    have hdatum : double.datum 0 = .finite false 0 (-1074) := rfl
    rw [datum, hzero, hdatum] at hx
    cases hx
    exact hm.false

theorem AtLeast.not_isNaN (h : x.AtLeast a) : x.isNaN = false := by
  unfold AtLeast Datum.AtLeast at h
  unfold isNaN
  split at h <;> simp_all

theorem AtLeast.zero_lt (h : x.AtLeast a) (ha : 0 < a) : (zero false : Word double).lt x = true := by
  obtain ⟨hlt, hpos⟩ := h.bits ha
  have hsign : ¬double.signBit ≤ x.bits.toNat := by
    have : double.signBit = 2 ^ 63 := rfl
    omega
  have hrank : x.rank = x.bits.toNat := by rw [rank, if_neg hsign]
  have hzero : (zero false : Word double).rank = 0 ∧ (zero false : Word double).isNaN = false := by
    decide
  have hcompare : compare 0 (x.bits.toNat : Int) = .lt := compare_lt_iff_lt.2 (by omega)
  simp [lt, compare?, hzero, h.not_isNaN, hrank, hcompare]

theorem atLeast_zero_of_lt (hlt : x.bits.toNat < 2 ^ 63) (hx : x.isNaN = false) : x.AtLeast 0 := by
  have hsign : decide (double.signBit ≤ x.bits.toNat) = false := by
    have : double.signBit = 2 ^ 63 := rfl
    exact decide_eq_false (by omega)
  unfold isNaN at hx
  unfold AtLeast Datum.AtLeast
  split
  next negative hnan => simp [hnan] at hx
  next negative hinfinite =>
    simp only [datum, Format.datum, hsign] at hinfinite
    split at hinfinite <;> split at hinfinite <;> simp_all
  next negative m e hfinite =>
    simp only [datum, Format.datum, hsign] at hfinite
    obtain rfl : negative = false := by
      split at hfinite <;> split at hfinite <;> simp_all
    simp only [Datum.value, Bool.false_eq_true, if_false]
    positivity

theorem atLeast_of_zero_lt (h : (zero false : Word double).lt x = true) : x.AtLeast 0 := by
  have hzero : (zero false : Word double).rank = 0 ∧ (zero false : Word double).isNaN = false := by
    decide
  simp only [lt, compare?, hzero, Bool.false_or] at h
  split at h
  · simp at h
  next hx =>
    have hrank : 0 < x.rank := compare_lt_iff_lt.1 (by simpa using h)
    refine atLeast_zero_of_lt (Nat.not_le.1 fun hle => ?_) (by simpa using hx)
    have hsign : double.signBit ≤ x.bits.toNat := hle
    rw [rank, if_pos hsign] at hrank
    omega

theorem value_le_one {bits m : Nat} {e : Int} (hbits : bits ≤ 1023 * 2 ^ 52)
    (h : double.datum bits = .finite false m e) : (m : ℚ) * 2 ^ e ≤ 1 := by
  have hinfinity : double.infinity = 2047 * 2 ^ 52 := rfl
  rw [datum_double (by omega)] at h
  split at h
  · cases h
    calc ((bits % 2 ^ 52 : Nat) : ℚ) * 2 ^ (-1074 : Int) ≤ (2 ^ 52 : Nat) * 2 ^ (-52 : Int) := by
          gcongr
          · exact (Nat.mod_lt _ (by norm_num)).le
          · exact one_le_two
          · norm_num
      _ = 1 := by norm_num
  · cases h
    rcases hbits.eq_or_lt with rfl | hlt
    · norm_num
    · calc ((2 ^ 52 + bits % 2 ^ 52 : Nat) : ℚ) * 2 ^ (-1074 + (bits / 2 ^ 52 : Nat) - 1 : Int)
          ≤ (2 ^ 53 : Nat) * 2 ^ (-53 : Int) := by
            gcongr
            · omega
            · exact one_le_two
            · omega
        _ = 1 := by norm_num

theorem AtLeast.one_lt (h : x.AtLeast 2) : (ofInt 1 : Word double).lt x = true := by
  have hinfinity : double.infinity = 2047 * 2 ^ 52 := rfl
  have hone : (ofInt 1 : Word double).rank = (1023 * 2 ^ 52 : Nat) ∧
      (ofInt 1 : Word double).isNaN = false := by
    decide +kernel
  obtain ⟨hlt, -⟩ := h.bits two_pos
  have hgreater : 1023 * 2 ^ 52 < x.bits.toNat := by
    by_contra hle
    rcases h.positive two_pos with hx | ⟨m, e, hx, -, hvalue⟩
    · have := (bits_of_infinite hx).2
      omega
    · have := value_le_one (Nat.not_lt.1 hle) hx
      linarith
  have hsign : ¬double.signBit ≤ x.bits.toNat := by
    have : double.signBit = 2 ^ 63 := rfl
    omega
  have hrank : x.rank = x.bits.toNat := by rw [rank, if_neg hsign]
  have hcompare : compare ((1023 * 2 ^ 52 : Nat) : Int) x.bits.toNat = .lt :=
    compare_lt_iff_lt.2 (by omega)
  simp only [lt, compare?, hone, h.not_isNaN, hrank, hcompare]
  rfl

theorem compare?_eq_gt (h : y.lt x = true) : x.compare? y = some .gt := by
  simp only [lt, compare?] at h ⊢
  split at h
  · simp at h
  next hnumbers =>
    have hlt : y.rank < x.rank := compare_lt_iff_lt.1 (by simpa using h)
    rw [Bool.or_comm x.isNaN, if_neg hnumbers, compare_gt_iff_gt.2 hlt]

theorem le_eq_false (h : y.lt x = true) : x.le y = false := by
  rw [le, lt, compare?_eq_gt h]
  rfl

theorem equals_eq_false (h : y.lt x = true) : x.equals y = false := by
  rw [equals, compare?_eq_gt h]
  rfl

theorem rank_of_zero {negative : Bool} {e : Int} (h : x.datum = .finite negative 0 e) :
    x.rank = 0 := by
  have hsign : double.signBit = 2 ^ 63 := rfl
  have hdouble : double.fraction = 52 ∧ double.exponent = 11 := ⟨rfl, rfl⟩
  have hlt : x.bits.toNat < 2 ^ 64 := x.bits.isLt
  have hbits : x.bits.toNat % 2 ^ 63 = 0 := by
    simp only [datum, Format.datum, Nat.pow_eq, hdouble] at h
    split at h
    · split at h <;> cases h
    · split at h
      next hfield =>
        injection h with _ hfraction
        omega
      · injection h with _ hfraction
        omega
  rw [rank]
  split <;> omega

end Relational.Binary.Word
