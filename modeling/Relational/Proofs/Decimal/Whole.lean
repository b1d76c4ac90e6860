import Relational.Decimal.Layout
import Relational.Proofs.Binary.Exactness

/-!
# The text of whole words

No other integer rounds to a word that stands for an integer of no more bits than its significand, so
that the shortest digits of the word are those of the integer, and its text is the integer's text.
-/
namespace Relational.Decimal
open Binary
variable {i : Interval} {n d : Nat}

/-- The value is a natural number, and no other one is in the interval. -/
structure Interval.Isolates (i : Interval) (n : Nat) : Prop where
  value : i.value = n * i.denominator
  below : i.low < i.value
  above : i.value < i.high
  gapBelow : i.value < i.low + i.denominator
  gapAbove : i.high < i.value + i.denominator

theorem Interval.Isolates.inside_iff (h : i.Isolates n) (k : Nat) :
    (if i.closed then i.low ≤ k * i.denominator && k * i.denominator ≤ i.high
      else i.low < k * i.denominator && k * i.denominator < i.high) = true ↔ k = n := by
  obtain ⟨hvalue, hbelow, habove, hlow, hhigh⟩ := h
  rw [hvalue] at hbelow habove hlow hhigh
  have hmem : i.low ≤ k * i.denominator ∧ k * i.denominator ≤ i.high → k = n := by
    rintro ⟨hge, hle⟩
    rcases Nat.lt_trichotomy k n with hlt | heq | hgt
    · have hstep : (k + 1) * i.denominator ≤ n * i.denominator := Nat.mul_le_mul_right _ hlt
      rw [Nat.add_one_mul] at hstep
      omega
    · exact heq
    · have hstep : (n + 1) * i.denominator ≤ k * i.denominator := Nat.mul_le_mul_right _ hgt
      rw [Nat.add_one_mul] at hstep
      omega
  constructor
  · intro h
    split at h <;> simp only [Bool.and_eq_true, decide_eq_true_eq] at h
    · exact hmem h
    · exact hmem (h.imp le_of_lt le_of_lt)
  · rintro rfl
    split <;> simp only [Bool.and_eq_true, decide_eq_true_eq]
    · exact ⟨hbelow.le, habove.le⟩
    · exact ⟨hbelow, habove⟩

theorem Interval.Isolates.candidate? (h : i.Isolates n) (tie : Tie) (p : Nat) :
    i.candidate? tie p = if 10 ^ p ∣ n then some ⟨n / 10 ^ p, p⟩ else none := by
  have hscale (x : Nat) : tenfold x (-p) = x := by simp [tenfold]
  have hpower (d : Nat) : d * tenfold i.denominator p = d * 10 ^ p * i.denominator := by
    rw [tenfold, Nat.pow_eq, Int.toNat_natCast]
    ring
  have hden : 0 < i.denominator := by
    have := h.gapBelow
    have := h.below
    omega
  have hquotient : n * i.denominator / tenfold i.denominator p = n / 10 ^ p := by
    have hden' : tenfold i.denominator p = 10 ^ p * i.denominator := Nat.mul_comm _ _
    rw [hden', Nat.mul_div_mul_right _ _ hden]
  have hexact : n / 10 ^ p * 10 ^ p = n ↔ 10 ^ p ∣ n :=
    ⟨fun h => ⟨n / 10 ^ p, by rw [Nat.mul_comm, h]⟩, Nat.div_mul_cancel⟩
  have hnext : (n / 10 ^ p + 1) * 10 ^ p ≠ n := by
    have := Nat.lt_div_mul_add (a := n) (Nat.pow_pos (n := p) (by decide : 0 < 10))
    rw [Nat.add_one_mul]
    omega
  have hpick (pair : Nat × Nat)
      (hpair : pair = (n / 10 ^ p + 1, n / 10 ^ p) ∨ pair = (n / 10 ^ p, n / 10 ^ p + 1)) :
      (if pair.1 * 10 ^ p = n then some (⟨pair.1, p⟩ : Decimal)
        else if pair.2 * 10 ^ p = n then some ⟨pair.2, p⟩ else none) =
        if 10 ^ p ∣ n then some ⟨n / 10 ^ p, p⟩ else none := by
    rcases hpair with rfl | rfl <;> simp [hexact, hnext]
  simp only [Interval.candidate?, hscale, hpower, h.inside_iff, h.value, hquotient]
  exact hpick _ (ite_eq_or_eq _ _ _)

variable {k : Nat}

/-- Units of a half or less leave no other integer near. -/
theorem isolates_around (f : Format) (hpos : 0 < n) :
    (Interval.around f (n * 2 ^ k) (-k)).Isolates n := by
  have hunit : (-(k : Int) - 2).toNat = 0 := by omega
  have hunit' : (-(-(k : Int) - 2)).toNat = k + 2 := by omega
  have hden : (Interval.around f (n * 2 ^ k) (-k)).denominator = 2 ^ k * 4 := by
    simp only [Interval.around, scaleUp, hunit', Nat.pow_eq, Nat.one_mul, pow_add]
    norm_num
  have hcount : 0 < n * 2 ^ k := Nat.mul_pos hpos (Nat.two_pow_pos k)
  have hfine : 0 < 2 ^ k := Nat.two_pow_pos k
  have hlow : 4 * (n * 2 ^ k) - 2 ≤ (Interval.around f (n * 2 ^ k) (-k)).low ∧
      (Interval.around f (n * 2 ^ k) (-k)).low < 4 * (n * 2 ^ k) := by
    simp only [Interval.around, scaleUp, hunit, Nat.pow_eq, pow_zero, Nat.mul_one]
    split <;> omega
  have hvalue : (Interval.around f (n * 2 ^ k) (-k)).value = 4 * (n * 2 ^ k) := by
    simp [Interval.around, scaleUp, hunit]
  have hhigh : (Interval.around f (n * 2 ^ k) (-k)).high = 4 * (n * 2 ^ k) + 2 := by
    simp [Interval.around, scaleUp, hunit]
  constructor
  · rw [hvalue, hden]
    ring
  all_goals omega

theorem leadingPower_whole (hpos : 0 < n) (hn : n < 2 ^ 53) :
    ∃ t : Nat, t < 20 ∧ leadingPower (n * 2 ^ k) (-k) = t := by
  have hlog : (n * 2 ^ k).log2 = n.log2 + k := by
    rw [Nat.log2_eq_iff (Nat.mul_pos hpos (Nat.two_pow_pos k)).ne']
    constructor
    · rw [pow_add]
      exact Nat.mul_le_mul_right _ (Nat.log2_self_le hpos.ne')
    · rw [Nat.add_right_comm, pow_add]
      exact Nat.mul_lt_mul_of_pos_right Nat.lt_log2_self (Nat.two_pow_pos k)
  have hbits : n.log2 < 53 := (Nat.log2_lt hpos.ne').2 hn
  rw [leadingPower, hlog]
  refine ⟨(n.log2 + 1) * 30103 / 100000 + 1, by omega, ?_⟩
  push_cast
  omega

/-- The shortest digits of an integer are its digits, zeros at the end left off. -/
theorem shortest_whole (f : Format) (tie : Tie) (hpos : 0 < n) (hn : n < 2 ^ 53) :
    ∃ d p : Nat, shortest f tie (n * 2 ^ k) (-k) = ⟨d, p⟩ ∧ d * 10 ^ p = n := by
  have hisolates := isolates_around (k := k) f hpos
  obtain ⟨t, ht, htop⟩ := leadingPower_whole (k := k) hpos hn
  rw [shortest, if_neg (Nat.mul_pos hpos (Nat.two_pow_pos k)).ne', htop]
  generalize Interval.around f (n * 2 ^ k) (-k) = i at hisolates
  have hgrid (j : Nat) (hj : j ≤ t) : i.candidate? tie (t - j) =
      if 10 ^ (t - j) ∣ n then some ⟨n / 10 ^ (t - j), (t - j : Nat)⟩ else none := by
    rw [← hisolates.candidate?, Nat.cast_sub hj]
  -- the grids down to the integers come before the finer ones, and the last of them holds the value
  obtain ⟨r, hr⟩ : ∃ r, 20 = t + 1 + r := ⟨19 - t, by omega⟩
  obtain ⟨d, hd⟩ : ∃ d, (List.range (t + 1)).findSome?
      (fun (j : Nat) => i.candidate? tie (t - j)) = some d := by
    rw [← Option.isSome_iff_exists, List.findSome?_isSome_iff]
    refine ⟨t, List.mem_range.2 t.lt_succ_self, ?_⟩
    rw [hgrid t le_rfl]
    simp
  obtain ⟨j, hj, hcandidate⟩ := List.exists_of_findSome?_eq_some hd
  rw [hgrid j (Nat.le_of_lt_succ (List.mem_range.1 hj))] at hcandidate
  split at hcandidate
  next hdvd =>
    cases hcandidate
    refine ⟨n / 10 ^ (t - j), t - j, ?_, Nat.div_mul_cancel hdvd⟩
    dsimp only
    rw [hr, List.range_add, List.findSome?_append, hd]
    rfl
  · cases hcandidate

theorem toDigits_mul_pow (hpos : 0 < d) (p : Nat) :
    Nat.toDigits 10 (d * 10 ^ p) = Nat.toDigits 10 d ++ List.replicate p '0' := by
  induction p with
  | zero => simp
  | succ p ih =>
    have hlast := Nat.toDigits_append_toDigits (b := 10) (d := 0) (by decide)
      (Nat.mul_pos hpos (Nat.pow_pos (n := p) (by decide : 0 < 10))) (by decide)
    rw [pow_succ, ← Nat.mul_assoc, Nat.mul_comm _ 10, ← Nat.add_zero (10 * _), ← hlast, ih,
      List.append_assoc, List.replicate_succ']
    rfl

theorem plain_decimal (d p : Nat) :
    plain.decimal ⟨d, p⟩ = String.ofList (Nat.toDigits 10 d ++ List.replicate p '0') := by
  have hplain : plain.decimal ⟨d, p⟩ =
      String.ofList (Nat.toDigits 10 d) ++ String.ofList (List.replicate p '0') ++ "" := rfl
  rw [hplain, String.append_empty, String.ofList_append]

theorem plain_whole (f : Format) (hn : n < 2 ^ 53) :
    plain.decimal (shortest f plain.tie (n * 2 ^ k) (-k)) = toString n := by
  rcases Nat.eq_zero_or_pos n with rfl | hpos
  · rw [Nat.zero_mul, shortest, if_pos rfl]
    rfl
  obtain ⟨d, p, hshortest, hvalue⟩ := shortest_whole (k := k) f plain.tie hpos hn
  have hd : 0 < d := Nat.pos_of_ne_zero (by rintro rfl; omega)
  rw [hshortest, plain_decimal, ← toDigits_mul_pow hd, hvalue]
  rfl

end Relational.Decimal

namespace Relational.Binary.Word
variable {f : Format} {x : Word f} {s : Bool} {c : Nat} {e n : Int}

theorem exponent_nonpos (hf : 2 ≤ f.bias) (h : x.datum = .finite s c e)
    (hlt : (c : ℚ) * 2 ^ e < 2 ^ (f.fraction + 1)) : e ≤ 0 := by
  obtain ⟨u, hfits, he, -⟩ := exists_fits h
  by_contra hpos
  have hleading : 2 ^ f.fraction ≤ c := by
    refine hfits.leading.resolve_left ?_
    rw [Format.leastExponent] at he
    omega
  refine hlt.not_ge ?_
  calc (2 : ℚ) ^ (f.fraction + 1) = (2 ^ f.fraction : Nat) * 2 ^ (1 : Int) := by
        push_cast
        exact pow_succ _ _
    _ ≤ c * 2 ^ e := by
        gcongr
        · exact one_le_two
        · omega

theorem text_ofInt (hf : f.fraction + 3 ≤ f.bias) (hfraction : f.fraction ≤ 52)
    (hn : n.natAbs < 2 ^ (f.fraction + 1)) : (ofInt n : Word f).text = toString n := by
  obtain ⟨c, e, hdatum, hvalue⟩ := datum_ofInt_exact hf hn.le
  have he : e ≤ 0 := exponent_nonpos (by omega) hdatum (by rw [hvalue]; exact_mod_cast hn)
  obtain ⟨k, rfl⟩ : ∃ k : Nat, e = -k := ⟨(-e).toNat, by omega⟩
  have hc : c = n.natAbs * 2 ^ k := by
    rw [zpow_neg, zpow_natCast, mul_inv_eq_iff_eq_mul₀ (by positivity)] at hvalue
    exact_mod_cast hvalue
  have hbits : n.natAbs < 2 ^ 53 :=
    hn.trans_le (Nat.pow_le_pow_right two_pos (Nat.succ_le_succ hfraction))
  rw [text, Decimal.Layout.text, hdatum, hc]
  dsimp only
  rw [Decimal.plain_whole f hbits]
  cases n with
  | ofNat m => exact String.empty_append
  | negSucc m =>
    rw [decide_eq_true (Int.negSucc_lt_zero m)]
    rfl

end Relational.Binary.Word
