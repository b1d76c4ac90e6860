import Mathlib.Data.Rat.Floor
import Relational.Proofs.Binary.Order
import Relational.Value.Cast

/-!
# Casts to integers

A cast to an integer type gives the integer part of what a value stands for where the type has it,
and fails elsewhere, but for one float: the one after the greatest 64-bit integer.
-/
namespace Relational

namespace Binary
variable {f : Format} {x : Word f} {s : Bool} {c : Nat} {e m n : Int} {q : ℚ}

def towardZero (q : ℚ) : Int := if q < 0 then ⌈q⌉ else ⌊q⌋

theorem towardZero_of_nonneg (h : 0 ≤ q) : towardZero q = ⌊q⌋ := if_neg h.not_gt

theorem towardZero_neg_of_nonneg (h : 0 ≤ q) : towardZero (-q) = -⌊q⌋ := by
  rcases h.eq_or_lt with rfl | hpos
  · simp [towardZero]
  · rw [towardZero, if_pos (neg_neg_of_pos hpos), Int.ceil_neg]

theorem towardZero_le (h : q ≤ m) : towardZero q ≤ m := by
  unfold towardZero
  split
  · exact Int.ceil_le.2 h
  · exact Int.cast_le.1 ((Int.floor_le q).trans h)

theorem le_towardZero (h : (m : ℚ) ≤ q) : m ≤ towardZero q := by
  unfold towardZero
  split
  · exact Int.cast_le.1 (h.trans (Int.le_ceil q))
  · exact Int.le_floor.2 h

theorem towardZero_intCast (n : Int) : towardZero n = n :=
  le_antisymm (towardZero_le le_rfl) (le_towardZero le_rfl)

theorem towardZero_mem_iff (h : (∃ n : Int, q = n) ∨ m < q ∧ q < n) :
    m ≤ towardZero q ∧ towardZero q ≤ n ↔ (m : ℚ) ≤ q ∧ q ≤ n := by
  refine ⟨fun hmem => ?_, fun ⟨hm, hn⟩ => ⟨le_towardZero hm, towardZero_le hn⟩⟩
  rcases h with ⟨k, rfl⟩ | ⟨hm, hn⟩
  · rw [towardZero_intCast] at hmem
    exact ⟨Int.cast_le.2 hmem.1, Int.cast_le.2 hmem.2⟩
  · exact ⟨hm.le, hn.le⟩

def Datum.integerPart? : Datum → Option Int
  | .finite s c e => some (towardZero (Datum.finite s c e).value)
  | _ => none

namespace Word

theorem truncate?_eq (x : Word f) : x.truncate? = x.datum.integerPart? := by
  rw [truncate?]
  cases hdatum : x.datum with
  | nan | infinite => rfl
  | finite s c e =>
    have hfloor : ⌊(c : ℚ) * 2 ^ e⌋ = (scaleUp c e / scaleUp 1 (-e) : Nat) := by
      rw [← scaleUp_div_one, Rat.floor_natCast_div_natCast, Int.natCast_ediv]
    have hpos : (0 : ℚ) ≤ c * 2 ^ e := by positivity
    cases s with
    | false => simp [Datum.integerPart?, Datum.value, towardZero_of_nonneg hpos, hfloor]
    | true => simp [Datum.integerPart?, Datum.value, towardZero_neg_of_nonneg hpos, hfloor]

/-- Beyond the significands a word stands for an integer. -/
theorem value_integral_or_small (h : x.datum = .finite s c e) :
    (∃ n : Int, x.datum.value = n) ∨ |x.datum.value| < 2 ^ (f.fraction + 1) := by
  obtain ⟨u, hfits, -, -⟩ := exists_fits h
  rw [h]
  rcases le_or_gt 0 e with he | he
  · refine .inl ⟨signedInt s (c * 2 ^ e.toNat), ?_⟩
    have hpow : (2 : ℚ) ^ e = 2 ^ e.toNat := by rw [← zpow_natCast, Int.toNat_of_nonneg he]
    cases s <;> simp [Datum.value, signedInt, hpow]
  · refine .inr ?_
    have habs : |(Datum.finite s c e).value| = c * 2 ^ e := by
      cases s <;> simp [Datum.value]
    have hone : (2 : ℚ) ^ e ≤ 1 := zpow_le_one_of_nonpos₀ one_le_two he.le
    calc |(Datum.finite s c e).value| = c * 2 ^ e := habs
      _ ≤ c := mul_le_of_le_one_right (by positivity) hone
      _ < 2 ^ (f.fraction + 1) := by exact_mod_cast hfits.significand

end Word
end Binary

namespace Value
open Integer
open Binary (Word Datum)
variable {v w : Value} {x : Binary64} {n : Int}

theorem datum_least64 : (Word.ofInt least64 : Binary64).datum = .finite true (2 ^ 52) 11 := by
  decide +kernel

theorem datum_greatest64 : (Word.ofInt greatest64 : Binary64).datum = .finite false (2 ^ 52) 11 := by
  decide +kernel

theorem value_least64 : (Datum.finite true (2 ^ 52) 11).value = least64 := by
  norm_num [Datum.value, least64]

theorem value_greatest64 : (Datum.finite false (2 ^ 52) 11).value = greatest64 + 1 := by
  norm_num [Datum.value, greatest64]

/-- The greatest integer is rounded up by one, so that the limits let one integer more pass. -/
theorem within_limits_iff {s : Bool} {c : Nat} {e : Int} (h : x.datum = .finite s c e) :
    ((Word.ofInt least64).le x && x.le (.ofInt greatest64)) = true ↔
      least64 ≤ Binary.towardZero x.datum.value ∧
        Binary.towardZero x.datum.value ≤ greatest64 + 1 := by
  have hlow := Word.le_iff_value datum_least64 h
  have hhigh := Word.le_iff_value h datum_greatest64
  rw [datum_least64, value_least64] at hlow
  rw [datum_greatest64, value_greatest64, ← Int.cast_one, ← Int.cast_add] at hhigh
  rw [Bool.and_eq_true, hlow, hhigh, Binary.towardZero_mem_iff]
  refine (Word.value_integral_or_small h).imp_right fun hsmall => ?_
  have hbits : (2 : ℚ) ^ (Binary.double.fraction + 1) = 9007199254740992 := by
    norm_num [Binary.double]
  rw [abs_lt, hbits] at hsmall
  constructor <;> norm_num [least64, greatest64] <;> linarith

theorem integerOfFloat?_eq_some : integerOfFloat? x = some n ↔
    ∃ k, x.datum.integerPart? = some k ∧ (least64 ≤ k ∧ k ≤ greatest64 + 1) ∧
      n = min greatest64 k := by
  rw [integerOfFloat?, Word.truncate?_eq]
  cases hdatum : x.datum with
  | nan | infinite => simp [Datum.integerPart?]
  | finite s c e =>
    have hlimits := within_limits_iff hdatum
    rw [hdatum] at hlimits
    split
    next hwithin => simp [Datum.integerPart?, hlimits.1 hwithin, eq_comm]
    next hbeyond => simp [Datum.integerPart?, mt hlimits.2 hbeyond]

def integerPart? : Value → Option Int
  | boolean b => some b.toInt
  | float32 x => x.datum.integerPart?
  | float64 x => x.datum.integerPart?
  | v => v.integer?

theorem integerPart?_convert (x : Binary32) :
    (x.convert Binary.double).datum.integerPart? = x.datum.integerPart? := by
  cases hdatum : x.datum with
  | nan t =>
    rw [Word.datum_convert_nan (by decide) hdatum]
  | infinite t =>
    rw [Word.datum_convert_infinite hdatum]
  | finite s c e =>
    obtain ⟨d, k, hwide, hvalue⟩ := Word.datum_convert_double hdatum
    rw [hwide]
    simp only [Datum.integerPart?, Datum.value, hvalue]

theorem integer_within {m : Int} (hlow : least64 ≤ m) (hhigh : m ≤ greatest64) :
    some m = some n ↔ ∃ k, some m = some k ∧ (least64 ≤ k ∧ k ≤ greatest64 + 1) ∧
      n = min greatest64 k := by
  simp only [Option.some.injEq, exists_eq_left', min_eq_right hhigh]
  constructor
  · rintro rfl
    exact ⟨⟨hlow, by omega⟩, rfl⟩
  · exact fun h => h.2.symm

/-- Before it is narrowed, an integer part is within 64 bits or the first above them. -/
theorem castInteger?_eq_some (hnull : v ≠ .null) (htext : v.text? = none) :
    v.castInteger? = some n ↔
      ∃ k, v.integerPart? = some k ∧ (least64 ≤ k ∧ k ≤ greatest64 + 1) ∧ n = min greatest64 k := by
  cases v with
  | null => exact absurd rfl hnull
  | utf8 t => cases htext
  | boolean b => cases b <;> exact integer_within (by decide) (by decide)
  | int32 k =>
    have hlow := k.le_toInt
    have hhigh := k.toInt_lt
    refine integer_within ?_ ?_ <;> simp only [least64, greatest64] <;> omega
  | int64 k =>
    have hlow := k.le_toInt
    have hhigh := k.toInt_lt
    refine integer_within ?_ ?_ <;> simp only [least64, greatest64] <;> omega
  | float32 x =>
    rw [castInteger?, integerOfFloat?_eq_some, integerPart?_convert]
    rfl
  | float64 x => exact integerOfFloat?_eq_some

theorem int32?_toInt (n : Int32) : int32? n.toInt = some n := by
  have hbounds : least32 ≤ n.toInt ∧ n.toInt ≤ greatest32 :=
    ⟨n.le_toInt, Int.le_of_lt_add_one n.toInt_lt⟩
  rw [int32?, if_pos hbounds, Int32.ofInt_toInt]

theorem int64?_toInt (n : Int64) : int64? n.toInt = some n := by
  have hbounds : least64 ≤ n.toInt ∧ n.toInt ≤ greatest64 :=
    ⟨n.le_toInt, Int.le_of_lt_add_one n.toInt_lt⟩
  rw [int64?, if_pos hbounds, Int64.ofInt_toInt]

theorem int32?_eq_some {k : Int32} : int32? n = some k ↔ n = k.toInt := by
  refine ⟨fun h => ?_, fun h => h ▸ int32?_toInt k⟩
  rw [int32?] at h
  split at h
  next hbounds =>
    cases h
    exact (Int32.toInt_ofInt_of_le hbounds.1 (Int.lt_add_one_of_le hbounds.2)).symm
  · cases h

theorem int64?_eq_some {k : Int64} : int64? n = some k ↔ n = k.toInt := by
  refine ⟨fun h => ?_, fun h => h ▸ int64?_toInt k⟩
  rw [int64?] at h
  split at h
  next hbounds =>
    cases h
    exact (Int64.toInt_ofInt_of_le hbounds.1 (Int.lt_add_one_of_le hbounds.2)).symm
  · cases h

theorem castTo_eq_ok {t : DataType} (hnull : v ≠ .null) (ht : isCastTarget t = true) :
    v.castTo t = .ok w ↔ v.castTo? t = some w := by
  have hvalue : v.isNull = false := by cases v <;> first | rfl | exact absurd rfl hnull
  rw [castTo, hvalue, ht, if_neg Bool.false_ne_true, if_neg (by decide)]
  cases v.castTo? t <;> simp

theorem castTo_int32_eq_ok (hnull : v ≠ .null) :
    v.castTo .int32 = .ok w ↔ ∃ k : Int32, w = .int32 k ∧ v.castInteger? = some k.toInt := by
  simp only [castTo_eq_ok hnull (t := .int32) rfl, castTo?, Option.map_eq_some_iff,
    Option.bind_eq_some_iff, int32?_eq_some]
  constructor
  · rintro ⟨k, ⟨n, hn, rfl⟩, rfl⟩
    exact ⟨k, rfl, hn⟩
  · rintro ⟨k, rfl, h⟩
    exact ⟨k, ⟨_, h, rfl⟩, rfl⟩

theorem castTo_int64_eq_ok (hnull : v ≠ .null) :
    v.castTo .int64 = .ok w ↔ ∃ k : Int64, w = .int64 k ∧ v.castInteger? = some k.toInt := by
  simp only [castTo_eq_ok hnull (t := .int64) rfl, castTo?, Option.map_eq_some_iff,
    Option.bind_eq_some_iff, int64?_eq_some]
  constructor
  · rintro ⟨k, ⟨n, hn, rfl⟩, rfl⟩
    exact ⟨k, rfl, hn⟩
  · rintro ⟨k, rfl, h⟩
    exact ⟨k, ⟨_, h, rfl⟩, rfl⟩

theorem castInteger?_eq_lesser (hnull : v ≠ .null) (htext : v.text? = none) (hlow : least64 ≤ n)
    (hhigh : n < greatest64) : v.castInteger? = some n ↔ v.integerPart? = some n := by
  rw [castInteger?_eq_some hnull htext]
  constructor
  · rintro ⟨k, hk, -, hmin⟩
    obtain rfl : k = n := by omega
    exact hk
  · exact fun h => ⟨n, h, by omega⟩

theorem castInteger?_eq_greatest (hnull : v ≠ .null) (htext : v.text? = none) :
    v.castInteger? = some greatest64 ↔
      v.integerPart? = some greatest64 ∨ v.integerPart? = some (greatest64 + 1) := by
  rw [castInteger?_eq_some hnull htext]
  constructor
  · rintro ⟨k, hk, hwithin, hmin⟩
    obtain rfl | rfl : k = greatest64 ∨ k = greatest64 + 1 := by omega
    · exact .inl hk
    · exact .inr hk
  · rintro (h | h)
    · exact ⟨_, h, by decide⟩
    · exact ⟨_, h, by decide⟩

/-- A cast to a 32-bit integer is exact; so is one to a 64-bit integer, except that the float after
the greatest one is cast to it. -/
theorem castTo_integer (hnull : v ≠ .null) (htext : v.text? = none) :
    (v.castTo .int32 = .ok w ↔ ∃ k : Int32, w = .int32 k ∧ v.integerPart? = some k.toInt) ∧
      (v.castTo .int64 = .ok w ↔ ∃ k : Int64, w = .int64 k ∧
        (v.integerPart? = some k.toInt ∨
          v.integerPart? = some (greatest64 + 1) ∧ k.toInt = greatest64)) := by
  rw [castTo_int32_eq_ok hnull, castTo_int64_eq_ok hnull]
  constructor
  · refine exists_congr fun k => and_congr_right fun _ => ?_
    have hlow := k.le_toInt
    have hhigh := k.toInt_lt
    refine castInteger?_eq_lesser hnull htext ?_ ?_ <;> simp only [least64, greatest64] <;> omega
  · refine exists_congr fun k => and_congr_right fun _ => ?_
    rcases (Int.le_of_lt_add_one k.toInt_lt : k.toInt ≤ greatest64).lt_or_eq with hless | heq
    · rw [castInteger?_eq_lesser hnull htext k.le_toInt hless]
      simp [hless.ne]
    · rw [heq, castInteger?_eq_greatest hnull htext]
      simp

theorem castTo_integer_toward_zero :
    let v := Value.float64 (.round true 5 2)
    (v ≠ .null ∧ v.text? = none) ∧ v.integerPart? = some (-2) ∧ v.castTo .int32 = .ok (.int32 (-2)) :=
  have hpart : (Value.float64 (.round true 5 2)).integerPart? = some (-2) := by decide +kernel
  ⟨⟨by simp, rfl⟩, hpart, (castTo_integer (by simp) rfl).1.2 ⟨-2, rfl, hpart⟩⟩

theorem castTo_int64_saturated :
    let v := Value.float64 (.ofInt (greatest64 + 1))
    v.castTo .int64 = .ok (.int64 (.ofInt greatest64)) ∧
      ¬∃ k : Int64, v.integerPart? = some k.toInt := by
  refine ⟨rfl, ?_⟩
  rintro ⟨k, hk⟩
  have hpart : (Value.float64 (.ofInt (greatest64 + 1))).integerPart? = some (greatest64 + 1) := by
    decide +kernel
  have hbelow : k.toInt ≤ greatest64 := Int.le_of_lt_add_one k.toInt_lt
  rw [hpart, Option.some.injEq] at hk
  omega

end Value
end Relational
