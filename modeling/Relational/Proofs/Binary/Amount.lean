import Mathlib.Algebra.BigOperators.Group.List.Basic
import Relational.Proofs.Binary.Counting

/-!
# Exact sums

Amounts add up in any grouping. So do words wherever their additions are exact: a sum is then
determined up to the sign of what is not a number, because no sum from zero on is the negative zero.
-/
namespace Relational.Binary

inductive Amount
  | undefined
  | infinite (negative : Bool)
  | finite (value : ℚ)

namespace Amount

def add : Amount → Amount → Amount
  | infinite s, infinite t => if s = t then infinite s else undefined
  | infinite s, finite _ => infinite s
  | finite _, infinite t => infinite t
  | finite a, finite b => finite (a + b)
  | _, _ => undefined

instance : Add Amount := ⟨add⟩

instance : Zero Amount := ⟨finite 0⟩

instance : AddMonoid Amount where
  nsmul := nsmulRec
  add_assoc a b c := by
    rcases a with _ | ⟨_ | _⟩ | a <;> rcases b with _ | ⟨_ | _⟩ | b <;>
      rcases c with _ | ⟨_ | _⟩ | c
    case finite.finite.finite => exact congrArg finite (Rat.add_assoc a b c)
    all_goals rfl
  zero_add a := by
    cases a with
    | finite a => exact congrArg finite (Rat.zero_add a)
    | _ => rfl
  add_zero a := by
    cases a with
    | finite a => exact congrArg finite (Rat.add_zero a)
    | _ => rfl

theorem finite_add (a b : ℚ) : finite a + finite b = finite (a + b) := rfl

theorem zero_eq : (0 : Amount) = finite 0 := rfl

theorem eq_finite_of_add {a b : Amount} {v : ℚ} (h : a + b = finite v) :
    ∃ p q, a = finite p ∧ b = finite q ∧ p + q = v := by
  change add a b = finite v at h
  cases a <;> cases b <;> simp only [add, reduceCtorEq, finite.injEq] at h
  case infinite.infinite => split at h <;> cases h
  case finite.finite p q => exact ⟨p, q, rfl, rfl, h⟩

end Amount

def Datum.amount : Datum → Amount
  | .nan _ => .undefined
  | .infinite s => .infinite s
  | .finite s m e => .finite (finite s m e).value

namespace Word
variable {f : Format} {x y : Word f} {s t : Bool} {zs : List (Word f)}

def amount (x : Word f) : Amount := x.datum.amount

def Exact (x y : Word f) : Prop := (x + y).amount = x.amount + y.amount

/-- Nothing is lost when the words are added one after the other. -/
def SumsExactly : Word f → List (Word f) → Prop
  | _, [] => True
  | x, z :: zs => x.Exact z ∧ SumsExactly (x + z) zs

theorem sumsExactly_append {ws : List (Word f)} :
    SumsExactly x (zs ++ ws) ↔ SumsExactly x zs ∧ SumsExactly (zs.foldl (· + ·) x) ws := by
  induction zs generalizing x with
  | nil => exact (true_and _).symm.to_iff
  | cons z zs ih => simp only [List.cons_append, SumsExactly, ih, List.foldl_cons, and_assoc]

theorem SumsExactly.amount (h : SumsExactly x zs) :
    (zs.foldl (· + ·) x).amount = x.amount + (zs.map Word.amount).sum := by
  induction zs generalizing x with
  | nil => exact (add_zero x.amount).symm
  | cons z zs ih =>
    obtain ⟨hexact, hrest⟩ := h
    rw [List.foldl_cons, ih hrest, hexact, List.map_cons, List.sum_cons, add_assoc]

theorem amount_eq_finite {v : ℚ} (h : x.amount = .finite v) :
    ∃ s m e, x.datum = .finite s m e ∧ x.datum.value = v := by
  unfold amount Datum.amount at h
  split at h
  · cases h
  · cases h
  next s m e hx =>
    cases h
    exact ⟨s, m, e, hx, by rw [hx]⟩

theorem significand_eq_zero {m : Nat} {e : Int} (h : (Datum.finite s m e).value = 0) : m = 0 := by
  have hpow : (2 : ℚ) ^ e ≠ 0 := zpow_ne_zero _ two_ne_zero
  cases s <;> simpa [Datum.value, hpow] using h

theorem zero_injective (h : (zero s : Word double) = zero t) : s = t := by
  have hdatum := congrArg datum h
  cases s <;> cases t <;> first | rfl | exact absurd hdatum (by decide)

theorem eq_of_amount {x y : Word double} (h : x.amount = y.amount) (hx : x ≠ zero true)
    (hy : y ≠ zero true) : x = y ∨ x.isNaN = true ∧ y.isNaN = true := by
  cases hdx : x.datum with
  | nan s =>
    cases hdy : y.datum <;> simp only [amount, hdx, hdy, Datum.amount, reduceCtorEq] at h
    exact .inr ⟨by rw [isNaN, hdx], by rw [isNaN, hdy]⟩
  | infinite s =>
    cases hdy : y.datum <;> simp only [amount, hdx, hdy, Datum.amount, reduceCtorEq,
      Amount.infinite.injEq] at h
    subst h
    exact .inl ((eq_infinity hdx).trans (eq_infinity hdy).symm)
  | finite s m e =>
    cases hdy : y.datum <;> simp only [amount, hdx, hdy, Datum.amount, reduceCtorEq,
      Amount.finite.injEq] at h
    case finite t k d =>
      rw [← hdx, ← hdy] at h
      by_cases hzero : y.datum.value = 0
      · rw [hzero, hdx] at h
        rw [hdy] at hzero
        obtain rfl := significand_eq_zero h
        obtain rfl := significand_eq_zero hzero
        obtain rfl := eq_zero hdx
        obtain rfl := eq_zero hdy
        cases s <;> cases t <;> first | exact .inl rfl | exact absurd rfl hx | exact absurd rfl hy
      · exact .inl (eq_of_value hdx hdy h hzero)

theorem amount_zero (s : Bool) : (zero s : Word double).amount = 0 := by
  have hdatum : (zero s : Word double).datum = .finite s 0 (-1074) := by cases s <;> rfl
  rw [amount, hdatum]
  simp [Datum.amount, Datum.value, Amount.zero_eq]

theorem value_nonpos (m : Nat) (e : Int) : (Datum.finite true m e).value ≤ 0 := by
  have hpos : (0 : ℚ) ≤ m * 2 ^ e := by positivity
  simp only [Datum.value, if_true]
  linarith

theorem add_ne_negative_zero {x y : Word double} (hx : x ≠ zero true) (h : x.Exact y) :
    x + y ≠ zero true := by
  intro hsum
  rw [Exact, hsum, amount_zero, Amount.zero_eq] at h
  obtain ⟨p, q, hp, hq, hpq⟩ := Amount.eq_finite_of_add h.symm
  obtain ⟨s, m, e, hdx, rfl⟩ := amount_eq_finite hp
  obtain ⟨t, k, d, hdy, rfl⟩ := amount_eq_finite hq
  have hscaled : (signedInt s (scaleUp m (e - min e d)) +
      signedInt t (scaleUp k (d - min e d)) : Int) = 0 := by
    have hpow : (2 : ℚ) ^ min e d ≠ 0 := zpow_ne_zero _ two_ne_zero
    have hvalue : ((signedInt s (scaleUp m (e - min e d)) +
        signedInt t (scaleUp k (d - min e d)) : Int) : ℚ) * 2 ^ min e d = 0 := by
      push_cast
      rw [add_mul, signedInt_scaleUp s m (min_le_left e d), signedInt_scaleUp t k (min_le_right e d),
        ← hdx, ← hdy, hpq]
    exact_mod_cast (mul_eq_zero.1 hvalue).resolve_right hpow
  have hzero : x + y = zero (s && t) := by
    change x.add y = zero (s && t)
    simp only [add, hdx, hdy, ofScaled, hscaled, if_true]
  have hsigns : (s && t) = true := zero_injective (hzero.symm.trans hsum)
  obtain ⟨rfl, rfl⟩ := Bool.and_eq_true_iff.1 hsigns
  rw [hdx, hdy] at hpq
  have hvalue : (Datum.finite true m e).value = 0 :=
    le_antisymm (value_nonpos m e) (by linarith [value_nonpos k d])
  obtain rfl := significand_eq_zero hvalue
  exact hx (eq_zero hdx)

theorem foldl_ne_negative_zero {x : Word double} {zs : List (Word double)} (hx : x ≠ zero true)
    (h : SumsExactly x zs) : zs.foldl (· + ·) x ≠ zero true := by
  induction zs generalizing x with
  | nil => exact hx
  | cons z zs ih => exact ih (add_ne_negative_zero hx h.1) h.2

theorem add_foldl {zs ws : List (Word double)} (hwhole : SumsExactly 0 (zs ++ ws))
    (hright : SumsExactly 0 ws) (hjoined : (zs.foldl (· + ·) 0).Exact (ws.foldl (· + ·) 0)) :
    zs.foldl (· + ·) 0 + ws.foldl (· + ·) 0 = (zs ++ ws).foldl (· + ·) 0 ∨
      (zs.foldl (· + ·) 0 + ws.foldl (· + ·) 0).isNaN = true ∧
        ((zs ++ ws).foldl (· + ·) 0).isNaN = true := by
  obtain ⟨hleft, hrest⟩ := sumsExactly_append.1 hwhole
  have hzero : (0 : Word double) ≠ zero true := by decide
  have hamount : (zs.foldl (· + ·) 0 + ws.foldl (· + ·) 0).amount =
      ((zs ++ ws).foldl (· + ·) 0).amount := by
    have hfrom : (0 : Word double).amount = 0 := amount_zero false
    rw [hjoined, hright.amount, hfrom, zero_add, List.foldl_append, hrest.amount]
  exact eq_of_amount hamount (add_ne_negative_zero (foldl_ne_negative_zero hzero hleft) hjoined)
    (foldl_ne_negative_zero hzero hwhole)

theorem add_ofInt {m n : Nat} (h : m + n ≤ 2 ^ 53) :
    (ofInt m + ofInt n : Word double) = ofInt (m + n : Nat) := by
  obtain ⟨c, e, hdx, hm⟩ := datum_ofInt (n := m) (by omega)
  obtain ⟨k, d, hdy, hn⟩ := datum_ofInt (n := n) (by omega)
  obtain ⟨b, g, hsum, hvalue⟩ := datum_ofInt h
  let v : Int := signedInt false (scaleUp c (e - min e d)) + signedInt false (scaleUp k (d - min e d))
  have hscaled : (v : ℚ) * 2 ^ min e d = b * 2 ^ g := by
    rw [hvalue, Int.cast_add, add_mul, signedInt_scaleUp false c (min_le_left e d),
      signedInt_scaleUp false k (min_le_right e d)]
    simp [Datum.value, hm, hn]
  have hadd : (ofInt m + ofInt n : Word double) = ofScaled v (min e d) false := by
    change (ofInt m : Word double).add (ofInt n) = _
    simp only [add, hdx, hdy, Bool.and_self]
    rfl
  rw [hadd, ofScaled]
  split
  next hzero =>
    rw [hzero, Int.cast_zero, zero_mul, hvalue] at hscaled
    have hsum : m + n = 0 := by exact_mod_cast hscaled.symm
    rw [hsum]
    rfl
  next hne =>
    have hpos : 0 ≤ v := Int.add_nonneg (Int.natCast_nonneg _) (Int.natCast_nonneg _)
    rw [decide_eq_false (by omega)]
    refine round_of_datum hsum (scaleUp_pos one_pos _).ne' ?_
    rw [scaleUp_div_one, ← hscaled, Nat.cast_natAbs, abs_of_nonneg hpos]

theorem amount_ofInt {n : Nat} (h : n ≤ 2 ^ 53) : (ofInt n : Word double).amount = .finite n := by
  obtain ⟨m, e, hdatum, hvalue⟩ := datum_ofInt h
  simp [amount, hdatum, Datum.amount, Datum.value, hvalue]

theorem exact_ofInt {m n : Nat} (h : m + n ≤ 2 ^ 53) :
    (ofInt m : Word double).Exact (ofInt n) := by
  rw [Exact, add_ofInt h, amount_ofInt h, amount_ofInt (n := m) (by omega),
    amount_ofInt (n := n) (by omega), Amount.finite_add, Nat.cast_add]

theorem foldl_ofInt {m : Nat} (ns : List Nat) (h : m + ns.sum ≤ 2 ^ 53) :
    (ns.map fun n : Nat => (ofInt n : Word double)).foldl (· + ·) (ofInt m) =
        ofInt (m + ns.sum : Nat) ∧
      SumsExactly (ofInt m : Word double) (ns.map fun n : Nat => ofInt n) := by
  induction ns generalizing m with
  | nil => exact ⟨rfl, trivial⟩
  | cons n ns ih =>
    rw [List.sum_cons, ← Nat.add_assoc] at h ⊢
    have hexact : m + n ≤ 2 ^ 53 := by omega
    rw [List.map_cons, List.foldl_cons, SumsExactly, add_ofInt hexact]
    exact ⟨(ih h).1, exact_ofInt hexact, (ih h).2⟩

end Word
end Relational.Binary
