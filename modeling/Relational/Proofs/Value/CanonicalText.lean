import Relational.Proofs.Binary.Order
import Relational.Proofs.Decimal.Whole
import Relational.Proofs.Value.SortOrder

/-!
# Canonical text

Equal values of one type are the same value, or the two zeros of a float type. Equal values of two
types read alike where their floats are integers that all numbers of the type around them hold.
-/
namespace Relational

namespace Value
open Binary
variable {a b v : Value} {x : Binary64} {m : Int}

/-- No float, or one to which an integer of no more bits than its significand is converted. -/
def Plain : Value → Prop
  | float32 x => ∃ n : Int, n.natAbs < 2 ^ 24 ∧ x = .ofInt n
  | float64 x => ∃ n : Int, n.natAbs < 2 ^ 53 ∧ x = .ofInt n
  | _ => True

def OppositeZeros (a b : Value) : Prop :=
  ∃ s, (a = .float32 (.zero s) ∧ b = .float32 (.zero !s)) ∨
    (a = .float64 (.zero s) ∧ b = .float64 (.zero !s))

theorem Plain.whole (h : v.Plain) (hfloat : v.IsFloat) :
    ∃ (n : Int) (y : Binary64) (s : Bool) (c : Nat) (e : Int), n.natAbs < 2 ^ 53 ∧
      v.number? = some y ∧ y.datum = .finite s c e ∧ y.datum.value = n ∧ v.text = toString n := by
  cases v with
  | float32 x =>
    obtain ⟨n, hn, rfl⟩ := h
    obtain ⟨s, c, e, hdatum, hvalue⟩ :=
      Word.value_ofInt (f := single) (by decide) (hn.le.trans (by decide))
    obtain ⟨d, k, hwide, hsame⟩ := Word.datum_convert_double hdatum
    refine ⟨n, _, s, d, k, hn.trans (by decide), rfl, hwide, ?_,
      Word.text_ofInt (by decide) (by decide) hn⟩
    rw [← hvalue, hwide, hdatum, Datum.value, Datum.value, hsame]
  | float64 x =>
    obtain ⟨n, hn, rfl⟩ := h
    obtain ⟨s, c, e, hdatum, hvalue⟩ :=
      Word.value_ofInt (f := double) (by decide) (hn.le.trans (by decide))
    exact ⟨n, _, s, c, e, hn, rfl, hdatum, hvalue, Word.text_ofInt (by decide) (by decide) hn⟩
  | null | boolean | int32 | int64 | utf8 => exact hfloat.elim

theorem integer?_of_isFloat (h : v.IsFloat) : v.integer? = none := by
  cases v <;> first | rfl | exact h.elim

theorem text_of_integer? (h : v.integer? = some m) : v.text = toString m := by
  cases v <;> cases h <;> rfl

theorem number?_of_compare? {o : Ordering} (ha : a.number? = some x) (h : a.compare? b = some o) :
    ∃ y, b.number? = some y := by
  cases a <;> cases ha <;> cases b <;> first | exact ⟨_, rfl⟩ | cases h

theorem text_eq_of_float (hfloat : a.IsFloat) (ha : a.Plain) (hb : b.Plain)
    (h : a.compare? b = some .eq) : a.text = b.text := by
  obtain ⟨n, y, s, c, e, hn, hy, hdatum, hvalue, htext⟩ := ha.whole hfloat
  have hinteger := integer?_of_isFloat hfloat
  cases hm : b.integer? with
  | some m =>
    rw [compare?_words hy (number?_of_integer? hm) (.inl hinteger)] at h
    have hswap : (Word.ofInt m).compare? y = some .eq := by rw [y.compare?_swap, h]; rfl
    rw [htext, text_of_integer? hm,
      Word.eq_of_compare?_ofInt (f := double) (by decide) hn hdatum hvalue hswap]
  | none =>
    obtain ⟨y', hy'⟩ := number?_of_compare? hy h
    obtain ⟨n', z, s', c', e', -, hz, hdatum', hvalue', htext'⟩ :=
      hb.whole (isFloat_of_number? hy' hm)
    rw [compare?_words hy hz (.inl hinteger), Word.compare?_eq hdatum hdatum', hvalue, hvalue',
      Option.some.injEq, compare_eq_iff_eq, Int.cast_inj] at h
    rw [htext, htext', h]

/-- Equal values of one type are the same, or they are opposite zeros. -/
theorem eq_or_oppositeZeros (htype : a.dataType = b.dataType) (h : a.compare? b = some .eq) :
    a = b ∨ a.OppositeZeros b := by
  cases a <;> cases b <;> cases htype
  case null => cases h
  case boolean p q => exact .inl (congrArg _ (Std.LawfulEqCmp.eq_of_compare (Option.some.inj h)))
  case utf8 s t => exact .inl (congrArg _ (Std.LawfulEqCmp.eq_of_compare (Option.some.inj h)))
  case int32 m n =>
    have hsame : m.toInt = n.toInt := Std.LawfulEqCmp.eq_of_compare (Option.some.inj h)
    exact .inl (congrArg _ (Int32.toInt_inj.1 hsame))
  case int64 m n =>
    have hsame : m.toInt = n.toInt := Std.LawfulEqCmp.eq_of_compare (Option.some.inj h)
    exact .inl (congrArg _ (Int64.toInt_inj.1 hsame))
  case float64 x y =>
    rcases Word.eq_or_zero_of_compare? h with rfl | ⟨s, rfl, rfl⟩
    · exact .inl rfl
    · exact .inr ⟨s, .inr ⟨rfl, rfl⟩⟩
  case float32 x y =>
    change (x.convert double).compare? (y.convert double) = some .eq at h
    have hback := Word.convert_single_double x
    have hback' := Word.convert_single_double y
    rcases Word.eq_or_zero_of_compare? h with hsame | ⟨s, hzero, hzero'⟩
    · rw [← hback, hsame, hback']
      exact .inl rfl
    · rw [← hback, hzero, ← hback', hzero']
      exact .inr ⟨s, .inl (by cases s <;> decide)⟩

/-- Equal values of one type have one text, but for the two zeros; so have equal values of any types
whose floats are integers that a significand holds. -/
theorem text_eq_of_equal (h : a.compare? b = some .eq) :
    (a.dataType = b.dataType → a = b ∨ a.OppositeZeros b) ∧
      (a.Plain → b.Plain → a.text = b.text) := by
  refine ⟨fun htype => eq_or_oppositeZeros htype h, fun ha hb => ?_⟩
  by_cases hfloat : a.IsFloat
  · exact text_eq_of_float hfloat ha hb h
  · by_cases hfloat' : b.IsFloat
    · exact (text_eq_of_float hfloat' hb ha (compare?_symm h)).symm
    · exact text_eq_of_compare? hfloat hfloat' h

theorem text_eq_of_equal_widths :
    let a := Value.float32 (.ofInt (-16777215))
    let b := Value.float64 (.ofInt (-16777215))
    a.compare? b = some .eq ∧ (a.Plain ∧ b.Plain) ∧ a.text = b.text :=
  have heq : (Value.float32 (.ofInt (-16777215))).compare? (.float64 (.ofInt (-16777215))) =
      some .eq := by decide +kernel
  have hplain : (Value.float32 (.ofInt (-16777215))).Plain := ⟨_, by decide, rfl⟩
  have hplain' : (Value.float64 (.ofInt (-16777215))).Plain := ⟨_, by decide, rfl⟩
  ⟨heq, ⟨hplain, hplain'⟩, (text_eq_of_equal heq).2 hplain hplain'⟩

/-- A column of integers equals the negative zero where it holds a zero, which reads otherwise. -/
theorem text_ne_of_equal_zeros :
    let a := Value.int64 0
    let b := Value.float64 (.zero true)
    (a ≠ .null ∧ b ≠ .null) ∧ a.compare? b = some .eq ∧ a.text ≠ b.text :=
  ⟨⟨by simp, by simp⟩, by decide +kernel, by decide +kernel⟩

end Value
end Relational
