import Mathlib.Algebra.Group.Nat.Defs
import Relational.Proofs.Grouping.Opening

/-!
# Encoded keys

The code of a value tells where it ends, so that keys of the same number of values have the same
code only if they are equal. Over columns that they all have, rows have one code just when they have
the same value in every column.
-/
namespace Relational.Grouping

theorem length_bigEndian (count n : Nat) : (bigEndian count n).length = count := by
  simp [bigEndian]

theorem bigEndian_succ (count n : Nat) :
    bigEndian (count + 1) n = UInt8.ofNat (n / 256 ^ count) :: bigEndian count n := by
  simp [bigEndian, List.range_succ]

theorem bigEndian_injective {count m n : Nat} (h : bigEndian count m = bigEndian count n) :
    m % 256 ^ count = n % 256 ^ count := by
  induction count with
  | zero => simp [Nat.mod_one]
  | succ count ih =>
    rw [bigEndian_succ, bigEndian_succ, List.cons.injEq] at h
    obtain ⟨hfirst, hrest⟩ := h
    have hdigit : m / 256 ^ count % 256 = n / 256 ^ count % 256 := by
      simpa using congrArg UInt8.toNat hfirst
    rw [Nat.pow_succ, Nat.mod_mul, Nat.mod_mul, ih hrest, hdigit]

end Relational.Grouping

namespace Relational

/-- Text is shorter than 2⁶⁴ bytes. -/
def Value.Sized : Value → Prop
  | .utf8 s => s.utf8ByteSize < 2 ^ 64
  | _ => True

namespace Grouping
variable {v w : Value} {xs ys : List UInt8}

theorem bigEndian_append_inj {count m n : Nat} (hm : m < 256 ^ count) (hn : n < 256 ^ count)
    (h : bigEndian count m ++ xs = bigEndian count n ++ ys) : m = n ∧ xs = ys := by
  obtain ⟨hcode, hrest⟩ := List.append_inj h (by simp [length_bigEndian])
  have hmod := bigEndian_injective hcode
  rw [Nat.mod_eq_of_lt hm, Nat.mod_eq_of_lt hn] at hmod
  exact ⟨hmod, hrest⟩

theorem bits_append_inj (count : Nat) {a b : BitVec (8 * count)}
    (h : bigEndian count a.toNat ++ xs = bigEndian count b.toNat ++ ys) : a = b ∧ xs = ys := by
  have hbound : 2 ^ (8 * count) = 256 ^ count := Nat.pow_mul 2 8 count
  obtain ⟨hcode, hrest⟩ := bigEndian_append_inj (hbound ▸ a.isLt) (hbound ▸ b.isLt) h
  exact ⟨BitVec.eq_of_toNat_eq hcode, hrest⟩

theorem toUTF8_injective {s t : String} (h : s.toUTF8.data.toList = t.toUTF8.data.toList) :
    s = t :=
  String.toByteArray_inj.1 (ByteArray.ext (Array.toList_inj.1 h))

/-- The code of a value tells where it ends. -/
theorem encodeValue_append_inj (hv : v.Sized) (hw : w.Sized)
    (h : encodeValue v ++ xs = encodeValue w ++ ys) : v = w ∧ xs = ys := by
  cases v <;> cases w <;>
    simp only [encodeValue, List.cons_append, List.nil_append, List.append_assoc,
      List.cons.injEq] at h <;>
    obtain ⟨htag, h⟩ := h <;>
    first | exact absurd htag (by decide) | clear htag
  case null.null => exact ⟨rfl, h⟩
  case boolean.boolean b c => cases b <;> cases c <;> simp_all
  case int32.int32 m n =>
    obtain ⟨hbits, hrest⟩ := bits_append_inj 4 h
    exact ⟨congrArg _ (Int32.toBitVec_inj.1 hbits), hrest⟩
  case int64.int64 m n =>
    obtain ⟨hbits, hrest⟩ := bits_append_inj 8 h
    exact ⟨congrArg _ (Int64.toBitVec_inj.1 hbits), hrest⟩
  case float32.float32 x y =>
    obtain ⟨hbits, hrest⟩ := bits_append_inj 4 (a := x.bits) (b := y.bits) h
    exact ⟨congrArg (fun bits => Value.float32 ⟨bits⟩) hbits, hrest⟩
  case float64.float64 x y =>
    obtain ⟨hbits, hrest⟩ := bits_append_inj 8 (a := x.bits) (b := y.bits) h
    exact ⟨congrArg (fun bits => Value.float64 ⟨bits⟩) hbits, hrest⟩
  case utf8.utf8 s t =>
    obtain ⟨hsize, h⟩ := bigEndian_append_inj hv hw h
    obtain ⟨htext, hrest⟩ := List.append_inj h (by simpa using hsize)
    exact ⟨congrArg _ (toUTF8_injective htext), hrest⟩

theorem encodeKey_injective {key other : List Value} (hlength : key.length = other.length)
    (hkey : ∀ v ∈ key, v.Sized) (hother : ∀ v ∈ other, v.Sized)
    (h : encodeKey key = encodeKey other) : key = other := by
  induction key generalizing other with
  | nil => exact (List.length_eq_zero_iff.1 hlength.symm).symm
  | cons v rest ih =>
    obtain ⟨w, others, rfl⟩ := List.exists_cons_of_length_eq_add_one hlength.symm
    obtain ⟨hv, hrest⟩ := List.forall_mem_cons.1 hkey
    obtain ⟨hw, hothers⟩ := List.forall_mem_cons.1 hother
    simp only [encodeKey, List.flatMap_cons] at h
    obtain ⟨rfl, hcode⟩ := encodeValue_append_inj hv hw h
    rw [ih (by simpa using hlength) hrest hothers hcode]

/-! ### Codes of rows -/

variable {columns : ColumnSet} {row other : Row} {key key' : List Value}

theorem exists_keyOf {P : Value → Prop} (h : ∀ c ∈ columns, ∃ v, row[c]? = some v ∧ P v) :
    ∃ key, keyOf columns row = .ok key ∧ ∀ v ∈ key, P v := by
  have hcolumns : ∀ c ∈ columns.columns, ∃ v, row[c]? = some v ∧ P v := h
  obtain ⟨key, hkey⟩ := exists_forall₂ hcolumns
  refine ⟨key, keyOf_eq_ok_iff.2 (hkey.imp fun c v hv => hv.1), fun v hv => ?_⟩
  obtain ⟨c, -, hc⟩ := forall₂_exists_mem hkey hv
  exact hc.2

theorem key_eq_iff (hkey : keyOf columns row = .ok key) (hkey' : keyOf columns other = .ok key') :
    key = key' ↔ ∀ c ∈ columns, row[c]? = other[c]? := by
  constructor
  · rintro rfl c hc
    obtain ⟨i, hi⟩ := List.getElem?_of_mem hc
    obtain ⟨v, hv, hrow⟩ := forall₂_exists_getElem? (keyOf_eq_ok_iff.1 hkey) hi
    rw [hrow, forall₂_getElem? (keyOf_eq_ok_iff.1 hkey') hi hv]
  · intro hsame
    have hother : keyOf columns other = .ok key :=
      keyOf_eq_ok_iff.2 <| forall₂_imp_of_mem (keyOf_eq_ok_iff.1 hkey) fun c hc v hv =>
        (hsame c hc).symm.trans hv
    exact Except.ok.inj (hother.symm.trans hkey')

/-- Over columns that both rows have, the codes of the rows are the same just when the rows have
the same value in each column. -/
theorem encodeKey_eq_iff (hrow : ∀ c ∈ columns, ∃ v, row[c]? = some v ∧ v.Sized)
    (hother : ∀ c ∈ columns, ∃ v, other[c]? = some v ∧ v.Sized) :
    ∃ key key', keyOf columns row = .ok key ∧ keyOf columns other = .ok key' ∧
      (encodeKey key = encodeKey key' ↔ ∀ c ∈ columns, row[c]? = other[c]?) := by
  obtain ⟨key, hkey, hsized⟩ := exists_keyOf hrow
  obtain ⟨key', hkey', hsized'⟩ := exists_keyOf hother
  have hlength : key.length = key'.length :=
    (keyOf_eq_ok_iff.1 hkey).length_eq.symm.trans (keyOf_eq_ok_iff.1 hkey').length_eq
  refine ⟨key, key', hkey, hkey', ?_⟩
  rw [← key_eq_iff hkey hkey']
  exact ⟨encodeKey_injective hlength hsized hsized', congrArg encodeKey⟩

theorem encodeKey_eq_iff_texts :
    let columns : ColumnSet := .ofList [0, 2]
    let row : Row := [.utf8 "ab", .int64 1, .utf8 "c"]
    let other : Row := [.utf8 "a", .int64 1, .utf8 "bc"]
    let third : Row := [.utf8 "ab", .null, .utf8 "c"]
    (∀ r ∈ [row, other, third], ∀ c ∈ columns, ∃ v, r[c]? = some v ∧ v.Sized) ∧
      (∃ key key', keyOf columns row = .ok key ∧ keyOf columns other = .ok key' ∧
        encodeKey key ≠ encodeKey key') ∧
      ∃ key key', keyOf columns row = .ok key ∧ keyOf columns third = .ok key' ∧
        encodeKey key = encodeKey key' := by
  intro columns row other third
  have hcolumns (c : Nat) : c ∈ columns ↔ c = 0 ∨ c = 2 := by simp [columns]
  have hsized : ∀ r ∈ [row, other, third], ∀ c ∈ columns, ∃ v, r[c]? = some v ∧ v.Sized := by
    have hshort : ∀ s ∈ ["ab", "c", "a", "bc"], (Value.utf8 s).Sized := by
      show ∀ s ∈ ["ab", "c", "a", "bc"], s.utf8ByteSize < 2 ^ 64
      decide
    simp [hcolumns, row, other, third, hshort]
  obtain ⟨hrow, hother, hthird⟩ := List.forall_mem_cons.1 hsized |>.imp_right List.forall_mem_cons.1
  refine ⟨hsized, ?_, ?_⟩
  · obtain ⟨key, key', hkey, hkey', hcode⟩ := encodeKey_eq_iff hrow hother
    refine ⟨key, key', hkey, hkey', fun heq => ?_⟩
    exact absurd (hcode.1 heq 0 ((hcolumns 0).2 (.inl rfl))) (by decide)
  · obtain ⟨key, key', hkey, hkey', hcode⟩ :=
      encodeKey_eq_iff hrow (List.forall_mem_singleton.1 hthird)
    refine ⟨key, key', hkey, hkey', hcode.2 fun c hc => ?_⟩
    rcases (hcolumns c).1 hc with rfl | rfl <;> rfl

end Grouping
end Relational
