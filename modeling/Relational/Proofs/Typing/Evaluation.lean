import Relational.Expr.Eval
import Relational.Proofs.Typing.Conformance

/-!
# Typed evaluation

Over conforming rows, and operands of the types that a call accepts, every operator yields a value
of the type that the call gets.
-/
namespace Relational

namespace Value
variable {x y : Value} {s t : DataType}

theorem Conforms.cases (h : x.Conforms s) (hnull : x ≠ .null) :
    s = x.dataType ∨ x.dataType = .utf8 ∧ s = .largeUtf8 := by
  rcases h with h | h | h
  · exact absurd h hnull
  · exact .inl h.symm
  · exact .inr h

theorem Conforms.eq_null (h : x.Conforms .null) : x = .null := by
  rcases h with h | h | ⟨-, h⟩
  · exact h
  · cases x <;> simp [dataType] at h
    rfl
  · cases h

theorem Conforms.bool (h : x.Conforms .boolean) : x = .null ∨ ∃ b, x = .boolean b := by
  rcases h with h | h | ⟨-, h⟩
  · exact .inl h
  · cases x <;> simp [dataType] at h
    exact .inr ⟨_, rfl⟩
  · cases h

theorem Conforms.number (h : x.Conforms s) (hnull : x ≠ .null) (hs : s.isNumeric) :
    s = x.dataType ∧ ∃ a, x.number? = some a := by
  rcases h.cases hnull with rfl | ⟨-, rfl⟩
  · cases x <;> simp [dataType, DataType.isNumeric, DataType.width?, number?] at hs ⊢
  · cases hs

theorem word_compare?_eq_none {f : Binary.Format} {a b : Binary.Word f}
    (h : a.compare? b = none) : a.isNaN = true ∨ b.isNaN = true := by
  unfold Binary.Word.compare? at h
  split at h
  next hnan => simpa using hnan
  · cases h

theorem compare?_numbers {a b : Binary64} (ha : x.number? = some a) (hb : y.number? = some b)
    (h : x.compare? y = none) : x.IsNaN ∨ y.IsNaN := by
  have hwords : a.compare? b = none → x.IsNaN ∨ y.IsNaN := fun h =>
    (word_compare?_eq_none h).imp (fun h => ⟨a, ha, h⟩) fun h => ⟨b, hb, h⟩
  cases x <;> cases y <;> simp_all [compare?, integer?, number?]

theorem compare?_comparable (hx : x.Conforms s) (hy : y.Conforms t) (hxnull : x ≠ .null)
    (hynull : y ≠ .null) (hst : s.comparable t) (h : x.compare? y = none) :
    x.IsNaN ∨ y.IsNaN := by
  rcases hx.cases hxnull with rfl | ⟨hxs, rfl⟩ <;> rcases hy.cases hynull with rfl | ⟨hyt, rfl⟩ <;>
    cases x <;> cases y <;>
    first
    | exact compare?_numbers rfl rfl h
    | simp_all [dataType, DataType.comparable, DataType.isNumeric, DataType.isText,
        DataType.width?, compare?]

end Value

namespace Compiled
open Value
variable {schema : Schema} {row : Row}

def Sound (schema : Schema) (c : Compiled) : Prop :=
  ∀ row : Row, row.Conforms schema → Yields (·.Conforms c.type) (c.eval row)

theorem truth?_yields (what : String) {v : Value} {t : DataType} (hv : v.Conforms t)
    (ht : t = .boolean ∨ t = .null) : Yields (fun _ => True) (truth? what v) := by
  rcases ht with rfl | rfl
  · rcases hv.bool with rfl | ⟨b, rfl⟩ <;> trivial
  · rw [hv.eq_null]
    trivial

theorem ofTruth_conforms (b : Option Bool) : (ofTruth b).Conforms .boolean := by
  cases b <;> simp [ofTruth]

theorem binary_sound {l r : Compiled} {out : DataType} {f : Value → Value → Except Error Value}
    (hl : l.Sound schema) (hr : r.Sound schema)
    (hf : ∀ x y, x.Conforms l.type → y.Conforms r.type → x ≠ .null → y ≠ .null →
      Yields (·.Conforms out) (f x y)) : (binary out f l r).Sound schema := by
  intro row hrow
  refine (hl row hrow).bind fun x hx => (hr row hrow).bind fun y hy => ?_
  split
  · exact null_conforms out
  next h =>
    simp only [Bool.or_eq_true, isNull_iff, not_or] at h
    exact hf x y hx hy h.1 h.2

theorem compareValues_yields (c : Comparison) {x y : Value} {s t : DataType}
    (hst : s.comparable t) (hx : x.Conforms s) (hy : y.Conforms t) (hxnull : x ≠ .null)
    (hynull : y ≠ .null) : Yields (·.Conforms .boolean) (compareValues c x y) := by
  unfold compareValues
  split
  · exact boolean_conforms _
  next h => exact .notANumber (compare?_comparable hx hy hxnull hynull hst h)

theorem floatArith_yields (a : Arithmetic) (x y : Binary64) :
    Yields (fun _ => True) (floatArith a x y) := by
  cases a <;> simp only [floatArith]
  case divide =>
    split
    · exact .divisionByZero
    · trivial
  all_goals trivial

theorem floatValues_yields (a : Arithmetic) {out : DataType} {x y : Value} {m n : Binary64}
    (hout : out = .float32 ∨ out = .float64) (hx : x.number? = some m) (hy : y.number? = some n) :
    Yields (·.Conforms out) (arithValues a out x y) := by
  rcases hout with rfl | rfl <;> simp only [arithValues, hx, hy] <;>
    exact (floatArith_yields a m n).bind fun z _ => castTo_yields _ _

theorem integerValues_yields {a : Arithmetic} {out : DataType} {x y : Value} {m n : Int}
    (ha : a ≠ .divide) (hout : out = .int32 ∨ out = .int64) (hx : x.integer? = some m)
    (hy : y.integer? = some n) : Yields (·.Conforms out) (arithValues a out x y) := by
  have hn : ∃ k, intArith a m n = .ok k := by
    cases a <;> first | exact absurd rfl ha | exact ⟨_, rfl⟩
  obtain ⟨k, hk⟩ := hn
  rcases hout with rfl | rfl <;> simp only [arithValues, hx, hy, hk, ok_bind] <;> split
  · split
    next h => exact castTo?_conforms h
    · exact .overflow a m n
  · exact .overflow a m n
  · split
    next h => exact castTo?_conforms h
    · exact .overflow a m n
  · exact .overflow a m n

theorem arithmeticType_eq_ok {a : Arithmetic} {s t out : DataType}
    (h : Expr.arithmeticType a s t = .ok out) :
    (s.isNumeric ∨ s = .null) ∧ (t.isNumeric ∨ t = .null) ∧
      out = if a = .divide then .float64 else if s = .null then t else (s.wider? t).getD s := by
  simp only [Expr.arithmeticType, bind_eq_ok, require_eq_ok, Bool.and_eq_true, Bool.or_eq_true,
    beq_iff_eq] at h
  obtain ⟨_, ⟨hs, ht⟩, h⟩ := h
  refine ⟨hs, ht, ?_⟩
  split at h
  next ha => simp_all
  · split at h <;> simp_all

theorem arithValues_yields {a : Arithmetic} {s t out : DataType} {x y : Value}
    (h : Expr.arithmeticType a s t = .ok out) (hx : x.Conforms s) (hy : y.Conforms t)
    (hxnull : x ≠ .null) (hynull : y ≠ .null) : Yields (·.Conforms out) (arithValues a out x y) := by
  obtain ⟨hs, ht, rfl⟩ := arithmeticType_eq_ok h
  have hs : s.isNumeric := hs.resolve_right fun hs => hxnull (hs ▸ hx).eq_null
  have ht : t.isNumeric := ht.resolve_right fun ht => hynull (ht ▸ hy).eq_null
  obtain ⟨rfl, m, hm⟩ := hx.number hxnull hs
  obtain ⟨rfl, n, hn⟩ := hy.number hynull ht
  by_cases ha : a = .divide
  · rw [if_pos ha]
    exact floatValues_yields a (.inr rfl) hm hn
  · rw [if_neg ha]
    cases x <;> cases y <;>
      first
      | cases hm; done
      | cases hn; done
      | exact integerValues_yields ha (.inl rfl) rfl rfl
      | exact integerValues_yields ha (.inr rfl) rfl rfl
      | exact floatValues_yields a (.inl rfl) hm hn
      | exact floatValues_yields a (.inr rfl) hm hn

theorem evalJunction_yields (what : String) (neutral sawNull : Bool) (hrow : row.Conforms schema)
    {cs : List Compiled}
    (hcs : ∀ c ∈ cs, c.Sound schema ∧ (c.type = .boolean ∨ c.type = .null)) :
    Yields (·.Conforms .boolean) (evalJunction what neutral sawNull row cs) := by
  induction cs generalizing sawNull with
  | nil =>
    unfold evalJunction
    split <;> simp [Yields]
  | cons c rest ih =>
    obtain ⟨hc, htype⟩ := hcs c List.mem_cons_self
    have hrest := fun c hc => hcs c (List.mem_cons_of_mem _ hc)
    unfold evalJunction
    refine (hc row hrow).bind fun v hv => (truth?_yields what hv htype).bind fun b _ => ?_
    split
    · split
      · exact ih sawNull hrest
      · exact boolean_conforms _
    · exact ih true hrest

theorem evalIn_yields (probe : Value) (sawNull : Bool) (hrow : row.Conforms schema)
    {cs : List Compiled} (hcs : ∀ c ∈ cs, c.Sound schema) :
    Yields (·.Conforms .boolean) (evalIn probe sawNull row cs) := by
  induction cs generalizing sawNull with
  | nil =>
    unfold evalIn
    split <;> simp [Yields]
  | cons c rest ih =>
    have hrest := fun c hc => hcs c (List.mem_cons_of_mem _ hc)
    unfold evalIn
    refine (hcs c List.mem_cons_self row hrow).bind fun v _ => ?_
    split
    · exact ih true hrest
    · split
      · exact boolean_conforms _
      · exact ih sawNull hrest

theorem evalCoalesce_yields (out : DataType) (hrow : row.Conforms schema) {cs : List Compiled}
    (hcs : ∀ c ∈ cs, c.Sound schema) : Yields (·.Conforms out) (evalCoalesce out row cs) := by
  induction cs with
  | nil => exact null_conforms out
  | cons c rest ih =>
    unfold evalCoalesce
    refine (hcs c List.mem_cons_self row hrow).bind fun v _ => ?_
    split
    · exact ih fun c hc => hcs c (List.mem_cons_of_mem _ hc)
    · exact castTo_yields v out

end Compiled
end Relational
