import Relational.Proofs.Binary.Order
import Relational.Proofs.Expr.Pinned

/-!
# The order that sorting uses

Every value ties with itself, and two values exchanged have the order turned around. The order is
transitive except across a float that ties with values that do not tie: what is not a number ties
with all numbers, and a float to which two integers are rounded ties with both.
-/
namespace Relational

theorem compare_ne_gt_trans {α : Type} [Ord α] [Std.TransOrd α] {p q r : α}
    (h : compare p q ≠ .gt) (h' : compare q r ≠ .gt) : compare p r ≠ .gt :=
  Ordering.isLE_iff_ne_gt.1
    (Std.TransCmp.isLE_trans (Ordering.isLE_iff_ne_gt.2 h) (Ordering.isLE_iff_ne_gt.2 h'))

namespace Value
variable {a b c : Value} {x y z : Binary64} {m n : Int}

theorem number?_of_integer? (h : a.integer? = some m) : a.number? = some (.ofInt m) := by
  cases a <;> cases h <;> rfl

theorem compare?_integers (ha : a.integer? = some m) (hb : b.integer? = some n) :
    a.compare? b = some (compare m n) := by
  cases a <;> cases ha <;> cases b <;> cases hb <;> rfl

theorem compare?_words (ha : a.number? = some x) (hb : b.number? = some y)
    (h : a.integer? = none ∨ b.integer? = none) : a.compare? b = x.compare? y := by
  cases a <;> cases ha <;> cases b <;> cases hb <;> first | rfl | simp [integer?] at h

theorem integers_or_word (a b : Value) : (∃ m n, a.integer? = some m ∧ b.integer? = some n) ∨
    (a.integer? = none ∨ b.integer? = none) := by
  cases a.integer? <;> cases b.integer? <;> simp

/-- Where a value stands before values of one sort are compared: nulls are last. -/
def sortClass : Value → Nat
  | null => 4
  | v => v.sortRank

theorem sortOrder_of_sortClass_ne (h : a.sortClass ≠ b.sortClass) :
    a.sortOrder b = compare a.sortClass b.sortClass := by
  cases a <;> cases b <;> first | rfl | exact absurd rfl h

theorem cases_sortClass (h : a.sortClass = b.sortClass) :
    (a = .null ∧ b = .null) ∨ (∃ p q, a = .boolean p ∧ b = .boolean q) ∨
      (∃ x y, a.number? = some x ∧ b.number? = some y) ∨ ∃ s t, a = .utf8 s ∧ b = .utf8 t := by
  cases a <;> cases b <;> simp [sortClass, sortRank, number?] at h ⊢

theorem number?_of_sortClass (h : a.sortClass = b.sortClass) (ha : a.number? = some x) :
    ∃ y, b.number? = some y := by
  cases a <;> cases ha <;> cases b <;> first | exact ⟨_, rfl⟩ | cases h

theorem sortOrder_numbers (ha : a.number? = some x) (hb : b.number? = some y) :
    a.sortOrder b = (a.compare? b).getD .eq := by
  cases a <;> cases ha <;> cases b <;> cases hb <;> rfl

theorem compare?_swap (a b : Value) : b.compare? a = (a.compare? b).map Ordering.swap := by
  by_cases hclass : a.sortClass = b.sortClass
  · rcases cases_sortClass hclass with ⟨rfl, rfl⟩ | ⟨p, q, rfl, rfl⟩ | ⟨x, y, ha, hb⟩ | ⟨s, t, rfl, rfl⟩
    · rfl
    · exact congrArg some Std.OrientedOrd.eq_swap
    · rcases integers_or_word a b with ⟨m, n, hm, hn⟩ | hword
      · rw [compare?_integers hm hn, compare?_integers hn hm]
        exact congrArg some Std.OrientedOrd.eq_swap
      · rw [compare?_words ha hb hword, compare?_words hb ha hword.symm, x.compare?_swap]
    · exact congrArg some Std.OrientedOrd.eq_swap
  · cases a <;> cases b <;> first | rfl | exact absurd rfl hclass

theorem compare?_symm (h : a.compare? b = some .eq) : b.compare? a = some .eq := by
  rw [compare?_swap a b, h]
  rfl

theorem sortOrder_swap (a b : Value) : b.sortOrder a = (a.sortOrder b).swap := by
  unfold sortOrder
  cases a.isNull <;> cases b.isNull
  case false.false =>
    dsimp only
    rw [compare?_swap a b]
    cases a.compare? b with
    | none => exact Std.OrientedOrd.eq_swap
    | some o => rfl
  all_goals rfl

theorem sortOrder_self (a : Value) : a.sortOrder a = .eq := by
  have hswap := sortOrder_swap a a
  cases h : a.sortOrder a <;> rw [h] at hswap <;> cases hswap

theorem sortClass_le (h : a.sortOrder b ≠ .gt) : a.sortClass ≤ b.sortClass := by
  by_cases hclass : a.sortClass = b.sortClass
  · exact hclass.le
  · rwa [sortOrder_of_sortClass_ne hclass, compare_le_iff_le] at h

theorem compare?_ranks (ha : a.number? = some x) (hb : b.number? = some y)
    (h : a.integer? = none ∨ b.integer? = none) (hx : x.isNaN = false) (hy : y.isNaN = false) :
    a.compare? b = some (compare x.rank y.rank) := by
  rw [compare?_words ha hb h]
  exact Binary.Word.compare?_eq_some.2 ⟨⟨hx, hy⟩, rfl⟩

theorem sortOrder_ranks (ha : a.number? = some x) (hb : b.number? = some y)
    (h : a.integer? = none ∨ b.integer? = none) (hx : x.isNaN = false) (hy : y.isNaN = false) :
    a.sortOrder b = compare x.rank y.rank := by
  rw [sortOrder_numbers ha hb, compare?_ranks ha hb h hx hy, Option.getD_some]

theorem sortOrder_integers (ha : a.integer? = some m) (hb : b.integer? = some n) :
    a.sortOrder b = compare m n := by
  rw [sortOrder_numbers (number?_of_integer? ha) (number?_of_integer? hb), compare?_integers ha hb,
    Option.getD_some]

theorem not_isNaN_of_compare? {o : Ordering} (ha : a.number? = some x) (hb : b.number? = some y)
    (h : a.compare? b = some o) : x.isNaN = false ∧ y.isNaN = false := by
  rcases integers_or_word a b with ⟨m, n, hm, hn⟩ | hword
  · cases ha.symm.trans (number?_of_integer? hm)
    cases hb.symm.trans (number?_of_integer? hn)
    exact ⟨Binary.Word.isNaN_ofInt m, Binary.Word.isNaN_ofInt n⟩
  · exact (Binary.Word.compare?_eq_some.1 (compare?_words ha hb hword ▸ h)).1

/-- The words of numbers in order are in order, also where the numbers are compared as integers. -/
theorem rank_le (ha : a.number? = some x) (hb : b.number? = some y) (hx : x.isNaN = false)
    (hy : y.isNaN = false) (h : a.sortOrder b ≠ .gt) : x.rank ≤ y.rank := by
  rcases integers_or_word a b with ⟨m, n, hm, hn⟩ | hword
  · rw [sortOrder_integers hm hn, compare_le_iff_le] at h
    cases ha.symm.trans (number?_of_integer? hm)
    cases hb.symm.trans (number?_of_integer? hn)
    exact Binary.Word.rank_ofInt_mono h
  · rwa [sortOrder_ranks ha hb hword hx hy, compare_le_iff_le] at h

theorem isFloat_of_number? (h : a.number? = some x) (hinteger : a.integer? = none) : a.IsFloat := by
  cases a with
  | float32 | float64 => trivial
  | int32 | int64 => cases hinteger
  | null | boolean | utf8 => cases h

/-- A float that ties with two values, though the second is less than the first. -/
inductive Blurs (b a c : Value) : Prop
  | nan (hb : b.IsNaN) (h : c.compare? a = some .lt)
  | rounded {m n : Int} (ha : a.integer? = some m) (hc : c.integer? = some n) (h : n < m)
      (hb : b.IsFloat) (hab : a.compare? b = some .eq) (hbc : b.compare? c = some .eq)

theorem sortOrder_eq_gt (h : c.compare? a = some .lt) : a.sortOrder c = .gt := by
  have hswap := compare?_swap c a
  rw [h] at hswap
  cases a <;> cases c <;> first | cases h | (rw [sortOrder, hswap]; rfl)

theorem Blurs.sortOrder (h : b.Blurs a c) : a.sortOrder c = .gt := by
  cases h with
  | nan hb h => exact sortOrder_eq_gt h
  | rounded ha hc h hb hab hbc =>
    refine sortOrder_eq_gt ?_
    rw [compare?_integers hc ha, compare_lt_iff_lt.2 h]

/-- Where no word is between the rounded integers, all three words are the same. -/
theorem blurs_numbers (ha : a.number? = some x) (hb : b.number? = some y) (hc : c.number? = some z)
    (hab : a.sortOrder b ≠ .gt) (hbc : b.sortOrder c ≠ .gt) (hac : a.sortOrder c = .gt) :
    b.Blurs a c := by
  have hgreater : a.compare? c = some .gt := by
    rw [sortOrder_numbers ha hc] at hac
    cases h : a.compare? c with
    | none =>
      rw [h] at hac
      cases hac
    | some o =>
      rw [h] at hac
      exact congrArg some hac
  have hless : c.compare? a = some .lt := by rw [compare?_swap a c, hgreater]; rfl
  obtain ⟨hx, hz⟩ := not_isNaN_of_compare? ha hc hgreater
  cases hy : y.isNaN with
  | true => exact .nan ⟨y, hb, hy⟩ hless
  | false =>
    have hxy := rank_le ha hb hx hy hab
    have hyz := rank_le hb hc hy hz hbc
    rcases integers_or_word a c with ⟨m, n, hm, hn⟩ | hword
    · rw [compare?_integers hn hm, Option.some.injEq, compare_lt_iff_lt] at hless
      cases ha.symm.trans (number?_of_integer? hm)
      cases hc.symm.trans (number?_of_integer? hn)
      have hzx := Binary.Word.rank_ofInt_mono (f := Binary.double) hless.le
      cases hk : b.integer? with
      | some k =>
        rw [sortOrder_integers hm hk, compare_le_iff_le] at hab
        rw [sortOrder_integers hk hn, compare_le_iff_le] at hbc
        exact absurd hless (hab.trans hbc).not_gt
      | none =>
        refine .rounded hm hn hless (isFloat_of_number? hb hk) ?_ ?_
        · rw [compare?_ranks ha hb (.inr hk) hx hy,
            compare_eq_iff_eq.2 (hxy.antisymm (hyz.trans hzx))]
        · rw [compare?_ranks hb hc (.inl hk) hy hz,
            compare_eq_iff_eq.2 (hyz.antisymm (hzx.trans hxy))]
    · rw [sortOrder_ranks ha hc hword hx hz, compare_gt_iff_gt] at hac
      exact absurd hac (hxy.trans hyz).not_gt

/-- Sorting compares by a total preorder except across blurs. -/
theorem sortOrder_preorder (a b c : Value) :
    a.sortOrder a = .eq ∧ b.sortOrder a = (a.sortOrder b).swap ∧
      (a.sortOrder b ≠ .gt → b.sortOrder c ≠ .gt → (a.sortOrder c = .gt ↔ b.Blurs a c)) := by
  refine ⟨sortOrder_self a, sortOrder_swap a b, fun hab hbc => ⟨fun hac => ?_, Blurs.sortOrder⟩⟩
  have hca : c.sortOrder a ≠ .gt := by
    rw [sortOrder_swap a c, hac]
    decide
  have hclasses : a.sortClass = b.sortClass ∧ b.sortClass = c.sortClass := by
    have hab := sortClass_le hab
    have hbc := sortClass_le hbc
    have hca := sortClass_le hca
    omega
  rcases cases_sortClass hclasses.1 with ⟨rfl, rfl⟩ | ⟨p, q, rfl, rfl⟩ | ⟨x, y, ha, hb⟩ | ⟨s, t, rfl, rfl⟩
  · exact absurd hac hbc
  · obtain ⟨r, rfl⟩ : ∃ r, c = .boolean r := by
      cases c <;> first | exact ⟨_, rfl⟩ | cases hclasses.2
    exact absurd hac (compare_ne_gt_trans hab hbc)
  · obtain ⟨z, hc⟩ := number?_of_sortClass hclasses.2 hb
    exact blurs_numbers ha hb hc hab hbc hac
  · obtain ⟨u, rfl⟩ : ∃ u, c = .utf8 u := by
      cases c <;> first | exact ⟨_, rfl⟩ | cases hclasses.2
    exact absurd hac (compare_ne_gt_trans hab hbc)

theorem sortOrder_preorder_rounded :
    let a := Value.int64 9007199254740993
    let b := Value.float64 (.ofInt 9007199254740992)
    let c := Value.int64 9007199254740992
    (a.sortOrder b ≠ .gt ∧ b.sortOrder c ≠ .gt) ∧ b.Blurs a c :=
  ⟨by decide +kernel,
    ((sortOrder_preorder _ _ _).2.2 (by decide +kernel) (by decide +kernel)).1 (by decide +kernel)⟩

/-- One ties with what is not a number, and so does zero. -/
theorem sortOrder_not_transitive :
    ¬ ∀ a b c : Value, a.sortOrder b ≠ .gt → b.sortOrder c ≠ .gt → a.sortOrder c ≠ .gt :=
  fun h => h (.float64 (.ofInt 1)) (.float64 (.nan false)) (.float64 (.ofInt 0))
    (by decide +kernel) (by decide +kernel) (by decide +kernel)

end Value
end Relational
