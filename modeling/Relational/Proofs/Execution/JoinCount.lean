import Mathlib.Algebra.BigOperators.Group.List.Lemmas
import Mathlib.Tactic.Linarith
import Relational.Proofs.Execution.Joining

/-!
# Numbers of rows of joins

How many rows a join makes of the rows of its inputs, at least and at most, whatever matches. Each
row of an input that an outer join keeps is in a pair or left over; a single match is enough for
the rows of a full join to be no more than all pairs.
-/
namespace Relational

section Matches
variable {α β : Type} {f : α → ℕ} {xs : List α} {n : ℕ}

theorem length_le_sum_add_countP (f : α → ℕ) (xs : List α) :
    xs.length ≤ (xs.map f).sum + xs.countP (f · == 0) := by
  induction xs with
  | nil => simp
  | cons a rest ih =>
    rw [List.length_cons, List.map_cons, List.sum_cons, List.countP_cons]
    split
    · omega
    next h =>
      have hsome : f a ≠ 0 := by simpa using h
      omega

theorem sum_add_countP_mul_le (h : ∀ a ∈ xs, f a ≤ n) :
    (xs.map f).sum + xs.countP (f · == 0) * n ≤ xs.length * n := by
  induction xs with
  | nil => simp
  | cons a rest ih =>
    obtain ⟨ha, hrest⟩ := List.forall_mem_cons.1 h
    have ih := ih hrest
    rw [List.length_cons, List.map_cons, List.sum_cons, List.countP_cons, Nat.succ_mul]
    split
    next hnone =>
      have hnone : f a = 0 := by simpa using hnone
      rw [hnone, Nat.succ_mul]
      omega
    · rw [Nat.add_zero]
      omega

theorem sum_add_countP_le (h : ∀ a ∈ xs, f a ≤ n) :
    (xs.map f).sum + xs.countP (f · == 0) ≤ xs.length * max 1 n := by
  have htotal := sum_add_countP_mul_le fun a ha => le_trans (h a ha) (le_max_right 1 n)
  have hpos : 0 < max 1 n := lt_max_of_lt_left one_pos
  have hone := Nat.le_mul_of_pos_right (xs.countP (f · == 0)) hpos
  omega

theorem countP_eq_sum (xs : List α) (p : α → Bool) :
    xs.countP p = (xs.map fun a => if p a then 1 else 0).sum := by
  induction xs with
  | nil => rfl
  | cons a rest ih => rw [List.countP_cons, ih, List.map_cons, List.sum_cons, Nat.add_comm]

theorem sum_countP_comm (p : α → β → Bool) (xs : List α) (ys : List β) :
    (xs.map fun a => ys.countP (p a)).sum = (ys.map fun b => xs.countP (p · b)).sum := by
  induction ys with
  | nil => simp
  | cons b rest ih =>
    rw [List.map_cons, List.sum_cons, ← ih, countP_eq_sum xs, Nat.add_comm]
    simp only [List.countP_cons, List.sum_map_add]

theorem isEmpty_eq_length_beq (xs : List α) : xs.isEmpty = (xs.length == 0) := by
  cases xs <;> rfl

end Matches

namespace Joining
variable (j : Joining)

theorem length_pairs : j.pairs.length = (j.left.map fun a => (j.matchesOf a).length).sum := by
  simp [pairs, List.length_flatMap]

/-- The same pairs, by the row of the right input. -/
theorem length_pairs_right :
    j.pairs.length = (j.right.map fun b => (j.matchesTo b).length).sum := by
  simp only [length_pairs, matchesOf, matchesTo, ← List.countP_eq_length_filter]
  exact sum_countP_comm j.holds j.left j.right

theorem length_leftOver :
    j.leftOver.length = j.left.countP fun a => (j.matchesOf a).length == 0 := by
  simp only [leftOver, List.countP_eq_length_filter, isEmpty_eq_length_beq]

theorem length_rightOver :
    j.rightOver.length = j.right.countP fun b => (j.matchesTo b).length == 0 := by
  simp only [rightOver, List.countP_eq_length_filter, isEmpty_eq_length_beq]

theorem length_left_le : j.left.length ≤ j.pairs.length + j.leftOver.length := by
  rw [length_pairs, length_leftOver]
  exact length_le_sum_add_countP _ _

theorem length_right_le : j.right.length ≤ j.pairs.length + j.rightOver.length := by
  rw [length_pairs_right, length_rightOver]
  exact length_le_sum_add_countP _ _

theorem length_pairs_add_leftOver :
    j.pairs.length + j.leftOver.length ≤ j.left.length * max 1 j.right.length := by
  rw [length_pairs, length_leftOver]
  exact sum_add_countP_le fun a _ => List.length_filter_le _ _

theorem length_pairs_add_rightOver :
    j.pairs.length + j.rightOver.length ≤ j.right.length * max 1 j.left.length := by
  rw [length_pairs_right, length_rightOver]
  exact sum_add_countP_le fun b _ => List.length_filter_le _ _

theorem length_pairs_le : j.pairs.length ≤ j.left.length * j.right.length := by
  have h := sum_add_countP_mul_le (f := fun a => (j.matchesOf a).length)
    fun a (_ : a ∈ j.left) => List.length_filter_le (j.holds a) j.right
  rw [← length_pairs] at h
  omega

theorem length_matchesOf_add_rightOver {a : Row} (ha : a ∈ j.left) :
    (j.matchesOf a).length + j.rightOver.length ≤ j.right.length := by
  have hcover : (j.matchesOf a).length ≤
      (j.right.filter fun b => !(j.matchesTo b).isEmpty).length := by
    refine (List.monotone_filter_right j.right fun b hb => ?_).length_le
    have hmem : a ∈ j.matchesTo b := List.mem_filter.2 ⟨ha, hb⟩
    simp [List.ne_nil_of_mem hmem]
  have hsplit := List.length_eq_length_filter_add (l := j.right) (fun b => (j.matchesTo b).isEmpty)
  have hover : j.rightOver.length = (j.right.filter fun b => (j.matchesTo b).isEmpty).length := rfl
  omega

/-- Where something matches, the pairs and what is left over on both sides are no more than all
pairs. -/
theorem length_full_le (hmatch : j.pairs ≠ []) :
    j.pairs.length + j.leftOver.length + j.rightOver.length ≤ j.left.length * j.right.length := by
  obtain ⟨row, hrow⟩ := List.exists_mem_of_ne_nil _ hmatch
  obtain ⟨a, ha, b, hb, hholds, -⟩ := mem_pairs.1 hrow
  have hrest := j.length_matchesOf_add_rightOver ha
  have hsome : 0 < (j.matchesOf a).length := List.length_pos_of_mem (mem_matchesOf.2 ⟨hb, hholds⟩)
  have htotal := sum_add_countP_mul_le (f := fun a => (j.matchesOf a).length)
    fun a (ha : a ∈ j.left) => Nat.le_sub_of_add_le (j.length_matchesOf_add_rightOver ha)
  rw [← length_pairs, ← length_leftOver] at htotal
  have hleft : j.leftOver.length < j.left.length := by
    refine lt_of_le_of_ne (List.length_filter_le _ _) fun heq => ?_
    have hall := List.length_filter_eq_length_iff.1 heq a ha
    rw [List.isEmpty_iff] at hall
    simp [hall] at hsome
  obtain ⟨x, hx⟩ := Nat.exists_eq_add_of_lt hleft
  obtain ⟨y, hy⟩ : ∃ y, j.right.length = j.rightOver.length + y + 1 :=
    ⟨j.right.length - j.rightOver.length - 1, by omega⟩
  have hwidth : j.right.length - j.rightOver.length = y + 1 := by omega
  rw [hwidth, hx] at htotal
  rw [hx, hy]
  nlinarith

end Joining
end Relational
