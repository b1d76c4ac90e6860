import Relational.Ordered

/-!
# Members of ordered lists

An ordered list has the members that were inserted and no others.
-/
namespace Relational
variable {α : Type} {order : α → α → Ordering} {x y : α} {xs ys : List α}

theorem mem_insertOrdered (h : y ∈ insertOrdered order x xs) : y = x ∨ y ∈ xs := by
  induction xs with
  | nil => exact .inl (List.mem_singleton.1 h)
  | cons z rest ih =>
    unfold insertOrdered at h
    split at h
    · exact List.mem_cons.1 h
    · exact .inr h
    · rcases List.mem_cons.1 h with rfl | h
      · exact .inr List.mem_cons_self
      · exact (ih h).imp_right (List.mem_cons_of_mem _)

theorem mem_of_mem_mergeOrdered (h : y ∈ mergeOrdered order xs ys) : y ∈ xs ∨ y ∈ ys := by
  induction ys generalizing xs with
  | nil => exact .inl h
  | cons x rest ih =>
    rcases ih h with h | h
    · rcases mem_insertOrdered h with rfl | h
      · exact .inr List.mem_cons_self
      · exact .inl h
    · exact .inr (List.mem_cons_of_mem _ h)

variable [Std.LawfulEqCmp order]

theorem self_mem_insertOrdered (x : α) (xs : List α) : x ∈ insertOrdered order x xs := by
  induction xs with
  | nil => exact List.mem_singleton_self x
  | cons y rest ih =>
    unfold insertOrdered
    split
    · exact List.mem_cons_self
    next heq =>
      obtain rfl : x = y := Std.LawfulEqCmp.compare_eq_iff_eq.1 heq
      exact List.mem_cons_self
    · exact List.mem_cons_of_mem _ ih

omit [Std.LawfulEqCmp order] in
theorem mem_insertOrdered_of_mem (h : y ∈ xs) : y ∈ insertOrdered order x xs := by
  induction xs with
  | nil => cases h
  | cons z rest ih =>
    unfold insertOrdered
    split
    · exact List.mem_cons_of_mem _ h
    · exact h
    · rcases List.mem_cons.1 h with rfl | h
      · exact List.mem_cons_self
      · exact List.mem_cons_of_mem _ (ih h)

theorem mem_mergeOrdered (h : y ∈ xs ∨ y ∈ ys) : y ∈ mergeOrdered order xs ys := by
  induction ys generalizing xs with
  | nil => exact h.resolve_right List.not_mem_nil
  | cons z rest ih =>
    refine ih ?_
    rcases h with h | h
    · exact .inl (mem_insertOrdered_of_mem h)
    · rcases List.mem_cons.1 h with rfl | h
      · exact .inl (self_mem_insertOrdered y xs)
      · exact .inr h

theorem mem_mergeAll {lists : List (List α)} :
    y ∈ lists.foldl (mergeOrdered order) xs ↔ y ∈ xs ∨ ∃ ys ∈ lists, y ∈ ys := by
  induction lists generalizing xs with
  | nil => simp
  | cons ys rest ih =>
    have hfirst : y ∈ mergeOrdered order xs ys ↔ y ∈ xs ∨ y ∈ ys :=
      ⟨mem_of_mem_mergeOrdered, mem_mergeOrdered⟩
    simp [ih, hfirst, or_assoc]

end Relational
