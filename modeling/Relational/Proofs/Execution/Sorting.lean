import Relational.Execution.Sort

/-!
# Sorting

A sort emits the rows that it received, in order where what it compares by is an order among them.
A window keeps some of them.
-/
namespace Relational
variable {α : Type} {less : α → α → Bool}

theorem insertLast_perm (x : α) (ys : List α) : (insertLast less x ys).Perm (x :: ys) := by
  induction ys with
  | nil => exact .refl _
  | cons y rest ih =>
    simp only [insertLast]
    split
    · exact (ih.cons y).trans (.swap x y rest)
    · exact .refl _

theorem stableSort_perm (xs : List α) : (stableSort less xs).Perm xs := by
  have hfold (sorted : List α) :
      (xs.foldl (fun sorted x => insertLast less x sorted) sorted).Perm (sorted ++ xs) := by
    induction xs generalizing sorted with
    | nil => rw [List.append_nil]; exact .refl _
    | cons x rest ih =>
      refine (ih _).trans (((insertLast_perm x sorted).append_right rest).trans ?_)
      exact List.perm_middle.symm
  exact (List.reverse_perm _).trans (hfold [])

theorem insertLast_map {β : Type} (f : β → α) (x : β) (ys : List β) :
    insertLast less (f x) (ys.map f) =
      (insertLast (fun a b => less (f a) (f b)) x ys).map f := by
  induction ys with
  | nil => rfl
  | cons y rest ih =>
    simp only [List.map_cons, insertLast]
    split
    · rw [ih, List.map_cons]
    · rfl

theorem stableSort_map {β : Type} (f : β → α) (xs : List β) :
    stableSort less (xs.map f) = (stableSort (fun a b => less (f a) (f b)) xs).map f := by
  have hfold (sorted : List β) :
      (xs.map f).foldl (fun sorted x => insertLast less x sorted) (sorted.map f) =
        (xs.foldl (fun sorted x => insertLast (fun a b => less (f a) (f b)) x sorted)
          sorted).map f := by
    induction xs generalizing sorted with
    | nil => rfl
    | cons x rest ih => rw [List.map_cons, List.foldl_cons, insertLast_map, ih, List.foldl_cons]
  rw [stableSort, stableSort, List.map_reverse]
  exact congrArg List.reverse (hfold [])

section Order
variable {cmp : α → α → Ordering} {S : α → Prop} {R : α → α → Prop} {x : α} {xs ys : List α}

/-- In order, and of those that tie the first by `R` is in front. -/
def Leads (cmp : α → α → Ordering) (R : α → α → Prop) (a b : α) : Prop :=
  cmp a b = .lt ∨ cmp a b = .eq ∧ R a b

theorem Leads.isLE {a b : α} (h : Leads cmp R a b) : (cmp a b).isLE = true := by
  rcases h with h | ⟨h, -⟩ <;> rw [h] <;> rfl

theorem leads_of_isLE {a b : α} (h : (cmp a b).isLE = true) (hR : R a b) :
    Leads cmp R a b := by
  unfold Leads
  cases hab : cmp a b with
  | lt => exact .inl rfl
  | eq => exact .inr ⟨rfl, hR⟩
  | gt =>
    rw [hab] at h
    cases h

variable [Std.TransCmp cmp]

theorem insertLast_pairwise (hless : ∀ a b, S a → S b → (less a b = true ↔ cmp a b = .lt))
    (hx : S x) (hys : ∀ y ∈ ys, S y) (hR : ∀ y ∈ ys, R y x)
    (h : ys.Pairwise fun a b => Leads cmp R b a) :
    (insertLast less x ys).Pairwise fun a b => Leads cmp R b a := by
  induction ys with
  | nil => exact List.pairwise_singleton _ _
  | cons y rest ih =>
    obtain ⟨hy, hrest⟩ := List.pairwise_cons.1 h
    obtain ⟨hSy, hSrest⟩ := List.forall_mem_cons.1 hys
    obtain ⟨hRy, hRrest⟩ := List.forall_mem_cons.1 hR
    simp only [insertLast]
    split
    next hlt =>
      refine .cons (fun z hz => ?_) (ih hSrest hRrest hrest)
      rcases List.mem_cons.1 ((insertLast_perm x rest).subset hz) with rfl | hz
      · exact .inl ((hless z y hx hSy).1 hlt)
      · exact hy z hz
    next hge =>
      have hyx : (cmp y x).isLE = true := by
        rw [hless x y hx hSy, ← Std.OrientedCmp.gt_iff_lt] at hge
        exact Ordering.isLE_iff_ne_gt.2 hge
      refine .cons (List.forall_mem_cons.2 ⟨leads_of_isLE hyx hRy, fun z hz => ?_⟩) h
      exact leads_of_isLE (Std.TransCmp.isLE_trans (hy z hz).isLE hyx) (hRrest z hz)

/-- What the sort compares by needs to be an order only among the elements that it sorts. Those
that tie keep the order in which they are given. -/
theorem stableSort_leads (hless : ∀ a ∈ xs, ∀ b ∈ xs, (less a b = true ↔ cmp a b = .lt))
    (hR : xs.Pairwise R) : (stableSort less xs).Pairwise (Leads cmp R) := by
  -- the elements read so far stand in reverse
  have hfold (rest sorted : List α) (hrest : ∀ x ∈ rest, x ∈ xs) (hsorted : ∀ x ∈ sorted, x ∈ xs)
      (hlater : rest.Pairwise R) (hbefore : ∀ y ∈ sorted, ∀ x ∈ rest, R y x)
      (h : sorted.Pairwise fun a b => Leads cmp R b a) :
      (rest.foldl (fun sorted x => insertLast less x sorted) sorted).Pairwise
        fun a b => Leads cmp R b a := by
    induction rest generalizing sorted with
    | nil => exact h
    | cons x rest ih =>
      obtain ⟨hx, hrest⟩ := List.forall_mem_cons.1 hrest
      obtain ⟨hRx, hlater⟩ := List.pairwise_cons.1 hlater
      have hmem {y : α} (hy : y ∈ insertLast less x sorted) : y = x ∨ y ∈ sorted :=
        List.mem_cons.1 ((insertLast_perm x sorted).subset hy)
      refine ih _ hrest (fun y hy => ?_) hlater (fun y hy z hz => ?_)
        (insertLast_pairwise (fun a b ha hb => hless a ha b hb) hx hsorted
          (fun y hy => hbefore y hy x List.mem_cons_self) h)
      · rcases hmem hy with rfl | hy
        · exact hx
        · exact hsorted y hy
      · rcases hmem hy with rfl | hy
        · exact hRx z hz
        · exact hbefore y hy z (List.mem_cons_of_mem _ hz)
  exact List.pairwise_reverse.2 (hfold xs [] (fun _ h => h) (by simp) hR (by simp) .nil)

theorem stableSort_pairwise (hless : ∀ a ∈ xs, ∀ b ∈ xs, (less a b = true ↔ cmp a b = .lt)) :
    (stableSort less xs).Pairwise fun a b => (cmp a b).isLE = true :=
  (stableSort_leads (R := fun _ _ => True) hless (List.pairwise_of_forall fun _ _ => trivial)).imp
    Leads.isLE

end Order

theorem window_sublist (offset fetch : Option Nat) (xs : List α) :
    (window offset fetch xs).Sublist xs := by
  cases fetch with
  | none => exact List.drop_sublist _ _
  | some n => exact (List.take_sublist _ _).trans (List.drop_sublist _ _)

theorem getElem?_window (offset fetch : Option Nat) (xs : List α) (i : Nat) :
    (window offset fetch xs)[i]? =
      if ∀ n ∈ fetch, i < n then xs[offset.getD 0 + i]? else none := by
  cases fetch with
  | none => simp [window]
  | some n => simp [window, List.getElem?_take]

theorem length_window (offset fetch : Option Nat) (xs : List α) :
    (window offset fetch xs).length =
      fetch.elim (xs.length - offset.getD 0) (min (xs.length - offset.getD 0)) := by
  cases fetch <;> simp [window, Nat.min_comm]

theorem length_sort (c : Collation) (rows : List Row) : (c.sort rows).length = rows.length :=
  (stableSort_perm rows).length_eq

theorem mem_of_mem_window_sort {offset fetch : Option Nat} {c : Collation} {rows : List Row}
    {row : Row} (h : row ∈ window offset fetch (c.sort rows)) : row ∈ rows :=
  (stableSort_perm rows).subset ((window_sublist offset fetch _).subset h)

end Relational
