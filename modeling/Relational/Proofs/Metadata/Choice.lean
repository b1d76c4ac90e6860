import Mathlib.Algebra.BigOperators.Group.List.Basic
import Mathlib.Algebra.Order.BigOperators.Group.List
import Mathlib.Data.List.Sections
import Relational.Metadata.Lineage
import Relational.Proofs.Expr.Substitution

/-!
# Choices of one option per column

Below the number of ways, the numbers of choices are numerals in mixed radix, so every option of a
column is in one of them, and each way of choosing is one of them. Their number is counted in
machine words.
-/
namespace Relational.Metadata.Lineage
variable {α : Type} {columns : List (Nat × List α)} {options : List α} {c n : Nat} {x : α}

def ways (columns : List (Nat × List α)) : Nat := (columns.map (·.2.length)).prod

@[simp] theorem ways_cons (column : Nat × List α) (rest : List (Nat × List α)) :
    ways (column :: rest) = column.2.length * ways rest := by
  simp [ways]

theorem ways_pos (h : ∀ column ∈ columns, column.2 ≠ []) : 0 < ways columns := by
  induction columns with
  | nil => exact Nat.one_pos
  | cons column rest ih =>
    obtain ⟨hfirst, hrest⟩ := List.forall_mem_cons.1 h
    rw [ways_cons]
    exact Nat.mul_pos (List.length_pos_iff.2 hfirst) (ih hrest)

theorem choiceCount_eq (h : ∀ column ∈ columns, column.2 ≠ []) :
    choiceCount columns = wordSized (ways columns) := by
  suffices ∀ n, n < Integer.wordCount →
      columns.foldlM (fun n c => wordSized (n * c.2.length)) n = wordSized (n * ways columns) by
    simpa [choiceCount] using this 1 (by decide)
  induction columns with
  | nil =>
    intro n hn
    simpa [ways] using (wordSized_of_lt hn).symm
  | cons column rest ih =>
    obtain ⟨-, hrest⟩ := List.forall_mem_cons.1 h
    intro n _
    rw [List.foldlM_cons, ways_cons, ← Nat.mul_assoc]
    by_cases hword : n * column.2.length < Integer.wordCount
    · rw [wordSized_of_lt hword]
      exact ih hrest _ hword
    · -- what is multiplied on only makes it larger
      have hover := Nat.not_lt.1 hword
      rw [wordSized_of_le hover, wordSized_of_le]
      · rfl
      · exact hover.trans (Nat.le_mul_of_pos_right _ (ways_pos hrest))

theorem choice_cons (h : options ≠ []) (rest : List (Nat × List α)) :
    ∃ x, options[n % options.length]? = some x ∧
      choice n ((c, options) :: rest) = (c, x) :: choice (n / options.length) rest := by
  have hlt := Nat.mod_lt n (List.length_pos_iff.2 h)
  refine ⟨_, List.getElem?_eq_getElem hlt, ?_⟩
  simp [choice, List.getElem?_eq_getElem hlt]

theorem exists_lookup_choice (h : ∀ column ∈ columns, column.2 ≠ [])
    (hc : columns.lookup c = some options) :
    ∃ x ∈ options, (choice n columns).lookup c = some x := by
  induction columns generalizing n with
  | nil => cases hc
  | cons column rest ih =>
    obtain ⟨hfirst, hrest⟩ := List.forall_mem_cons.1 h
    obtain ⟨x, hx, hchoice⟩ := choice_cons (c := column.1) (n := n) hfirst rest
    rw [hchoice]
    rw [List.lookup_cons] at hc ⊢
    split at hc
    · cases hc
      exact ⟨x, List.mem_of_getElem? hx, rfl⟩
    · exact ih hrest hc

theorem exists_choice (h : ∀ column ∈ columns, column.2 ≠ [])
    (hc : columns.lookup c = some options) (hx : x ∈ options) :
    ∃ n < ways columns, (choice n columns).lookup c = some x := by
  induction columns with
  | nil => cases hc
  | cons column rest ih =>
    obtain ⟨hfirst, hrest⟩ := List.forall_mem_cons.1 h
    have hpos := List.length_pos_iff.2 hfirst
    rw [List.lookup_cons] at hc
    split at hc
    next heq =>
      cases hc
      -- the index of the option, with the first choice of all other columns
      obtain ⟨i, hi, rfl⟩ := List.getElem_of_mem hx
      obtain ⟨x, hx, hchoice⟩ := choice_cons (c := column.1) (n := i) hfirst rest
      refine ⟨i, ?_, ?_⟩
      · rw [ways_cons]
        exact Nat.lt_of_lt_of_le hi (Nat.le_mul_of_pos_right _ (ways_pos hrest))
      · rw [Nat.mod_eq_of_lt hi, List.getElem?_eq_getElem hi] at hx
        rw [hchoice, List.lookup_cons, heq, Option.some.inj hx]
    next hne =>
      obtain ⟨m, hm, hlookup⟩ := ih hrest hc
      obtain ⟨x, -, hchoice⟩ := choice_cons (c := column.1) (n := column.2.length * m) hfirst rest
      refine ⟨column.2.length * m, ?_, ?_⟩
      · rw [ways_cons]
        exact Nat.mul_lt_mul_of_pos_left hm hpos
      · rw [hchoice, List.lookup_cons, hne, Nat.mul_div_cancel_left m hpos]
        exact hlookup

def assignments (columns : List (Nat × List α)) : List (List (Nat × α)) :=
  (columns.map fun column => column.2.map (column.1, ·)).sections

theorem assignments_cons (column : Nat × List α) (rest : List (Nat × List α)) :
    assignments (column :: rest) =
      (assignments rest).flatMap fun chosen => column.2.map fun x => (column.1, x) :: chosen := by
  simp [assignments, List.sections, Function.comp_def]

theorem range_mul (m n : Nat) :
    List.range (m * n) = (List.range n).flatMap fun i => (List.range m).map (m * i + ·) := by
  induction n with
  | zero => simp
  | succ n ih =>
    rw [Nat.mul_succ, List.range_add, ih, List.range_succ, List.flatMap_append]
    simp

theorem map_choice_range (h : ∀ column ∈ columns, column.2 ≠ []) :
    (List.range (ways columns)).map (choice · columns) = assignments columns := by
  induction columns with
  | nil => rfl
  | cons column rest ih =>
    obtain ⟨hfirst, hrest⟩ := List.forall_mem_cons.1 h
    have hpos := List.length_pos_iff.2 hfirst
    rw [assignments_cons, ← ih hrest, ways_cons, range_mul, List.map_flatMap, List.flatMap_map]
    congr 1
    funext m
    -- the multiples of the radix are choices of the rest
    refine List.ext_getElem (by simp) fun i _ hi => ?_
    have hi : i < column.2.length := by simpa using hi
    obtain ⟨x, hx, hchoice⟩ :=
      choice_cons (c := column.1) (n := column.2.length * m + i) hfirst rest
    rw [Nat.mul_add_mod, Nat.mod_eq_of_lt hi] at hx
    rw [Nat.mul_add_div hpos, Nat.div_eq_of_lt hi, Nat.add_zero] at hchoice
    obtain ⟨_, rfl⟩ := List.getElem?_eq_some_iff.1 hx
    simpa using hchoice

theorem length_assignments (h : ∀ column ∈ columns, column.2 ≠ []) :
    (assignments columns).length = ways columns := by
  simp [← map_choice_range h]

end Relational.Metadata.Lineage
