import Mathlib.Algebra.BigOperators.Group.List.Basic
import Mathlib.Algebra.GroupWithZero.Nat
import Mathlib.Data.List.Nodup
import Mathlib.Data.List.Perm.Subperm
import Relational.Plan.Kind
import Relational.Proofs.Execution.Repetition

/-!
# Rows of set operations

Set operations on bags of rows: how often a row is in the result, by how often it is in each input.
-/
namespace Relational

namespace SetOp
variable {op : SetOp} {all : Bool} {n : Nat} {counts : List Nat}

/-- Copies are added up, the least number of them is taken, or those in the other inputs are taken
off those in the first. -/
def copiesAll (op : SetOp) : List Nat → Nat
  | [] => 0
  | first :: rest =>
    match op with
    | .union => first + rest.sum
    | .intersect => rest.foldl min first
    | .minus => first - rest.sum

/-- Without ALL the inputs are sets, and one copy is kept. -/
def copies (op : SetOp) (all : Bool) (counts : List Nat) : Nat :=
  if all then op.copiesAll counts else min 1 (op.copiesAll (counts.map (min 1)))

def Emits (op : SetOp) (all : Bool) (inputs : List (List Row)) (rows : List Row) : Prop :=
  ∀ row, rows.count row = op.copies all (inputs.map (·.count row))

theorem foldl_min_le (counts : List Nat) (start : Nat) : counts.foldl min start ≤ start ∧
    ∀ n ∈ counts, counts.foldl min start ≤ n := by
  induction counts generalizing start with
  | nil => simp
  | cons m rest ih =>
    obtain ⟨hstart, hrest⟩ := ih (min start m)
    rw [List.foldl_cons]
    refine ⟨by omega, List.forall_mem_cons.2 ⟨by omega, hrest⟩⟩

theorem copiesAll_le_sum (op : SetOp) (counts : List Nat) : op.copiesAll counts ≤ counts.sum := by
  cases counts with
  | nil => exact Nat.zero_le _
  | cons first rest =>
    rw [List.sum_cons]
    cases op with
    | union => exact Nat.le_refl _
    | intersect => exact Nat.le_trans (foldl_min_le rest first).1 (Nat.le_add_right _ _)
    | minus => exact Nat.le_trans (Nat.sub_le _ _) (Nat.le_add_right _ _)

theorem copiesAll_intersect_le (h : n ∈ counts) : intersect.copiesAll counts ≤ n := by
  cases counts with
  | nil => cases h
  | cons first rest =>
    obtain ⟨hfirst, hrest⟩ := foldl_min_le rest first
    rcases List.mem_cons.1 h with rfl | h
    · exact hfirst
    · exact hrest n h

theorem copies_le_sum : op.copies all counts ≤ counts.sum := by
  unfold copies
  split
  · exact copiesAll_le_sum op counts
  · have hset : (counts.map (min 1)).sum ≤ counts.sum := by
      induction counts with
      | nil => exact Nat.le_refl _
      | cons n rest ih =>
        simp only [List.map_cons, List.sum_cons]
        omega
    have := copiesAll_le_sum op (counts.map (min 1))
    omega

theorem copies_intersect_le (h : n ∈ counts) : intersect.copies all counts ≤ n := by
  unfold copies
  split
  · exact copiesAll_intersect_le h
  · have := copiesAll_intersect_le (List.mem_map_of_mem (f := min 1) h)
    omega

theorem copies_minus_le : minus.copies all (n :: counts) ≤ n := by
  simp only [copies, copiesAll, List.map_cons]
  split <;> omega

/-- No row is repeated where ALL would keep the repetitions: in some input of an intersection, or
in the first of a difference. -/
def Distinct (op : SetOp) (all : Bool) (inputs : List (List Row)) : Prop :=
  all = true →
    match op with
    | .union => True
    | .intersect => ∃ input ∈ inputs, input.Nodup
    | .minus => ∀ first ∈ inputs.head?, first.Nodup

namespace Emits
variable {inputs : List (List Row)} {first input rows : List Row} {row : Row}

theorem length_le_of_count_le (h : ∀ row, rows.count row ≤ input.count row) :
    rows.length ≤ input.length :=
  (List.subperm_ext_iff.2 fun row _ => h row).length_le

theorem length_le_sum (h : op.Emits all inputs rows) :
    rows.length ≤ (inputs.map List.length).sum := by
  rw [← List.length_flatten]
  refine length_le_of_count_le fun row => ?_
  rw [h row, List.count_flatten]
  exact copies_le_sum

theorem count_le_of_intersect (h : intersect.Emits all inputs rows) (hinput : input ∈ inputs)
    (row : Row) : rows.count row ≤ input.count row := by
  rw [h row]
  exact copies_intersect_le (List.mem_map_of_mem (f := List.count row) hinput)

theorem count_le_of_minus (h : minus.Emits all (first :: inputs) rows) (row : Row) :
    rows.count row ≤ first.count row := by
  rw [h row]
  exact copies_minus_le

theorem exists_input (h : op.Emits all inputs rows) (hrow : row ∈ rows) :
    ∃ input ∈ inputs, row ∈ input := by
  have hcount : 0 < inputs.flatten.count row := by
    rw [List.count_flatten]
    exact Nat.lt_of_lt_of_le (List.count_pos_iff.2 hrow) (h row ▸ copies_le_sum)
  exact List.mem_flatten.1 (List.count_pos_iff.1 hcount)

theorem nodup (h : op.Emits all inputs rows) (hdistinct : op.Distinct all inputs)
    (hop : ¬ (op = .union ∧ all = true)) : rows.Nodup := by
  refine List.nodup_iff_count_le_one.2 fun row => ?_
  cases all with
  | false =>
    rw [h row]
    exact Nat.min_le_left _ _
  | true =>
    have hdistinct := hdistinct rfl
    cases op with
    | union => exact absurd ⟨rfl, rfl⟩ hop
    | intersect =>
      obtain ⟨input, hinput, hnodup⟩ := hdistinct
      exact Nat.le_trans (h.count_le_of_intersect hinput row)
        (List.nodup_iff_count_le_one.1 hnodup row)
    | minus =>
      cases inputs with
      | nil =>
        rw [h row]
        exact Nat.zero_le _
      | cons first rest =>
        exact Nat.le_trans (h.count_le_of_minus row)
          (List.nodup_iff_count_le_one.1 (hdistinct first rfl) row)

end Emits
end SetOp

theorem NoRepeat.of_nodup {rows : List Row} {width : Nat}
    (hwidth : ∀ row ∈ rows, row.length = width) (h : rows.Nodup) :
    NoRepeat (.range width) false rows := by
  refine List.Pairwise.imp_of_mem (fun ha hb hne hagree => absurd ?_ hne) h
  refine List.ext_getElem? fun c => ?_
  by_cases hc : c < width
  · exact hagree c (List.mem_range.2 hc)
  · rw [List.getElem?_eq_none (by rw [hwidth _ ha]; omega),
      List.getElem?_eq_none (by rw [hwidth _ hb]; omega)]

end Relational
