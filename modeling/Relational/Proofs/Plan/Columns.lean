import Mathlib.Data.List.Pairwise
import Mathlib.Data.List.Perm.Basic
import Relational.Plan.Check
import Relational.Proofs.Outcome

/-!
# Columns of plans

The columns that a checked aggregate groups by, and the columns that its check lets through.
-/
namespace Relational

namespace ColumnSet
variable {s : ColumnSet} {c p : Nat}

theorem mem_columns : c ∈ s.columns ↔ c ∈ s := .rfl

theorem contains_iff : s.contains c = true ↔ c ∈ s := by
  rw [contains, List.contains_iff_mem, mem_columns]

theorem position?_eq_some (h : s.position? c = some p) : s.columns[p]? = some c := by
  obtain ⟨hp, hc, -⟩ := List.findIdx?_eq_some_iff_getElem.1 h
  rw [List.getElem?_eq_getElem hp, beq_iff_eq.1 hc]

theorem position?_getElem {i : Nat} (h : i < s.columns.length) :
    s.position? s.columns[i] = some i := by
  refine List.findIdx?_eq_some_iff_getElem.2 ⟨h, beq_self_eq_true _, fun j hj => ?_⟩
  have hlt := List.pairwise_iff_getElem.1 s.increasing j i (Nat.lt_trans hj h) h hj
  simpa using Nat.ne_of_lt hlt

theorem ext_of_mem {t : ColumnSet} (h : ∀ c, c ∈ s ↔ c ∈ t) : s = t := by
  have hnodup (s : ColumnSet) : s.columns.Nodup := s.increasing.imp Nat.ne_of_lt
  have hperm : s.columns.Perm t.columns := (List.perm_ext_iff_of_nodup (hnodup s) (hnodup t)).2 h
  obtain ⟨columns, increasing⟩ := s
  obtain ⟨columns', increasing'⟩ := t
  congr 1
  exact hperm.eq_of_pairwise (fun a b _ _ hab hba => absurd hab (Nat.lt_asymm hba)) increasing
    increasing'

theorem lt_of_greatest? {width : Nat} (h : ∀ g, s.greatest? = some g → g < width) (hc : c ∈ s) :
    c < width := by
  have hle := (s.increasing.imp Nat.le_of_lt).rel_getLast hc
  exact Nat.lt_of_le_of_lt hle (h _ (List.getLast?_eq_some_getLast (List.ne_nil_of_mem hc)))

theorem subset_iff {t : ColumnSet} : s.subset t = true ↔ ∀ c ∈ s, c ∈ t := by
  simp only [subset, List.all_eq_true, contains_iff, mem_columns]

theorem isEmpty_iff : s.isEmpty = true ↔ s = empty := by
  obtain ⟨columns, increasing⟩ := s
  simp [isEmpty, empty]

theorem isEmpty_eq_false_iff : s.isEmpty = false ↔ ∃ c, c ∈ s :=
  List.isEmpty_eq_false_iff_exists_mem

theorem ne_empty_iff : s ≠ empty ↔ ∃ c, c ∈ s := by
  rw [← isEmpty_eq_false_iff, Bool.eq_false_iff, Ne, Ne, isEmpty_iff]

theorem eq_empty_iff : s = empty ↔ ∀ c, c ∉ s := by
  rw [← not_iff_not, ← Ne, ne_empty_iff, not_forall_not]

theorem union_eq_empty_iff {t : ColumnSet} : s.union t = empty ↔ s = empty ∧ t = empty := by
  simp only [eq_empty_iff, mem_union, not_or, forall_and]

theorem range_eq_empty_iff {n : Nat} : range n = empty ↔ n = 0 := by
  rw [← isEmpty_iff, isEmpty, List.isEmpty_iff]
  exact List.range_eq_nil

theorem renumber?_eq_some {f : Nat → Option Nat} {t : ColumnSet} (h : s.renumber? f = some t) :
    (∀ c ∈ s, ∃ d ∈ t, f c = some d) ∧ ∀ d ∈ t, ∃ c ∈ s, f c = some d := by
  obtain ⟨numbers, hnumbers, rfl⟩ := Option.map_eq_some_iff.1 h
  have hnew := mapM_eq_some.1 hnumbers
  simp only [mem_ofList]
  refine ⟨fun c hc => ?_, fun d hd => forall₂_exists_mem hnew hd⟩
  exact forall₂_exists_mem (R := fun d c => f c = some d) hnew.flip hc

theorem renumber?_eq_empty_iff {f : Nat → Option Nat} {t : ColumnSet}
    (h : s.renumber? f = some t) : t = empty ↔ s = empty := by
  obtain ⟨hto, hfrom⟩ := renumber?_eq_some h
  rw [eq_empty_iff, eq_empty_iff]
  constructor
  · intro hnone c hc
    obtain ⟨d, hd, -⟩ := hto c hc
    exact hnone d hd
  · intro hnone d hd
    obtain ⟨c, hc, -⟩ := hfrom d hd
    exact hnone c hc

end ColumnSet

namespace Plan
variable {c width : Nat} {input : Schema} {sets : List ColumnSet} {calls : List AggregateCall}

theorem mem_groupColumns : c ∈ groupColumns sets ↔ ∃ set ∈ sets, c ∈ set := by
  have hfold (start : ColumnSet) :
      c ∈ sets.foldl .union start ↔ c ∈ start ∨ ∃ set ∈ sets, c ∈ set := by
    induction sets generalizing start with
    | nil => simp
    | cons set rest ih => simp [ih, or_assoc]
  rw [groupColumns, hfold]
  exact or_iff_right List.not_mem_nil

theorem groupColumns_singleton (set : ColumnSet) : groupColumns [set] = set :=
  ColumnSet.ext_of_mem fun c => by simp [mem_groupColumns]

theorem requireColumns_eq_ok {columns : List Nat} {fault : Nat → Nat → ShapeFault}
    (h : requireColumns columns width fault = .ok ()) : ∀ c ∈ columns, c < width := by
  unfold requireColumns at h
  split at h
  · cases h
  next hnone => simpa using hnone

theorem ne_nil_of_checkAggregate (h : checkAggregate input sets calls = .ok ()) : sets ≠ [] := by
  simp only [checkAggregate, bind_eq_ok, require_eq_ok] at h
  obtain ⟨_, hne, -⟩ := h
  simpa using hne

theorem lt_of_checkAggregate (h : checkAggregate input sets calls = .ok ())
    (hc : c ∈ groupColumns sets) : c < input.length := by
  simp only [checkAggregate, bind_eq_ok] at h
  obtain ⟨_, -, _, hcolumns, -⟩ := h
  refine ColumnSet.lt_of_greatest? (fun g hg => requireColumns_eq_ok hcolumns g ?_) hc
  simp [hg]

theorem checkCall_of_checkAggregate (h : checkAggregate input sets calls = .ok ()) :
    ∀ call ∈ calls, checkCall input call = .ok () := by
  simp only [checkAggregate, bind_eq_ok] at h
  obtain ⟨_, -, _, -, hcalls⟩ := h
  exact forM_eq_ok.1 hcalls

end Plan
end Relational
