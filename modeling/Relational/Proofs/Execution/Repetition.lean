import Mathlib.Data.List.Pairwise
import Mathlib.Data.List.Perm.Basic
import Relational.Proofs.Execution.Sorting
import Relational.Proofs.Outcome
import Relational.ColumnSet

/-!
# Rows without repetition

No two rows agree on a set of columns. Rows with a null among the columns may be left out of that.
What keeps rows apart keeps them apart through selection, reordering and renumbering.
-/
namespace Relational

def Row.Agree (columns : ColumnSet) (a b : Row) : Prop := ∀ c ∈ columns, a[c]? = b[c]?

def Row.HasNull (columns : ColumnSet) (a : Row) : Prop := ∃ c ∈ columns, a[c]? = some .null

/-- Rows agree on the columns only if nulls are ignored and they have one there. -/
def Row.Apart (columns : ColumnSet) (ignoreNulls : Bool) (a b : Row) : Prop :=
  a.Agree columns b → ignoreNulls = true ∧ a.HasNull columns

def NoRepeat (columns : ColumnSet) (ignoreNulls : Bool) (rows : List Row) : Prop :=
  rows.Pairwise (Row.Apart columns ignoreNulls)

section Decide
variable {columns : ColumnSet} {ignoreNulls : Bool} {a b : Row} {rows : List Row}

instance : Decidable (a.Agree columns b) :=
  inferInstanceAs (Decidable (∀ c ∈ columns.columns, a[c]? = b[c]?))

instance : Decidable (a.HasNull columns) :=
  inferInstanceAs (Decidable (∃ c ∈ columns.columns, a[c]? = some .null))

instance : Decidable (a.Apart columns ignoreNulls b) :=
  inferInstanceAs (Decidable (_ → _))

instance : Decidable (NoRepeat columns ignoreNulls rows) :=
  inferInstanceAs (Decidable (List.Pairwise _ _))

end Decide

theorem Row.HasNull.of_agree {columns : ColumnSet} {a b : Row} (h : b.HasNull columns)
    (hagree : a.Agree columns b) : a.HasNull columns := by
  obtain ⟨c, hc, hnull⟩ := h
  exact ⟨c, hc, (hagree c hc).trans hnull⟩

namespace NoRepeat
variable {columns mapped : ColumnSet} {ignoreNulls : Bool} {rows source : List Row}

instance : Std.Symm (Row.Apart columns ignoreNulls) where
  symm a b h hagree := by
    obtain ⟨hignore, hnull⟩ := h fun c hc => (hagree c hc).symm
    exact ⟨hignore, hnull.of_agree hagree⟩

theorem of_length_le_one (h : rows.length ≤ 1) : NoRepeat columns ignoreNulls rows := by
  match rows, h with
  | [], _ => exact .nil
  | [row], _ => exact List.pairwise_singleton _ _

theorem sublist (h : NoRepeat columns ignoreNulls source) (hrows : rows.Sublist source) :
    NoRepeat columns ignoreNulls rows :=
  List.Pairwise.sublist hrows h

theorem perm (h : NoRepeat columns ignoreNulls source) (hrows : source.Perm rows) :
    NoRepeat columns ignoreNulls rows :=
  hrows.pairwise h (Std.Symm.symm _ _)

theorem window_sort (h : NoRepeat columns ignoreNulls rows) (collation : Collation)
    (offset fetch : Option Nat) :
    NoRepeat columns ignoreNulls (window offset fetch (collation.sort rows)) := by
  have hsorted : NoRepeat columns ignoreNulls (collation.sort rows) :=
    (stableSort_perm rows).symm.pairwise h (Std.Symm.symm _ _)
  exact hsorted.sublist (window_sublist _ _ _)

theorem mono (h : NoRepeat mapped ignoreNulls rows) (hsub : ∀ c ∈ mapped, c ∈ columns) :
    NoRepeat columns ignoreNulls rows := by
  refine h.imp fun hapart hagree => ?_
  obtain ⟨hignore, c, hc, hnull⟩ := hapart fun c hc => hagree c (hsub c hc)
  exact ⟨hignore, c, hsub c hc, hnull⟩

theorem ignoring (h : NoRepeat columns false rows) (ignoreNulls : Bool) :
    NoRepeat columns ignoreNulls rows := by
  refine h.imp fun hapart hagree => ?_
  obtain ⟨hfalse, -⟩ := hapart hagree
  cases hfalse

/-- Rows whose columns carry the values of columns of other rows. -/
theorem transport {R : Row → Row → Prop} (h : NoRepeat mapped ignoreNulls source)
    (hrows : List.Forall₂ R source rows)
    (hcarried : ∀ m ∈ mapped, ∃ c ∈ columns, ∀ row out, R row out → out[c]? = row[m]?) :
    NoRepeat columns ignoreNulls rows := by
  induction hrows with
  | nil => exact .nil
  | @cons row out source rows hR hrows ih =>
    obtain ⟨hrow, hrest⟩ := List.pairwise_cons.1 h
    refine .cons (fun other hother hagree => ?_) (ih hrest)
    obtain ⟨row', hrow', hR'⟩ := forall₂_exists_mem hrows hother
    have hsource : row.Agree mapped row' := by
      intro m hm
      obtain ⟨c, hc, hvalue⟩ := hcarried m hm
      rw [← hvalue row out hR, ← hvalue row' other hR', hagree c hc]
    obtain ⟨hignore, m, hm, hnull⟩ := hrow row' hrow' hsource
    obtain ⟨c, hc, hvalue⟩ := hcarried m hm
    exact ⟨hignore, c, hc, (hvalue row out hR).trans hnull⟩

theorem apart (h : NoRepeat columns ignoreNulls rows) {a b : Row} (ha : a ∈ rows) (hb : b ∈ rows)
    (hne : a ≠ b) : a.Apart columns ignoreNulls b :=
  h.forall ha hb hne

theorem append_ignored (h : NoRepeat columns true source)
    (hrows : ∀ row ∈ rows, row.HasNull columns) : NoRepeat columns true (source ++ rows) := by
  refine List.pairwise_append.2 ⟨h, List.pairwise_of_forall_mem_list ?_, ?_⟩
  · exact fun a ha b hb _ => ⟨rfl, hrows a ha⟩
  · exact fun a _ b hb hagree => ⟨rfl, (hrows b hb).of_agree hagree⟩

theorem length_le_one (h : NoRepeat columns ignoreNulls rows)
    (hrows : ∀ a ∈ rows, ∀ b ∈ rows, ¬ a.Apart columns ignoreNulls b) : rows.length ≤ 1 := by
  match rows, h with
  | [], _ => exact Nat.zero_le _
  | [_], _ => exact Nat.le_refl _
  | a :: b :: rest, h =>
    have hapart := (List.pairwise_cons.1 h).1 b List.mem_cons_self
    exact absurd hapart (hrows a (by simp) b (by simp))

end NoRepeat
end Relational
