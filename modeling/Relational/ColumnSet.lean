/-!
# Sets of columns

Column ordinals in increasing order, each once, so that two sets with the same members are equal.
-/
namespace Relational

structure ColumnSet where
  columns : List Nat
  increasing : columns.Pairwise (· < ·) := by simp
  deriving DecidableEq

namespace ColumnSet

def empty : ColumnSet := ⟨[], .nil⟩

instance : Inhabited ColumnSet := ⟨empty⟩

def insertSorted (c : Nat) : List Nat → List Nat
  | [] => [c]
  | d :: rest => if c < d then c :: d :: rest else if c = d then d :: rest
    else d :: insertSorted c rest

theorem mem_insertSorted {c x : Nat} {cs : List Nat} :
    x ∈ insertSorted c cs ↔ x = c ∨ x ∈ cs := by
  induction cs with
  | nil => simp [insertSorted]
  | cons d rest ih => simp only [insertSorted]; grind

theorem increasing_insertSorted {c : Nat} {cs : List Nat} (h : cs.Pairwise (· < ·)) :
    (insertSorted c cs).Pairwise (· < ·) := by
  induction cs with
  | nil => simp [insertSorted]
  | cons d rest ih =>
    obtain ⟨hd, hr⟩ := List.pairwise_cons.1 h
    simp only [insertSorted]
    split
    · rename_i hc
      exact .cons (fun x hx => by
        rcases List.mem_cons.1 hx with rfl | hx
        · exact hc
        · exact Nat.lt_trans hc (hd x hx)) h
    · split
      · exact h
      · rename_i h1 h2
        exact .cons (fun x hx => by
          rcases mem_insertSorted.1 hx with rfl | hx
          · omega
          · exact hd x hx) (ih hr)

def insert (s : ColumnSet) (c : Nat) : ColumnSet :=
  ⟨insertSorted c s.columns, increasing_insertSorted s.increasing⟩

def ofList (cs : List Nat) : ColumnSet := cs.foldl insert empty

instance : Membership Nat ColumnSet := ⟨fun s c => c ∈ s.columns⟩

def contains (s : ColumnSet) (c : Nat) : Bool := s.columns.contains c

def union (s t : ColumnSet) : ColumnSet := t.columns.foldl insert s

def subset (s t : ColumnSet) : Bool := s.columns.all t.contains

def position? (s : ColumnSet) (c : Nat) : Option Nat := s.columns.findIdx? (· == c)

def size (s : ColumnSet) : Nat := s.columns.length
def isEmpty (s : ColumnSet) : Bool := s.columns.isEmpty
def greatest? (s : ColumnSet) : Option Nat := s.columns.getLast?

def range (n : Nat) : ColumnSet := ⟨List.range n, List.pairwise_lt_range⟩

def renumber? (s : ColumnSet) (f : Nat → Option Nat) : Option ColumnSet :=
  (s.columns.mapM f).map ofList

def order (s t : ColumnSet) : Ordering := compare s.columns t.columns

def text (s : ColumnSet) : String :=
  "\x7b" ++ ", ".intercalate (s.columns.map toString) ++ "\x7d"

@[simp] theorem mem_insert {s : ColumnSet} {c x : Nat} : x ∈ s.insert c ↔ x = c ∨ x ∈ s :=
  mem_insertSorted

theorem mem_foldl_insert {x : Nat} {cs : List Nat} {s : ColumnSet} :
    x ∈ cs.foldl insert s ↔ x ∈ s ∨ x ∈ cs := by
  induction cs generalizing s with
  | nil => simp
  | cons c rest ih => rw [List.foldl_cons, ih]; grind [mem_insert]

@[simp] theorem mem_ofList {x : Nat} {cs : List Nat} : x ∈ ofList cs ↔ x ∈ cs := by
  rw [ofList, mem_foldl_insert]
  exact ⟨fun h => h.elim (fun h => absurd h List.not_mem_nil) id, .inr⟩

@[simp] theorem mem_union {x : Nat} {s t : ColumnSet} : x ∈ s.union t ↔ x ∈ s ∨ x ∈ t :=
  mem_foldl_insert

end ColumnSet
end Relational
