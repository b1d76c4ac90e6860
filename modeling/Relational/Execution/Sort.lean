import Relational.Collation
import Relational.Value

/-!
# Sorting rows

A stable sort by insertion from the right, and the order of rows that a collation describes.
-/
namespace Relational

/-- Into a list that is sorted in reverse; equal elements stay behind `x`. -/
def insertLast {α : Type} (less : α → α → Bool) (x : α) : List α → List α
  | [] => [x]
  | y :: rest => if less x y then y :: insertLast less x rest else x :: y :: rest

def stableSort {α : Type} (less : α → α → Bool) (xs : List α) : List α :=
  (xs.foldl (fun sorted x => insertLast less x sorted) []).reverse

namespace SortKey

def compare (k : SortKey) (a b : Value) : Ordering :=
  match a.isNull, b.isNull with
  | true, true => .eq
  | true, false => match k.nulls with | .first => .lt | .last => .gt
  | false, true => match k.nulls with | .first => .gt | .last => .lt
  | false, false =>
    match k.direction with
    | .ascending => a.sortOrder b
    | .descending => (a.sortOrder b).swap

end SortKey

namespace Collation

/-- By the first key that tells the rows apart; a key that a row lacks is passed over. -/
def compare (a b : Row) : Collation → Ordering
  | [] => .eq
  | k :: rest =>
    match a[k.column]?, b[k.column]? with
    | some x, some y =>
      match k.compare x y with
      | .eq => compare a b rest
      | o => o
    | _, _ => compare a b rest

def sort (c : Collation) (rows : List Row) : List Row :=
  stableSort (fun a b => compare a b c == .lt) rows

end Collation

def window {α : Type} (offset fetch : Option Nat) (xs : List α) : List α :=
  let rest := xs.drop (offset.getD 0)
  fetch.elim rest fun n => rest.take n

end Relational
