/-!
# Ordered lists

Lists in increasing order without repetition, the form in which sets are answered.
-/
namespace Relational

variable {α : Type}

def insertOrdered (order : α → α → Ordering) (x : α) : List α → List α
  | [] => [x]
  | y :: rest =>
    match order x y with
    | .lt => x :: y :: rest
    | .eq => y :: rest
    | .gt => y :: insertOrdered order x rest

def mergeOrdered (order : α → α → Ordering) (xs ys : List α) : List α :=
  ys.foldl (fun all y => insertOrdered order y all) xs

def toOrdered (order : α → α → Ordering) (xs : List α) : List α := mergeOrdered order [] xs

end Relational
