import Relational.Plan.Basic

/-!
# Table occurrences

The scans of one table are numbered from zero, in the order of the nodes.
-/
namespace Relational

def TableOccurrence.order (a b : TableOccurrence) : Ordering :=
  (compare a.table b.table).then (compare a.number b.number)

namespace Plan

/-- The occurrences of the nodes, where `seen` lists the tables of earlier scans. -/
def numberScans (seen : List String) : List Plan → List (Nat × TableOccurrence)
  | [] => []
  | p :: rest =>
    match p.table? with
    | none => numberScans seen rest
    | some t =>
      let name := t.qualifiedName
      (p.id, ⟨name, seen.count name⟩) :: numberScans (name :: seen) rest

def occurrences (p : Plan) : List (Nat × TableOccurrence) := numberScans [] p.nodes

end Plan
end Relational
