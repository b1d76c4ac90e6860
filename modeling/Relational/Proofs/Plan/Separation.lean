import Relational.Proofs.Plan.Legible

/-!
# What a cache key tells of a plan

A cache key holds the token of every node with its depth, as a set. Plans of one key have, at every
depth, nodes that look alike; which of them is below which is not in the key.
-/
namespace Relational.Plan
open Text
variable {Q R : Type} {p q : Plan}

/-- What a cache key is to tell of a node besides its kind: the table, or the expressions without
their literals. -/
def look : Plan → List String
  | scan _ table .. => [table.qualifiedName]
  | filter _ _ predicate => [predicate.skeleton]
  | project _ _ columns => columns.map (·.expr.skeleton)
  | join _ _ _ condition _ => [condition.skeleton]
  | _ => []

/-- For a join right above two scans, their tables. -/
def joinedTables? : Plan → Option String
  | join _ left right _ _ =>
    match left.table?, right.table? with
    | some l, some r => some (l.qualifiedName ++ "#" ++ r.qualifiedName)
    | _, _ => none
  | _ => none

/-- Of one kind and look, where joins right above scans are known by the scanned tables instead. -/
structure Alike (p q : Plan) : Prop where
  kind : p.kind = q.kind
  look : p.look = q.look ∨ ∃ tables, p.joinedTables? = some tables ∧ q.joinedTables? = some tables

/-- Every node of the one has a node of the other at its depth that looks like it. -/
def Matched (depth : Nat) (p q : Plan) : Prop :=
  ∀ node level, (node, level) ∈ p.walk depth →
    ∃ other, (other, level) ∈ q.walk depth ∧ Alike node other

def Unbranched (p : Plan) : Prop := ∀ node ∈ p.nodes, node.children.length ≤ 1

theorem level_of_mem_walk {node : Plan} {depth level : Nat} (h : (node, level) ∈ p.walk depth) :
    node = p ∧ level = depth ∨ depth < level := by
  induction p using inputInduction generalizing depth with
  | node p ih =>
    rw [walk_eq_cons] at h
    rcases List.mem_cons.1 h with h | h
    · cases h
      exact .inl ⟨rfl, rfl⟩
    · obtain ⟨child, hchild, hnode⟩ := List.mem_flatMap.1 h
      rcases ih child hchild hnode with ⟨-, rfl⟩ | hlevel
      · exact .inr (Nat.lt_succ_self depth)
      · exact .inr (by omega)

theorem Unbranched.child (h : p.Unbranched) {child : Plan} (hchild : child ∈ p.children) :
    child.Unbranched :=
  fun node hnode => h node (mem_nodes_trans (mem_nodes_of_mem_children hchild) hnode)

theorem Matched.root {depth : Nat} (h : Matched depth p q) : Alike p q := by
  obtain ⟨other, hother, halike⟩ := h p depth (by rw [walk_eq_cons]; exact List.mem_cons_self)
  rcases level_of_mem_walk hother with ⟨rfl, -⟩ | hlevel
  · exact halike
  · exact absurd hlevel (Nat.lt_irrefl depth)

/-- Below the roots of two plans with one input each, the inputs are matched. -/
theorem Matched.input {depth : Nat} {child child' : Plan} (h : Matched depth p q)
    (hp : p.children = [child]) (hq : q.children = [child']) :
    Matched (depth + 1) child child' := by
  intro node level hmem
  have hbelow : depth < level := by
    rcases level_of_mem_walk hmem with ⟨-, rfl⟩ | hlevel <;> omega
  obtain ⟨other, hother, halike⟩ := h node level (by
    rw [walk_eq_cons, hp, List.flatMap_singleton]
    exact List.mem_cons_of_mem _ hmem)
  rw [walk_eq_cons, hq, List.flatMap_singleton] at hother
  rcases List.mem_cons.1 hother with heq | hother
  · cases heq
    exact absurd hbelow (Nat.lt_irrefl depth)
  · exact ⟨other, hother, halike⟩

end Relational.Plan
