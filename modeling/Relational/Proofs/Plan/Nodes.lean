import Mathlib.Data.List.Nodup
import Mathlib.Data.List.Pairwise
import Relational.Plan.Basic

/-!
# The nodes of a plan

A plan's nodes are the plan and the nodes of its inputs. Where ids are checked, a node of the plan
is known by its id.
-/
namespace Relational.Plan

@[elab_as_elim]
theorem inputInduction {motive : Plan → Prop}
    (node : ∀ p, (∀ child ∈ p.children, motive child) → motive p) (p : Plan) : motive p :=
  node p fun child hchild =>
    have := sizeOf_lt_of_mem_children hchild
    inputInduction node child
termination_by sizeOf p

theorem walkAll_eq_flatMap (depth : Nat) (ps : List Plan) :
    walkAll depth ps = ps.flatMap (walk depth) := by
  induction ps with
  | nil => simp [walkAll]
  | cons p rest ih => simp [walkAll, ih]

theorem walk_eq_cons (depth : Nat) (p : Plan) :
    p.walk depth = (p, depth) :: p.children.flatMap (walk (depth + 1)) := by
  cases p <;> simp [walk, children, walkAll_eq_flatMap]

theorem map_fst_walk (p : Plan) (depth : Nat) : (p.walk depth).map (·.1) = p.nodes := by
  induction p using inputInduction generalizing depth with
  | node p ih =>
    have hchildren : ∀ d, (p.children.flatMap (walk d)).map (·.1) = p.children.flatMap nodes := by
      intro d
      rw [List.map_flatMap, List.flatMap_def, List.flatMap_def]
      exact congrArg _ (List.map_congr_left fun child hchild => ih child hchild d)
    rw [nodes, walk_eq_cons depth, walk_eq_cons 0]
    simp only [List.map_cons, hchildren]

theorem nodes_eq_cons (p : Plan) : p.nodes = p :: p.children.flatMap nodes := by
  rw [← map_fst_walk p 0, walk_eq_cons]
  simp only [List.map_cons, List.map_flatMap, map_fst_walk]

theorem self_mem_nodes (p : Plan) : p ∈ p.nodes := by
  rw [nodes_eq_cons]
  exact List.mem_cons_self

theorem mem_nodes_of_mem_children {p child : Plan} (h : child ∈ p.children) :
    child ∈ p.nodes := by
  rw [nodes_eq_cons]
  exact List.mem_cons_of_mem _ (List.mem_flatMap.2 ⟨child, h, self_mem_nodes child⟩)

theorem mem_nodes_trans {p node inner : Plan} (hnode : node ∈ p.nodes)
    (hinner : inner ∈ node.nodes) : inner ∈ p.nodes := by
  induction p using inputInduction with
  | node p ih =>
    rw [nodes_eq_cons] at hnode
    rcases List.mem_cons.1 hnode with rfl | hbelow
    · exact hinner
    · obtain ⟨child, hchild, hnode⟩ := List.mem_flatMap.1 hbelow
      rw [nodes_eq_cons]
      exact List.mem_cons_of_mem _ (List.mem_flatMap.2 ⟨child, hchild, ih child hchild hnode⟩)

theorem mem_nodes_of_find? {p node : Plan} {id : Nat} (h : p.find? id = some node) :
    node ∈ p.nodes :=
  List.mem_of_find?_eq_some h

theorem repeatedId?_eq_none {seen ids : List Nat} :
    repeatedId? seen ids = none ↔ ids.Nodup ∧ ∀ id ∈ ids, id ∉ seen := by
  induction ids generalizing seen with
  | nil => simp [repeatedId?]
  | cons id rest ih =>
    simp only [repeatedId?, List.contains_iff_mem]
    split
    next hseen => simp [hseen]
    next hfresh =>
      rw [ih]
      grind

theorem checkIds_eq_ok {p : Plan} : p.checkIds = .ok () ↔ (p.nodes.map id).Nodup := by
  have hrepeated : repeatedId? [] (p.nodes.map id) = none ↔ (p.nodes.map id).Nodup := by
    simp [repeatedId?_eq_none]
  rw [← hrepeated, checkIds]
  cases repeatedId? [] (p.nodes.map id) <;> simp

theorem nodup_ids_of_checkIds {p : Plan} (h : p.checkIds = .ok ()) :
    (p.nodes.map id).Nodup := checkIds_eq_ok.1 h

theorem eq_of_id_eq {p a b : Plan} (h : p.checkIds = .ok ()) (ha : a ∈ p.nodes)
    (hb : b ∈ p.nodes) (hid : a.id = b.id) : a = b :=
  List.inj_on_of_nodup_map (nodup_ids_of_checkIds h) ha hb hid

theorem sizeOf_le_of_mem_nodes {p node : Plan} (h : node ∈ p.nodes) :
    sizeOf node ≤ sizeOf p := by
  induction p using inputInduction with
  | node p ih =>
    rw [nodes_eq_cons] at h
    rcases List.mem_cons.1 h with rfl | h
    · exact Nat.le_refl _
    · obtain ⟨child, hchild, hnode⟩ := List.mem_flatMap.1 h
      exact Nat.le_trans (ih child hchild hnode) (Nat.le_of_lt (sizeOf_lt_of_mem_children hchild))

theorem input_unique {p a b x y : Plan} (h : (p.nodes.map id).Nodup) (ha : a ∈ p.children)
    (hb : b ∈ p.children) (hx : x ∈ a.nodes) (hy : y ∈ b.nodes) (hid : x.id = y.id) : a = b := by
  rw [nodes_eq_cons, List.map_cons, List.map_flatMap] at h
  have hbelow := (List.nodup_flatMap.1 (List.nodup_cons.1 h).2).2
  have : Std.Symm (Function.onFun List.Disjoint fun q : Plan => q.nodes.map id) :=
    ⟨fun _ _ hdisjoint _ hright hleft => hdisjoint hleft hright⟩
  by_contra hne
  exact hbelow.forall ha hb hne (List.mem_map_of_mem hx) (hid ▸ List.mem_map_of_mem hy)

theorem nodup_ids_child {p child : Plan} (h : (p.nodes.map id).Nodup) (hchild : child ∈ p.children) :
    (child.nodes.map id).Nodup := by
  rw [nodes_eq_cons, List.map_cons, List.map_flatMap] at h
  exact (List.nodup_flatMap.1 (List.nodup_cons.1 h).2).1 child hchild

theorem parent_eq_root {p node x y : Plan} (h : (p.nodes.map id).Nodup) (hnode : node ∈ p.nodes)
    (hx : x ∈ p.children) (hy : y ∈ node.children) (hid : x.id = y.id) : node = p := by
  rw [nodes_eq_cons] at hnode
  rcases List.mem_cons.1 hnode with rfl | hbelow
  · rfl
  · obtain ⟨child, hchild, hnode⟩ := List.mem_flatMap.1 hbelow
    have hynode : y ∈ child.nodes := mem_nodes_trans hnode (mem_nodes_of_mem_children hy)
    obtain rfl := input_unique h hx hchild (self_mem_nodes x) hynode hid
    obtain rfl := List.inj_on_of_nodup_map (nodup_ids_child h hx) (self_mem_nodes x) hynode hid
    have hle := sizeOf_le_of_mem_nodes hnode
    have hlt := sizeOf_lt_of_mem_children hy
    omega

/-- Where ids are not repeated, a node is an input of one node only. -/
theorem parent_unique {p a b x y : Plan} (h : (p.nodes.map id).Nodup) (ha : a ∈ p.nodes)
    (hb : b ∈ p.nodes) (hx : x ∈ a.children) (hy : y ∈ b.children) (hid : x.id = y.id) :
    a = b := by
  induction p using inputInduction with
  | node p ih =>
    have ha' := ha
    have hb' := hb
    rw [nodes_eq_cons] at ha' hb'
    rcases List.mem_cons.1 ha' with rfl | habelow
    · exact (parent_eq_root h hb hx hy hid).symm
    · rcases List.mem_cons.1 hb' with rfl | hbbelow
      · exact parent_eq_root h ha hy hx hid.symm
      · obtain ⟨c, hc, hac⟩ := List.mem_flatMap.1 habelow
        obtain ⟨d, hd, hbd⟩ := List.mem_flatMap.1 hbbelow
        have hxc := mem_nodes_trans hac (mem_nodes_of_mem_children hx)
        have hyd := mem_nodes_trans hbd (mem_nodes_of_mem_children hy)
        obtain rfl := input_unique h hc hd hxc hyd hid
        exact ih c hc (nodup_ids_child h hc) hac hbd

end Relational.Plan
