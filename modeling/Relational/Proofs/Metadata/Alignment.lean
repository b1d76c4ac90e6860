import Relational.Proofs.Execution.Width
import Relational.Proofs.Metadata.Caching
import Relational.Proofs.Metadata.KeyGrounds
import Relational.Proofs.Plan.Document

/-!
# Answers that fit the width

Where the scans are as wide as their tables, what is derived for a node names only columns that its
rows have, and there is a size for each of them.
-/
namespace Relational

def ColumnSet.Within (s : ColumnSet) (width : Nat) : Prop := ∀ c ∈ s, c < width

def Collation.Within (c : Collation) (width : Nat) : Prop := ∀ k ∈ c, k.column < width

def Distribution.Within (d : Distribution) (width : Nat) : Prop := ∀ k ∈ d.keys, k < width

structure TableDescriptor.Consistent (d : TableDescriptor) : Prop where
  keys : ∀ key ∈ d.uniqueKeys, key.Within d.schema.length
  collation : d.collation.Within d.schema.length
  distribution : ∀ placed, d.distribution = some placed → placed.Within d.schema.length

theorem ColumnSet.within_range (n : Nat) : (range n).Within n := fun _ => List.mem_range.1

theorem ColumnSet.Within.mono {s : ColumnSet} {m n : Nat} (h : s.Within m) (hle : m ≤ n) :
    s.Within n :=
  fun c hc => Nat.lt_of_lt_of_le (h c hc) hle

theorem Collation.Within.remap {f : Nat → Option Nat} {width : Nat}
    (h : ∀ i c, f i = some c → c < width) (order : Collation) : (order.remap f).Within width := by
  induction order with
  | nil => exact List.forall_mem_nil _
  | cons k rest ih =>
    simp only [Collation.remap]
    split
    next c hc => exact List.forall_mem_cons.2 ⟨h _ c hc, ih⟩
    · exact List.forall_mem_nil _

namespace Plan
variable {Q : Type} {p node : Plan}

/-- The scans are as wide as their tables, and what is declared of these fits them. -/
def Cataloged (source : TableSource Q) (p : Plan) : Prop :=
  ∀ id table shape notes, .scan id table shape notes ∈ p.nodes →
    ∀ d, source.table table.id = .ok d → d.schema.length = shape.length ∧ d.Consistent

theorem Cataloged.below {source : TableSource Q} (h : p.Cataloged source)
    (hnode : node ∈ p.nodes) : node.Cataloged source :=
  fun id table shape notes hmem => h id table shape notes (mem_nodes_trans hnode hmem)

theorem Cataloged.child {source : TableSource Q} (h : p.Cataloged source)
    (hnode : node ∈ p.children) : node.Cataloged source :=
  h.below (mem_nodes_of_mem_children hnode)

theorem Cataloged.scan {setting : Metadata.Setting Q} {id : Nat} {table : TableRef}
    {shape : Schema} {notes : Notes}
    (h : (Plan.scan id table shape notes).Cataloged setting.source) {d : TableDescriptor}
    (hd : setting.descriptor? (.scan id table shape notes) = some d) :
    d.schema.length = (Plan.scan id table shape notes).width ∧ d.Consistent := by
  rw [Metadata.Setting.descriptor?, table?, Option.bind_some, toOption_eq_some] at hd
  exact h id table shape notes (self_mem_nodes _) d hd

theorem width_project (id : Nat) (input : Plan) (columns : List Projection) :
    (project id input columns).width = columns.length := by
  rw [width, schema, List.length_map]

theorem width_join (id : Nat) (left right : Plan) (condition : Expr) (type : JoinType) :
    (join id left right condition type).width =
      left.width + if type.keepsRight then right.width else 0 := by
  rw [width, schema]
  cases type <;> simp [joinSchema, joinedSchema, JoinType.keepsRight, width]

theorem lt_of_copyOf? {columns : List Projection} {i c : Nat}
    (h : Metadata.copyOf? columns i = some c) : c < columns.length :=
  (List.findIdx?_eq_some_iff_getElem.1 h).1

end Plan

namespace Metadata.Basis
variable {Q : Type} [Quantity Q] {b : Basis Q} {p : Plan}

theorem length_schemaSizes (schema : Schema) :
    (schemaSizes schema : List (Option Q)).length = schema.length :=
  List.length_map _

theorem length_sizes {sizes : List (Option Q)} (hrules : b.rules = .builtin) (hvalid : p.Valid)
    (h : b.Answers p ⟨.averageColumnSizes, .none⟩ (.ok (some (.sizes sizes)))) :
    sizes.length = p.width := by
  induction p using Plan.inputInduction generalizing sizes with
  | node p ih =>
    have hinput {i : Nat} {sizes : List (Option Q)}
        (h : b.Gives p (averageColumnSizes (.input i)) (.ok (some sizes))) :
        ∃ child, p.children[i]? = some child ∧ sizes.length = child.width := by
      obtain ⟨child, hs, hanswers⟩ := gives_averageColumnSizes.1 h
      have hchild := List.mem_of_getElem? hs
      exact ⟨child, hs, ih child hchild (hvalid.child hchild) hanswers⟩
    have hside {i : Nat} {side : Plan} (hs : p.children[i]? = some side)
        {found : Option (List (Option Q))}
        (h : b.Gives p (averageColumnSizes (.input i)) (.ok found)) :
        (found.getD (schemaSizes side.schema)).length = side.width := by
      cases found with
      | none => exact length_schemaSizes side.schema
      | some sizes =>
        obtain ⟨child, hchild, hlength⟩ := hinput h
        exact Option.some.inj (hs.symm.trans hchild) ▸ hlength
    cases p with
    | scan =>
      cases gives_known.1 (gives_of_builtin hrules h rfl)
      simp [Plan.width]
    | values id rows shape notes =>
      have hgives := gives_of_builtin hrules h rfl
      cases rows with
      | nil =>
        cases gives_known.1 hgives
        exact length_schemaSizes shape
      | cons row rest =>
        cases gives_known.1 hgives
        simp [Plan.width, Plan.schema]
    | filter | sort | exchange =>
      obtain ⟨found, hfound, hfact⟩ := gives_fromInput (gives_of_builtin hrules h rfl)
      cases hfact
      obtain ⟨child, hchild, hlength⟩ := hinput hfound
      cases hchild
      exact hlength
    | project id input columns =>
      obtain ⟨found, -, hknown⟩ := gives_bind.1 (gives_of_builtin hrules h rfl)
      cases gives_known.1 hknown
      rw [List.length_map, Plan.width_project]
    | aggregate id input sets calls indicator =>
      obtain ⟨found, -, hknown⟩ := gives_bind.1 (gives_of_builtin hrules h rfl)
      cases gives_known.1 hknown
      rw [Plan.width_aggregate fun c => Plan.lt_of_checkAggregate hvalid.check]
      cases indicator <;> simp [ColumnSet.size, Nat.add_assoc]
    | join id left right condition type =>
      obtain ⟨found, hfound, hgives⟩ := gives_bind.1 (gives_of_builtin hrules h rfl)
      have hleft := hside rfl hfound
      rw [Plan.width_join]
      split at hgives
      next htype =>
        obtain ⟨found', hfound', hknown⟩ := gives_bind.1 hgives
        cases gives_known.1 hknown
        rw [List.length_append, hleft, hside rfl hfound', if_pos htype]
      next htype =>
        cases gives_known.1 hgives
        rw [hleft, if_neg htype, Nat.add_zero]
    | setOp id op inputs all =>
      have hgives : b.Gives (.setOp id op inputs all) (Size.ofSetOp b.setting
          (.setOp id op inputs all) .none) (.ok (some (.sizes sizes))) := by
        cases op <;> exact gives_of_builtin hrules h rfl
      obtain ⟨found, -, hknown⟩ := gives_bind.1 hgives
      cases gives_known.1 hknown
      simp [length_schemaSizes, Plan.width]
    | other =>
      cases gives_known.1 (gives_of_builtin hrules h rfl)
      exact length_schemaSizes _

omit [Quantity Q] in
theorem within_shift {key : ColumnSet} {m n : Nat} (h : key.Within n) :
    (UniqueKeys.shift m key).Within (m + n) := by
  intro c hc
  obtain ⟨d, hd, rfl⟩ := List.mem_map.1 (ColumnSet.mem_ofList.1 hc)
  have := h d hd
  omega

omit [Quantity Q] in
theorem within_of_joinKey {left : Plan} {condition : Expr} {type : JoinType} {ignoreNulls : Bool}
    {key : ColumnSet} {n : Nat}
    (hleft : ∀ key, b.KeyOf p (.input 0) ignoreNulls key → key.Within left.width)
    (hright : ∀ key, b.KeyOf p (.input 1) ignoreNulls key → key.Within n)
    (h : b.JoinKey p left condition type ignoreNulls key) :
    key.Within (left.width + if type.keepsRight then n else 0) := by
  cases h with
  | kept htype hkey => exact (hleft _ hkey).mono (Nat.le_add_right _ _)
  | both htype hl hr =>
    subst htype
    intro c hc
    rcases ColumnSet.mem_union.1 hc with hc | hc
    · exact Nat.lt_add_right _ (hleft _ hl c hc)
    · exact within_shift (hright _ hr) c hc
  | fromLeft htype hkey => exact (hleft _ hkey).mono (Nat.le_add_right _ _)
  | fromRight htype hkey => rcases htype with rfl | rfl <;> exact within_shift (hright _ hkey)

theorem keys_within {ignoreNulls : Bool} {keys : List ColumnSet} (hrules : b.rules = .builtin)
    (hvalid : p.Valid) (hcatalog : p.Cataloged b.setting.source)
    (h : b.Answers p ⟨.uniqueKeys, .ignoreNulls ignoreNulls⟩ (.ok (some (.keys keys)))) :
    ∀ key ∈ keys, key.Within p.width := by
  induction p using Plan.inputInduction generalizing keys with
  | node p ih =>
    have hchild {child : Plan} {key : ColumnSet} (hmem : child ∈ p.children)
        (h : b.KeyOf child .self ignoreNulls key) : key.Within child.width := by
      obtain ⟨keys, hkeys, hkey⟩ := h
      exact ih child hmem (hvalid.child hmem) (hcatalog.child hmem) (keyOf_self.1 hkeys) key hkey
    clear ih
    intro key hkey
    cases keyed_of_keyOf hrules ⟨keys, keyOf_self.2 h, hkey⟩ with
    | scan hd hdeclared =>
      obtain ⟨hwidth, hconsistent⟩ := hcatalog.scan hd
      exact hwidth ▸ hconsistent.keys key hdeclared
    | values | limit => exact List.forall_mem_nil _
    | filter hkey | sort _ hkey | exchange hkey =>
      have hwithin := hchild List.mem_cons_self hkey
      exact hwithin
    | project hkey hcopied =>
      rw [Plan.width_project]
      intro d hd
      obtain ⟨c, -, hcopy⟩ := (ColumnSet.renumber?_eq_some hcopied).2 d hd
      exact Plan.lt_of_copyOf? hcopy
    | @aggregate id input set calls indicator =>
      refine (ColumnSet.within_range set.size).mono ?_
      rw [Plan.width_aggregate fun c => Plan.lt_of_checkAggregate hvalid.check,
        Plan.groupColumns_singleton]
      omega
    | join hkey =>
      rw [Plan.width_join]
      refine within_of_joinKey (fun key hl => ?_) (fun key hr => ?_) hkey
      · exact hchild List.mem_cons_self (.of_child rfl hl)
      · exact hchild (List.mem_cons_of_mem _ List.mem_cons_self) (.of_child rfl hr)
    | setOp => exact ColumnSet.within_range _

theorem collations_within {orders : List Collation} (hrules : b.rules = .builtin)
    (hvalid : p.Valid) (hcatalog : p.Cataloged b.setting.source)
    (h : b.Answers p ⟨.collation, .none⟩ (.ok (some (.collations orders)))) :
    ∀ order ∈ orders, order.Within p.width := by
  induction p using Plan.inputInduction generalizing orders with
  | node p ih =>
    have hinput {orders : List Collation}
        (h : b.Gives p (collations (.input 0)) (.ok (some orders))) :
        ∃ child, p.children[0]? = some child ∧ ∀ order ∈ orders, order.Within child.width := by
      obtain ⟨child, hs, hanswers⟩ := gives_collations.1 h
      have hchild := List.mem_of_getElem? hs
      exact ⟨child, hs, ih child hchild (hvalid.child hchild) (hcatalog.child hchild) hanswers⟩
    have hunordered (h : b.Gives p (Orders.unordered b.setting p .none)
        (.ok (some (.collations orders)))) : ∀ order ∈ orders, order.Within p.width := by
      cases gives_known.1 h
      exact List.forall_mem_nil _
    intro order horder
    cases p with
    | scan id table shape notes =>
      have hgives := gives_of_builtin hrules h rfl
      simp only [Orders.ofScan] at hgives
      split at hgives
      next d hd =>
        cases gives_known.1 hgives
        obtain ⟨hwidth, hdeclared⟩ := hcatalog.scan hd
        split at horder
        · cases horder
        · obtain rfl := List.mem_singleton.1 horder
          exact hwidth ▸ hdeclared.collation
      · cases gives_known.1 hgives
        cases horder
    | filter | exchange =>
      obtain ⟨found, hfound, hfact⟩ := gives_fromInput (gives_of_builtin hrules h rfl)
      cases hfact
      obtain ⟨child, hchild, hwithin⟩ := hinput hfound
      cases hchild
      exact hwithin order horder
    | project id input columns =>
      obtain ⟨found, -, hknown⟩ := gives_bind.1 (gives_of_builtin hrules h rfl)
      cases gives_known.1 hknown
      obtain ⟨source, -, rfl⟩ := List.mem_map.1 (List.mem_filter.1 horder).1
      rw [Plan.width_project]
      exact .remap (fun i c => Plan.lt_of_copyOf?) source
    | sort id input collation offset fetch =>
      cases gives_known.1 (gives_of_builtin hrules h rfl)
      obtain rfl := List.mem_singleton.1 horder
      exact fun k hk => Plan.requireColumns_eq_ok hvalid.check _ (List.mem_map_of_mem hk)
    | setOp id op => cases op <;> exact hunordered (gives_of_builtin hrules h rfl) order horder
    | _ => exact hunordered (gives_of_builtin hrules h rfl) order horder

theorem distribution_within {placed : Distribution} (hrules : b.rules = .builtin)
    (hvalid : p.Valid) (hcatalog : p.Cataloged b.setting.source)
    (h : b.Answers p ⟨.distribution, .none⟩ (.ok (some (.distribution placed)))) :
    placed.Within p.width := by
  induction p using Plan.inputInduction generalizing placed with
  | node p ih =>
    have hinput {placed : Distribution}
        (h : b.Gives p (distribution (.input 0)) (.ok (some placed))) :
        ∃ child, p.children[0]? = some child ∧ placed.Within child.width := by
      obtain ⟨child, hs, hanswers⟩ := gives_distribution.1 h
      have hchild := List.mem_of_getElem? hs
      exact ⟨child, hs, ih child hchild (hvalid.child hchild) (hcatalog.child hchild) hanswers⟩
    have hsingle (h : b.Gives p (Placement.ofOnePart b.setting p .none)
        (.ok (some (.distribution placed)))) : placed.Within p.width := by
      cases gives_known.1 h
      exact List.forall_mem_nil _
    cases p with
    | scan id table shape notes =>
      have hgives := gives_of_builtin hrules h rfl
      cases gives_known.1 hgives
      cases hd : b.setting.descriptor? (.scan id table shape notes) with
      | none => exact List.forall_mem_nil _
      | some d =>
        obtain ⟨hwidth, hdeclared⟩ := hcatalog.scan hd
        cases hplaced : d.distribution with
        | none =>
          simp only [hplaced, Option.bind_some, Option.getD_none]
          exact List.forall_mem_nil _
        | some placed =>
          simp only [hplaced, Option.bind_some, Option.getD_some]
          exact hwidth ▸ hdeclared.distribution placed hplaced
    | values =>
      cases gives_known.1 (gives_of_builtin hrules h rfl)
      exact List.forall_mem_nil _
    | filter | sort =>
      obtain ⟨found, hfound, hfact⟩ := gives_fromInput (gives_of_builtin hrules h rfl)
      cases hfact
      obtain ⟨child, hchild, hwithin⟩ := hinput hfound
      cases hchild
      exact hwithin
    | project id input columns =>
      obtain ⟨source, -, hfact⟩ := gives_report.1 (gives_of_builtin hrules h rfl)
      rw [Plan.width_project]
      split at hfact
      next keys hkeys =>
        cases hfact
        intro c hc
        obtain ⟨i, -, hcopy⟩ := forall₂_exists_mem (mapM_eq_some.1 hkeys) hc
        exact Plan.lt_of_copyOf? hcopy
      · cases hfact
        exact List.forall_mem_nil _
    | exchange id input distribution =>
      cases gives_known.1 (gives_of_builtin hrules h rfl)
      exact Plan.requireColumns_eq_ok hvalid.check
    | setOp id op => cases op <;> exact hsingle (gives_of_builtin hrules h rfl)
    | _ => exact hsingle (gives_of_builtin hrules h rfl)

end Metadata.Basis

namespace Metadata.Query
open Metadata.Basis
variable {Q : Type} [Quantity Q] {root node : Plan} {fresh q : Query Q}

/-- Whatever was asked before, what is known of a node fits its width: there is a size for each
column, and keys, orders and the placement name only columns that it has. -/
theorem answers_fit_width {α : Type} {source : TableSource Q} {scanRows : Q} {splits : Nat}
    {caching : Bool} {earlier : List (Plan × Inquiry Q α)} {outcomes : List (Except Error α)}
    (hfresh : ofPlan root .builtin source scanRows splits caching = .ok fresh)
    (hearlier : ∀ r ∈ earlier, r.1 ∈ root.nodes)
    (hserve : fresh.serve earlier = some (outcomes, q)) (hvalid : root.Valid)
    (hcatalog : root.Cataloged source) (hnode : node ∈ root.nodes) :
    (∀ sizes q', q.inquire node (averageColumnSizes .self) = some (.ok (some sizes), q') →
      sizes.length = node.width) ∧
    (∀ ignoreNulls keys q',
      q.inquire node (uniqueKeys .self ignoreNulls) = some (.ok (some keys), q') →
      ∀ key ∈ keys, ∀ c ∈ key, c < node.width) ∧
    (∀ orders q', q.inquire node (collations .self) = some (.ok (some orders), q') →
      ∀ order ∈ orders, ∀ k ∈ order, k.column < node.width) ∧
    ∀ placed q', q.inquire node (distribution .self) = some (.ok (some placed), q') →
      ∀ c ∈ placed.keys, c < node.width := by
  obtain ⟨hbasis, ids, hmemo⟩ := serve_fresh hfresh hearlier hserve
  have hrules : q.rules = .builtin := by rw [hbasis]
  have hmem : node ∈ q.root.nodes := by rw [hbasis]; exact hnode
  have hvalid := hvalid.of_mem_nodes hnode
  have hcatalog : node.Cataloged q.setting.source := by rw [hbasis]; exact hcatalog.below hnode
  refine ⟨fun sizes q' h => ?_, fun ignoreNulls keys q' h => ?_, fun orders q' h => ?_,
    fun placed q' h => ?_⟩
  all_goals obtain ⟨-, -, hgives⟩ := inquire_sound ids hmemo hmem h
  · have hanswers := exists_self.1 (gives_averageColumnSizes.1 hgives)
    exact length_sizes hrules hvalid hanswers
  · have hanswers := exists_self.1 (gives_uniqueKeys.1 hgives)
    exact keys_within hrules hvalid hcatalog hanswers
  · have hanswers := exists_self.1 (gives_collations.1 hgives)
    exact collations_within hrules hvalid hcatalog hanswers
  · have hanswers := exists_self.1 (gives_distribution.1 hgives)
    exact distribution_within hrules hvalid hcatalog hanswers

theorem answers_fit_width_reversed :
    let table : TableRef := ⟨7, "main", "orders"⟩
    let shape : Schema := [⟨"id", .int64 false, {}⟩, ⟨"customer", .int64 false, {}⟩]
    let source : TableSource Binary64 :=
      ⟨fun _ => .ok ⟨table, [1, 2], shape, none, [.ofList [0]], [⟨1, .ascending, .last⟩],
        some ⟨.hash, [1], some 4⟩⟩, fun _ => .ok none⟩
    let p : Plan := .project 2 (.scan 1 table shape)
      [⟨.column 1 (.int64 false), "customer"⟩, ⟨.column 0 (.int64 false), "id"⟩]
    ∃ fresh q' q'', ofPlan p .builtin source Quantity.one 1 true = .ok fresh ∧ p.Valid ∧
      p.Cataloged source ∧ p.width = 2 ∧
      fresh.inquire p (uniqueKeys .self false) = some (.ok (some [.ofList [1]]), q') ∧
      (∀ key ∈ [ColumnSet.ofList [1]], ∀ c ∈ key, c < p.width) ∧
      fresh.inquire p (distribution .self) = some (.ok (some ⟨.hash, [0], some 4⟩), q'') ∧
      ∀ c ∈ [0], c < p.width := by
  intro table shape source p
  obtain ⟨fresh, hfresh⟩ : ∃ fresh : Query Binary64,
      ofPlan p .builtin source Quantity.one 1 true = .ok fresh := ⟨_, rfl⟩
  have hnode : p ∈ p.nodes := Plan.self_mem_nodes p
  have hserve : fresh.serve ([] : List (Plan × Inquiry Binary64 Unit)) = some ([], fresh) := rfl
  have hvalid : p.Valid := by decide +kernel
  have hcatalog : p.Cataloged source := by
    intro id table' shape' notes hscan d hd
    cases hd
    simp only [p, Plan.nodes_eq_cons, Plan.children, List.flatMap_cons, List.flatMap_nil,
      List.append_nil, List.mem_cons, List.not_mem_nil, reduceCtorEq, or_false, false_or,
      Plan.scan.injEq] at hscan
    obtain ⟨-, -, rfl, -⟩ := hscan
    refine ⟨rfl, ?_, ?_, ?_⟩
    · intro key hkey c hc
      obtain rfl := List.mem_singleton.1 hkey
      obtain rfl := List.mem_singleton.1 (ColumnSet.mem_ofList.1 hc)
      decide
    · exact List.forall_mem_singleton.2 (by decide)
    · rintro placed ⟨⟩
      exact List.forall_mem_singleton.2 (by decide)
  have hkeys : fresh.Gives p (uniqueKeys .self false) (.ok (some [.ofList [1]])) := by
    obtain ⟨-, rfl⟩ := ofPlan_eq_ok hfresh
    refine gives_uniqueKeys.2 ⟨p, rfl, answers_some.2 ⟨_, rfl, ?_⟩⟩
    refine gives_report.2 ⟨[.ofList [0]], ?_, by rfl⟩
    exact gives_uniqueKeys.2 ⟨_, rfl, answers_some.2 ⟨_, rfl, gives_known.2 (by rfl)⟩⟩
  have hplaced : fresh.Gives p (distribution .self) (.ok (some ⟨.hash, [0], some 4⟩)) := by
    obtain ⟨-, rfl⟩ := ofPlan_eq_ok hfresh
    refine gives_distribution.2 ⟨p, rfl, answers_some.2 ⟨_, rfl, ?_⟩⟩
    refine gives_report.2 ⟨⟨.hash, [1], some 4⟩, ?_, by rfl⟩
    exact gives_distribution.2 ⟨_, rfl, answers_some.2 ⟨_, rfl, gives_known.2 (by rfl)⟩⟩
  obtain ⟨q', hinquire⟩ := inquire_fresh hfresh hnode hkeys
  obtain ⟨q'', hinquire'⟩ := inquire_fresh hfresh hnode hplaced
  obtain ⟨-, hwithin, -, hwithin'⟩ :=
    answers_fit_width hfresh (by simp) hserve hvalid hcatalog hnode
  exact ⟨fresh, q', q'', hfresh, hvalid, hcatalog, rfl, hinquire, hwithin false _ q' hinquire,
    hinquire', hwithin' _ q'' hinquire'⟩

end Metadata.Query
end Relational
