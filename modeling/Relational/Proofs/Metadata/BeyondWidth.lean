import Relational.Proofs.Metadata.Alignment
import Relational.Proofs.Metadata.Answerable
import Relational.Proofs.Metadata.LineageChoices

/-!
# Columns beyond a node's row

A column that a node does not have is mostly recognised by the operator that it comes to on the way
down, and has no known origins and no lineage. It is not where the rule of an operator does not look
at the width of its own row: literal rows have no origins in any column, and a join that keeps only
its left side takes the columns after those of that side for those of the other.
-/
namespace Relational

namespace Plan
variable {leaves : List Kind} {p : Plan} {c : Nat}

/-- Asked for a column beyond its row, the node passes the question on to a leaf that answers for
any column, or to a side of a join that is not in its row but has the column. -/
inductive Overreads (leaves : List Kind) : Plan → Nat → Prop
  | leaf {p : Plan} {c : Nat} (h : p.kind ∈ leaves) : Overreads leaves p c
  | half {id : Nat} {left right : Plan} {condition : Expr} {type : JoinType} {c : Nat}
      (htype : type.keepsRight = false) (hleft : left.width ≤ c)
      (hright : c < left.width + right.width) :
    Overreads leaves (.join id left right condition type) c
  | right {id : Nat} {left right : Plan} {condition : Expr} {type : JoinType} {c : Nat}
      (hc : left.width + right.width ≤ c) (h : Overreads leaves right (c - left.width)) :
    Overreads leaves (.join id left right condition type) c
  | filter {id : Nat} {input : Plan} {predicate : Expr} {c : Nat} (h : Overreads leaves input c) :
    Overreads leaves (.filter id input predicate) c
  | setOp {id : Nat} {op : SetOp} {inputs : List Plan} {all : Bool} {c : Nat}
      (h : ∀ input ∈ inputs, Overreads leaves input c) :
    Overreads leaves (.setOp id op inputs all) c
  | sort {id : Nat} {input : Plan} {collation : Collation} {offset fetch : Option Nat} {c : Nat}
      (h : Overreads leaves input c) : Overreads leaves (.sort id input collation offset fetch) c
  | exchange {id : Nat} {input : Plan} {distribution : Distribution} {c : Nat}
      (h : Overreads leaves input c) : Overreads leaves (.exchange id input distribution) c

theorem overreads_join {id : Nat} {left right : Plan} {condition : Expr} {type : JoinType}
    (hc : (join id left right condition type).width ≤ c)
    (h : Metadata.Basis.sideOf left right c = (right, c - left.width) →
      right.width ≤ c - left.width → right.Overreads leaves (c - left.width)) :
    (join id left right condition type).Overreads leaves c := by
  rw [width_join] at hc
  have hside : Metadata.Basis.sideOf left right c = (right, c - left.width) := if_neg (by omega)
  by_cases hbeyond : left.width + right.width ≤ c
  · exact .right hbeyond (h hside (by omega))
  · cases htype : type.keepsRight with
    | true =>
      rw [htype, if_pos rfl] at hc
      exact absurd hc hbeyond
    | false => exact .half htype (by omega) (Nat.not_le.1 hbeyond)

theorem lt_width_of_group {id g : Nat} {input : Plan} {sets : List ColumnSet}
    {calls : List AggregateCall} {indicator : Bool}
    (hvalid : (aggregate id input sets calls indicator).Valid)
    (hc : (groupColumns sets).columns[c]? = some g) :
    c < (aggregate id input sets calls indicator).width := by
  have hlt : c < (groupColumns sets).size := (List.getElem?_eq_some_iff.1 hc).1
  rw [width_aggregate fun c => lt_of_checkAggregate hvalid.check]
  omega

end Plan

namespace Metadata

namespace Basis
open Lineage
variable {Q : Type} [Quantity Q] {b : Basis Q} {p : Plan} {kind : Kind} {args : Args} {c : Nat}

/-- By induction over the plan: a column beyond the row that has known origins is passed on to one
beyond that of an input. -/
theorem overreads_of_origins (hrules : b.rules = .builtin) (hvalid : p.Valid)
    (hc : p.width ≤ c) {origins : List ColumnOrigin}
    (h : b.Answers p ⟨.columnOrigin, .column c⟩ (.ok (some (.origins origins)))) :
    p.Overreads [.values] c := by
  induction p using Plan.inputInduction generalizing c origins with
  | node p ih =>
    have hinput {input : Plan} (hchild : input ∈ p.children) {c : Nat}
        {origins : List ColumnOrigin} (hc : input.width ≤ c)
        (h : b.Answers input ⟨.columnOrigin, .column c⟩ (.ok (some (.origins origins)))) :
        input.Overreads [.values] c :=
      ih input hchild (hvalid.child hchild) hc h
    cases originsFrom_of_answers hrules h with
    | scan _ hlt => exact absurd hc (Nat.not_le.2 hlt)
    | values => exact .leaf (List.mem_singleton_self _)
    | filter h => exact .filter (hinput List.mem_cons_self hc h)
    | copied hcolumn | computed hcolumn =>
      rw [Plan.width_project] at hc
      exact absurd hc (Nat.not_le.2 (List.getElem?_eq_some_iff.1 hcolumn).1)
    | group hgroup =>
      exact absurd hc (Nat.not_le.2 (Plan.lt_width_of_group hvalid hgroup))
    | result hlt =>
      rw [Plan.width_aggregate fun c => Plan.lt_of_checkAggregate hvalid.check] at hc
      exact absurd hc (Nat.not_le.2 hlt)
    | join h =>
      refine Plan.overreads_join hc fun hside hright => ?_
      rw [hside] at h
      exact hinput (List.mem_cons_of_mem _ List.mem_cons_self) hright h
    | setOp hlists =>
      refine .setOp fun input hmem => ?_
      obtain ⟨list, -, h⟩ := forall₂_exists_mem hlists.flip hmem
      exact hinput hmem ((Plan.width_of_checkSetOp hvalid.check hmem).trans_le hc) h
    | sort h => exact .sort (hinput List.mem_cons_self hc h)
    | exchange h => exact .exchange (hinput List.mem_cons_self hc h)

theorem overreads_of_lineage (hrules : b.rules = .builtin) (hvalid : p.Valid) (hc : p.width ≤ c)
    {e : Expr} (he : c ∈ e.columnsRead) {exprs : List Expr}
    (h : b.Answers p ⟨.expressionLineage, .expr e⟩ (.ok (some (.exprs exprs)))) :
    p.Overreads [] c := by
  induction p using Plan.inputInduction generalizing c e exprs with
  | node p ih =>
    have hinput {input : Plan} (hchild : input ∈ p.children) {c : Nat} {e : Expr}
        {exprs : List Expr} (hc : input.width ≤ c) (he : c ∈ e.columnsRead)
        (h : b.Answers input ⟨.expressionLineage, .expr e⟩ (.ok (some (.exprs exprs)))) :
        input.Overreads [] c :=
      ih input hchild (hvalid.child hchild) hc he h
    obtain ⟨⟨_, t⟩, hr, rfl⟩ := List.mem_map.1 (ColumnSet.mem_ofList.1 he)
    cases lineages_of_answers hrules h with
    | scan _ htraced hg =>
      obtain ⟨d, hd⟩ := Expr.exists_of_substitute htraced _ hr
      exact absurd hc (Nat.not_le.2 (hg _ _ d hd).1)
    | filter h => exact .filter (hinput List.mem_cons_self hc he h)
    | project hpushed hg _ =>
      obtain ⟨d, hd⟩ := Expr.exists_of_substitute hpushed _ hr
      obtain ⟨column, hcolumn, -⟩ := hg _ _ d hd
      rw [Plan.width_project] at hc
      exact absurd hc (Nat.not_le.2 (List.getElem?_eq_some_iff.1 hcolumn).1)
    | aggregate hpushed hg _ =>
      obtain ⟨d, hd⟩ := Expr.exists_of_substitute hpushed _ hr
      obtain ⟨group, hgroup, -⟩ := hg _ _ d hd
      exact absurd hc (Nat.not_le.2 (Plan.lt_width_of_group hvalid hgroup))
    | join =>
      refine Plan.overreads_join hc fun hside hright => ?_
      obtain ⟨found, hfound, hgives⟩ := gives_bind.1 (gives_of_builtin hrules h rfl)
      cases found with
      | none => cases gives_unknown.1 hgives
      | some columns =>
        obtain ⟨t, ht⟩ := mem_typedColumns hr
        obtain ⟨column, -, -, -, hanswers⟩ :=
          forall₂_exists_mem (gives_perColumn.1 hfound).flip ht
        rw [hside] at hanswers
        exact hinput (List.mem_cons_of_mem _ List.mem_cons_self) hright
          (ColumnSet.mem_ofList.2 (List.mem_singleton_self _)) hanswers
    | union hlists =>
      refine .setOp fun input hmem => ?_
      obtain ⟨list, -, h⟩ := forall₂_exists_mem hlists.flip hmem
      exact hinput hmem ((Plan.width_of_checkSetOp hvalid.check hmem).trans_le hc) he h
    | sort h => exact .sort (hinput List.mem_cons_self hc he h)
    | exchange h => exact .exchange (hinput List.mem_cons_self hc he h)

end Basis

namespace Query
open Metadata.Basis
variable {Q : Type} [Quantity Q] {root node : Plan} {fresh q : Query Q} {c : Nat}

theorem inquire_unknown {α : Type} (hrules : q.rules = .builtin) (ids : q.root.checkIds = .ok ())
    (hmemo : q.Sound q.memo) (hnode : node ∈ q.root.nodes) {x : Inquiry Q (Option α)}
    (hnone : ∀ a, ¬ q.Gives node x (.ok (some a))) :
    ∃ outcome q', q.inquire node x = some (outcome, q') ∧ q.Gives node x outcome ∧
      ∀ a, outcome = .ok a → a = none := by
  obtain ⟨⟨outcome, q'⟩, hinquire⟩ :=
    Option.isSome_iff_exists.1 (q.inquire_isSome (hrules ▸ RuleTable.builtin_ranked) node x)
  obtain ⟨-, -, hgives⟩ := inquire_sound ids hmemo hnode hinquire
  refine ⟨outcome, q', hinquire, hgives, ?_⟩
  rintro a rfl
  cases a with
  | none => rfl
  | some a => exact absurd hgives (hnone a)

/-- Whatever was asked before, the origins of a column beyond a node's row are unknown, and so is
the lineage of any expression that reads it, unless the column is passed on to literal rows, which
have no origins in any column, or to a side that a join does not keep. A lineage that is asked for on
the way may overflow. -/
theorem unknown_beyond_width {α : Type} {source : TableSource Q} {scanRows : Q} {splits : Nat}
    {caching : Bool} {earlier : List (Plan × Inquiry Q α)} {outcomes : List (Except Error α)}
    (hfresh : ofPlan root .builtin source scanRows splits caching = .ok fresh)
    (hearlier : ∀ r ∈ earlier, r.1 ∈ root.nodes)
    (hserve : fresh.serve earlier = some (outcomes, q)) (hvalid : root.Valid)
    (hnode : node ∈ root.nodes) (hc : node.width ≤ c) :
    (¬ node.Overreads [.values] c →
      ∃ q', q.inquire node (columnOrigins .self c) = some (.ok none, q')) ∧
    (¬ node.Overreads [] c → ∀ e : Expr, c ∈ e.columnsRead →
      ∃ outcome q', q.inquire node (expressionLineage .self e) = some (outcome, q') ∧
        (outcome = .ok none ∨
          outcome = .error .overflow ∧ ¬ q.WordsFit node (expressionLineage .self e))) := by
  obtain ⟨hbasis, ids, hmemo⟩ := serve_fresh hfresh hearlier hserve
  have hrules : q.rules = .builtin := by rw [hbasis]
  have hmem : node ∈ q.root.nodes := by rw [hbasis]; exact hnode
  have hnodeValid := hvalid.of_mem_nodes hnode
  constructor
  · intro hover
    obtain ⟨outcome, q', hinquire, hgives, hnone⟩ :=
      inquire_unknown (x := columnOrigins .self c) hrules ids hmemo hmem fun origins hgives =>
        hover (overreads_of_origins hrules hnodeValid hc (answers_column rfl hgives))
    cases outcome with
    | ok origins => exact ⟨q', hnone origins rfl ▸ hinquire⟩
    | error e =>
      exact absurd hgives (origins_not_error hrules ((heeds_askFor _ _ _ _).2 rfl) e)
  · intro hover e he
    obtain ⟨outcome, q', hinquire, hgives, hnone⟩ :=
      inquire_unknown (x := expressionLineage .self e) hrules ids hmemo hmem fun exprs hgives =>
        hover (overreads_of_lineage hrules hnodeValid hc he (answers_input rfl hgives))
    refine ⟨outcome, q', hinquire, ?_⟩
    have hreckoned : q.Reckoned node (expressionLineage .self e) outcome := by
      refine reckoned_of_heeds (P := fun s q => s = .self ∧ q.kind = .expressionLineage)
        ((heeds_askFor _ _ _ _).2 ⟨rfl, rfl⟩) ?_ hgives
      rintro s ⟨-, args⟩ other found ⟨rfl, rfl⟩ - hfound
      exact lineage_reckoned hrules hfound
    refine hreckoned.imp_left ?_
    rintro ⟨exprs, rfl⟩
    rw [hnone exprs rfl]

theorem unknown_beyond_width_groups :
    let table : TableRef := ⟨7, "main", "orders"⟩
    let shape : Schema := [⟨"id", .int64 false, {}⟩, ⟨"customer", .int64 false, {}⟩]
    let source : TableSource Binary64 :=
      ⟨fun _ => .error (.planning (.unknownTableId 7)), fun _ => .ok none⟩
    let all : Plan := .setOp 2 .union [.scan 0 table shape, .scan 1 table shape] true
    let groups : Plan := .aggregate 4 (.scan 3 table shape) [.ofList [1]] [] false
    let p : Plan := .join 5 all groups (.literal (.boolean true) (.boolean false)) .inner
    ∃ fresh q₁ q₂, ofPlan p .builtin source Quantity.one 1 true = .ok fresh ∧ p.Valid ∧
      p.width = 3 ∧ ¬ p.Overreads [.values] 3 ∧ ¬ p.Overreads [] 3 ∧
      fresh.inquire p (columnOrigins .self 3) = some (.ok none, q₁) ∧
      fresh.inquire p (expressionLineage .self (.column 3 (.int64 false))) =
        some (.ok none, q₂) := by
  intro table shape source all groups p
  obtain ⟨fresh, hfresh⟩ : ∃ fresh : Query Binary64,
      ofPlan p .builtin source Quantity.one 1 true = .ok fresh := ⟨_, rfl⟩
  have hserve : fresh.serve ([] : List (Plan × Inquiry Binary64 Unit)) = some ([], fresh) := rfl
  have hvalid : p.Valid := by decide +kernel
  have hwidth : p.width = 3 := by decide +kernel
  have hnot : ∀ leaves, leaves ⊆ [.values] → ¬ p.Overreads leaves 3 := by
    intro leaves hleaves h
    change (Plan.join 5 all groups _ .inner).Overreads leaves 3 at h
    cases h with
    | leaf h => cases List.mem_singleton.1 (hleaves h)
    | half htype => cases htype
    | right _ h =>
      change (Plan.aggregate 4 _ _ _ _).Overreads leaves _ at h
      cases h with
      | leaf h => cases List.mem_singleton.1 (hleaves h)
  obtain ⟨horigins, hlineage⟩ := unknown_beyond_width (c := 3) hfresh (by simp) hserve hvalid
    (Plan.self_mem_nodes p) (Nat.le_of_eq hwidth)
  obtain ⟨q₁, hinquire₁⟩ := horigins (hnot _ (List.Subset.refl _))
  obtain ⟨outcome, q₂, hinquire₂, hunknown⟩ := hlineage (hnot _ (List.nil_subset _))
    (.column 3 (.int64 false)) (ColumnSet.mem_ofList.2 (List.mem_singleton_self _))
  -- the groups have no lineage in the column, so that the join has nothing to count
  have hgroups : fresh.Answers groups ⟨.expressionLineage, .expr (.column 1 (.int64 false))⟩
      (.ok none) := by
    obtain ⟨-, rfl⟩ := ofPlan_eq_ok hfresh
    exact gives_unknown.2 rfl
  have hgives : fresh.Gives p (expressionLineage .self (.column 3 (.int64 false))) (.ok none) := by
    obtain ⟨-, rfl⟩ := ofPlan_eq_ok hfresh
    refine gives_askFor_none rfl ?_
    refine gives_bind.2 ⟨none, gives_bind.2 ⟨none, ?_, gives_unknown.2 rfl⟩, gives_unknown.2 rfl⟩
    exact gives_askFor_none rfl hgroups
  obtain ⟨q₃, hinquire₃⟩ := inquire_fresh hfresh (Plan.self_mem_nodes p) hgives
  obtain rfl : outcome = .ok none := by
    rw [hinquire₂] at hinquire₃
    exact congrArg Prod.fst (Option.some.inj hinquire₃)
  exact ⟨fresh, q₁, q₂, hfresh, hvalid, hwidth, hnot _ (List.Subset.refl _),
    hnot _ (List.nil_subset _), hinquire₁, hinquire₂⟩

/-- Literal rows of one column, kept by a semi join with a scan. -/
theorem known_beyond_width :
    let table : TableRef := ⟨7, "main", "orders"⟩
    let shape : Schema := [⟨"id", .int64 false, {}⟩]
    let source : TableSource Binary64 :=
      ⟨fun _ => .error (.planning (.unknownTableId 7)), fun _ => .ok none⟩
    let literals : Plan := .values 0 [] shape
    let p : Plan := .join 2 literals (.scan 1 table shape)
      (.literal (.boolean true) (.boolean false)) .semi
    let orders : TableOccurrence := ⟨"main.orders", 0⟩
    ∃ fresh q₁ q₂ q₃, ofPlan p .builtin source Quantity.one 1 true = .ok fresh ∧ p.Valid ∧
      literals.width = 1 ∧ p.width = 1 ∧
      fresh.inquire literals (columnOrigins .self 5) = some (.ok (some []), q₁) ∧
      fresh.inquire p (columnOrigins .self 1) = some (.ok (some [⟨orders, 0, false⟩]), q₂) ∧
      fresh.inquire p (expressionLineage .self (.column 1 (.int64 false))) =
        some (.ok (some [.tableColumn orders 0 (.int64 false)]), q₃) := by
  intro table shape source literals p orders
  obtain ⟨fresh, hfresh⟩ : ∃ fresh : Query Binary64,
      ofPlan p .builtin source Quantity.one 1 true = .ok fresh := ⟨_, rfl⟩
  have hnone : fresh.Gives literals (columnOrigins .self 5) (.ok (some [])) := by
    obtain ⟨-, rfl⟩ := ofPlan_eq_ok hfresh
    exact gives_columnOrigins.2 ⟨_, rfl, answers_some.2 ⟨_, rfl, gives_known.2 rfl⟩⟩
  have horigins : fresh.Gives p (columnOrigins .self 1) (.ok (some [⟨orders, 0, false⟩])) := by
    obtain ⟨-, rfl⟩ := ofPlan_eq_ok hfresh
    refine gives_columnOrigins.2 ⟨p, rfl, answers_some.2 ⟨_, rfl, ?_⟩⟩
    refine gives_report.2 ⟨[⟨orders, 0, false⟩], ?_, rfl⟩
    exact gives_columnOrigins.2 ⟨_, rfl, answers_some.2 ⟨_, rfl, gives_known.2 rfl⟩⟩
  have horders : fresh.Answers (.scan 1 table shape)
      ⟨.expressionLineage, .expr (.column 0 (.int64 false))⟩
      (.ok (some (.exprs [.tableColumn orders 0 (.int64 false)]))) := by
    obtain ⟨-, rfl⟩ := ofPlan_eq_ok hfresh
    exact answers_some.2 ⟨_, rfl, gives_known.2 rfl⟩
  have hlineage : fresh.Gives p (expressionLineage .self (.column 1 (.int64 false)))
      (.ok (some [.tableColumn orders 0 (.int64 false)])) := by
    have hrules : fresh.rules = .builtin := by
      obtain ⟨-, rfl⟩ := ofPlan_eq_ok hfresh
      rfl
    have hcolumns : List.Forall₂ (fresh.ColumnLineages literals (.scan 1 table shape))
        (Lineage.typedColumns (.column 1 (.int64 false)))
        [(1, [.tableColumn orders 0 (.int64 false)])] :=
      .cons ⟨rfl, List.cons_ne_nil _ _, horders⟩ .nil
    exact gives_lineage_join hrules hcolumns
  have hmem : literals ∈ p.nodes := Plan.mem_nodes_of_mem_children List.mem_cons_self
  obtain ⟨q₁, hinquire₁⟩ := inquire_fresh hfresh hmem hnone
  obtain ⟨q₂, hinquire₂⟩ := inquire_fresh hfresh (Plan.self_mem_nodes p) horigins
  obtain ⟨q₃, hinquire₃⟩ := inquire_fresh hfresh (Plan.self_mem_nodes p) hlineage
  exact ⟨fresh, q₁, q₂, q₃, hfresh, by decide +kernel, rfl, by decide +kernel, hinquire₁,
    hinquire₂, hinquire₃⟩

end Query
end Metadata
end Relational
