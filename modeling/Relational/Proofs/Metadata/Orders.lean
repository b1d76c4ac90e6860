import Relational.Proofs.Execution.Ordering
import Relational.Proofs.Execution.Width
import Relational.Proofs.Metadata.Caching
import Relational.Proofs.Metadata.UniqueKeys
import Relational.Proofs.Plan.Document

/-!
# Orders of executed plans

Where the tables are in their declared order and sort columns hold nulls and values of one sortable
type, the rows of a node are in every order that the built-in rules derive for it.
-/
namespace Relational

namespace Plan
variable {Q : Type} {registry : UserAggregate.Registry} {contents : Contents} {p node : Plan}
  {e : Emission} {columns : List Projection}

def Declared (source : TableSource Q) (contents : Contents) (p : Plan) : Prop :=
  ∀ id table shape notes, .scan id table shape notes ∈ p.nodes →
    ∀ d, source.table table.id = .ok d → InOrder d.collation (contents table)

/-- What is sorted holds in every sort column only nulls and values of one sortable type. -/
def Sortable (registry : UserAggregate.Registry) (contents : Contents) (p : Plan) : Prop :=
  ∀ id input collation offset fetch, .sort id input collation offset fetch ∈ p.nodes →
    ∀ e, input.start registry contents = .ok e → ∀ k ∈ collation, Uniform e.rows k.column

theorem Declared.below {source : TableSource Q} (h : p.Declared source contents)
    (hnode : node ∈ p.nodes) : node.Declared source contents :=
  fun id table shape notes hmem => h id table shape notes (mem_nodes_trans hnode hmem)

theorem Sortable.below (h : p.Sortable registry contents) (hnode : node ∈ p.nodes) :
    node.Sortable registry contents :=
  fun id input collation offset fetch hmem =>
    h id input collation offset fetch (mem_nodes_trans hnode hmem)

theorem Declared.scan {setting : Metadata.Setting Q} {id : Nat} {table : TableRef}
    {shape : Schema} {notes : Notes}
    (h : (Plan.scan id table shape notes).Declared setting.source contents) {d : TableDescriptor}
    (hd : setting.descriptor? (.scan id table shape notes) = some d) :
    InOrder d.collation (contents table) := by
  rw [Metadata.Setting.descriptor?, table?, Option.bind_some, toOption_eq_some] at hd
  exact h id table shape notes (self_mem_nodes _) d hd

theorem rows_filter_sublist (e : Emission) (code : Compiled) :
    (e.through (ExecUnit.passing code)).rows.Sublist e.rows := by
  obtain ⟨read, parts, hread, hparts, hrows⟩ := e.through_rows (ExecUnit.passing code)
  rw [hrows]
  exact (sublist_of_passing hparts).trans hread.sublist

theorem rows_project_inOrder {schema : Schema} {codes : List Compiled} {c : Collation}
    (hcodes : List.Forall₂ (fun column code => column.expr.compile schema = .ok code) columns codes)
    (h : InOrder c e.rows) :
    InOrder (c.remap (Metadata.copyOf? columns)) (e.through (ExecUnit.computing codes)).rows := by
  obtain ⟨read, parts, hread, hparts, hrows⟩ := e.through_rows (ExecUnit.computing codes)
  rw [hrows]
  exact (h.sublist hread.sublist).remap (copies_of_computing hcodes hparts)
    fun column i hcopy row out => copies_of_copyOf? hcopy

end Plan

namespace Metadata

namespace Basis
variable {Q : Type} {b : Basis Q} {p input : Plan} {registry : UserAggregate.Registry}
  {contents : Contents} {e : Emission} {rows source : List Row}

def Arranged (b : Basis Q) (p : Plan) (rows : List Row) : Prop :=
  ∃ orders, b.Answers p ⟨.collation, .none⟩ (.ok (some (.collations orders))) ∧
    ∀ c ∈ orders, InOrder c rows

theorem Arranged.sublist (h : b.Arranged p source) (hrows : rows.Sublist source) :
    b.Arranged p rows := by
  obtain ⟨orders, hanswers, horders⟩ := h
  exact ⟨orders, hanswers, fun c hc => (horders c hc).sublist hrows⟩

variable [Quantity Q]

theorem arranged_known {orders : List Collation} {rule : Rule Q} (hrules : b.rules = .builtin)
    (hrule : RuleTable.builtin.lookup p.kind .collation = some rule)
    (hknown : rule b.setting p .none = .known (.collations orders))
    (horders : ∀ c ∈ orders, InOrder c rows) : b.Arranged p rows :=
  ⟨orders, answers_of_builtin hrules hrule (hknown ▸ gives_known.2 rfl), horders⟩

theorem Arranged.passedOn (h : b.Arranged input rows) (hrules : b.rules = .builtin)
    (hinput : p.children = [input])
    (hrule : RuleTable.builtin.lookup p.kind .collation = some (Orders.passedOn (Q := Q))) :
    b.Arranged p rows := by
  obtain ⟨orders, hanswers, horders⟩ := h
  have hasked : b.Gives p (collations (.input 0)) (.ok (some orders)) :=
    gives_collations.2 ⟨input, by simp [node?, hinput], hanswers⟩
  refine ⟨orders, answers_of_builtin hrules hrule ?_, horders⟩
  exact gives_fromInput_ok (by simp [hinput]) hasked

theorem Arranged.project {id : Nat} {columns : List Projection} (h : b.Arranged input source)
    (hrules : b.rules = .builtin)
    (hrows : ∀ c, InOrder c source → InOrder (c.remap (copyOf? columns)) rows) :
    b.Arranged (.project id input columns) rows := by
  obtain ⟨orders, hanswers, horders⟩ := h
  refine ⟨(orders.map (·.remap (copyOf? columns))).filter (!·.isEmpty),
    answers_of_builtin hrules rfl ?_, fun c hc => ?_⟩
  · exact gives_bind.2 ⟨some orders, gives_collations.2 ⟨input, rfl, hanswers⟩, gives_known.2 rfl⟩
  · obtain ⟨order, horder, rfl⟩ := List.mem_map.1 (List.mem_filter.1 hc).1
    exact hrows order (horders order horder)

theorem arranged_scan {id : Nat} {table : TableRef} {shape : Schema} {notes : Notes}
    (hrules : b.rules = .builtin)
    (hdeclared : (Plan.scan id table shape notes).Declared b.setting.source contents) :
    b.Arranged (.scan id table shape notes) (contents table) := by
  cases hd : b.setting.descriptor? (.scan id table shape notes) with
  | none =>
    refine arranged_known hrules rfl ?_ (List.forall_mem_nil _)
    simp only [Orders.ofScan, hd]
  | some d =>
    refine arranged_known hrules rfl (by simp only [Orders.ofScan, hd]; rfl) fun c hc => ?_
    split at hc
    · cases hc
    · obtain rfl := List.mem_singleton.1 hc
      exact hdeclared.scan hd

/-- Every node that is started has its orders, and emits its rows in them. -/
theorem arranged (hrules : b.rules = .builtin) (valid : p.Valid)
    (hdeclared : p.Declared b.setting.source contents) (hsortable : p.Sortable registry contents)
    (h : p.start registry contents = .ok e) : b.Arranged p e.rows := by
  induction p using Plan.inputInduction generalizing e with
  | node p ih =>
    have below {child : Plan} (hchild : child ∈ p.children) {source : Emission}
        (hstart : child.start registry contents = .ok source) : b.Arranged child source.rows :=
      have hnode := Plan.mem_nodes_of_mem_children hchild
      ih child hchild (valid.child hchild) (hdeclared.below hnode) (hsortable.below hnode) hstart
    cases Plan.started_of_start h with
    | scan => exact arranged_scan hrules hdeclared
    | values | aggregate | union =>
      exact arranged_known hrules rfl rfl (List.forall_mem_nil _)
    | filter hinput _ =>
      exact ((below List.mem_cons_self hinput).passedOn hrules rfl rfl).sublist
        (Plan.rows_filter_sublist _ _)
    | project hinput hcodes =>
      exact (below List.mem_cons_self hinput).project hrules
        fun c => Plan.rows_project_inOrder hcodes
    | @sort id input collation offset fetch source hinput =>
      refine arranged_known hrules rfl rfl fun c hc => ?_
      obtain rfl := List.mem_singleton.1 hc
      cases hresult : source.result with
      | error error => exact .nil
      | ok rows =>
        obtain rfl := Emission.result_eq_ok.1 hresult
        have hwidth : ∀ row ∈ rows, row.length = input.width := fun _ =>
          Plan.length_of_start (valid.child List.mem_cons_self) hinput
        have huniform := hsortable _ _ _ _ _ (Plan.self_mem_nodes _) _ hinput
        exact (InOrder.of_sort hwidth huniform).sublist (window_sublist _ _ _)
    | exchange hinput => exact (below List.mem_cons_self hinput).passedOn hrules rfl rfl

end Basis

namespace Query
open Metadata.Basis
variable {Q : Type} [Quantity Q] {root node : Plan} {fresh q : Query Q}
  {registry : UserAggregate.Registry} {contents : Contents} {e : Emission}

/-- Whatever was asked before, the orders of a node that is executed are known, and its rows are in
each of them, also those of a run that fails later. -/
theorem collations_inOrder {α : Type} {source : TableSource Q} {scanRows : Q} {splits : Nat}
    {caching : Bool} {earlier : List (Plan × Inquiry Q α)} {outcomes : List (Except Error α)}
    (hfresh : ofPlan root .builtin source scanRows splits caching = .ok fresh)
    (hearlier : ∀ r ∈ earlier, r.1 ∈ root.nodes)
    (hserve : fresh.serve earlier = some (outcomes, q)) (hnode : node ∈ root.nodes)
    (valid : node.Valid) (hdeclared : node.Declared source contents)
    (hsortable : node.Sortable registry contents)
    (hstart : node.start registry contents = .ok e) :
    ∃ orders q', q.inquire node (collations .self) = some (.ok (some orders), q') ∧
      ∀ c ∈ orders, InOrder c e.rows := by
  obtain ⟨hbasis, hids, hsound⟩ := serve_fresh hfresh hearlier hserve
  have hrules : q.rules = .builtin := by rw [hbasis]
  have hmem : node ∈ q.root.nodes := by rw [hbasis]; exact hnode
  have hdeclared : node.Declared q.setting.source contents := by rw [hbasis]; exact hdeclared
  obtain ⟨orders, hanswers, horders⟩ :=
    arranged (b := q.toBasis) hrules valid hdeclared hsortable hstart
  obtain ⟨q', hinquire⟩ :=
    inquire_of_gives hids hsound hmem (gives_collations (s := .self).2 ⟨node, rfl, hanswers⟩)
  exact ⟨orders, q', hinquire, horders⟩

theorem collations_inOrder_amounts :
    let shape : Schema := [⟨"customer", .int64 false, {}⟩, ⟨"amount", .int64 true, {}⟩]
    let table : TableRef := ⟨7, "main", "orders"⟩
    let customer : SortKey := ⟨0, .ascending, .last⟩
    let source : TableSource Binary64 :=
      ⟨fun _ => .ok ⟨table, [1, 2], shape, none, [], [customer], none⟩, fun _ => .ok none⟩
    let contents : Contents :=
      fun _ => [[.int64 1, .int64 5], [.int64 2, .null], [.int64 3, .int64 7]]
    let orders : Plan := .scan 1 table shape
    let greatest : Plan := .sort 2 orders [⟨1, .descending, .last⟩, customer] none (some 2)
    let p : Plan := .project 3 greatest [⟨.column 1 (.int64 true), "amount"⟩]
    let e : Emission := ⟨[[.int64 7], [.int64 5]], none⟩
    p.Valid ∧ p.Declared source contents ∧ p.Sortable {} contents ∧ p.start {} contents = .ok e ∧
      ∃ fresh, ofPlan p .builtin source 1 1 true = .ok fresh ∧
        ∃ orders q', fresh.inquire p (collations .self) = some (.ok (some orders), q') ∧
          ∀ c ∈ orders, InOrder c e.rows := by
  intro shape table customer source contents orders greatest p e
  have valid : p.Valid := by decide +kernel
  have hnodes : p.nodes = [p, greatest, orders] := rfl
  have hdeclared : p.Declared source contents := by
    intro id table' shape' notes hscan d hd
    cases hd
    show InOrder [customer] (contents table')
    decide
  have hsortable : p.Sortable {} contents := by
    intro id input collation offset fetch hsort e he
    rw [hnodes] at hsort
    simp [p, greatest, orders] at hsort
    obtain ⟨-, rfl, rfl, -, -⟩ := hsort
    cases he
    have huniform : ∀ column, column = 0 ∨ column = 1 → Uniform (contents table) column := by
      rintro column (rfl | rfl) <;>
        exact ⟨.int64, .int64, by simp [contents, Value.Conforms, Value.dataType]⟩
    exact List.forall_mem_cons.2
      ⟨huniform 1 (.inr rfl), List.forall_mem_singleton.2 (huniform 0 (.inl rfl))⟩
  have hstart : p.start {} contents = .ok e := rfl
  obtain ⟨fresh, hfresh⟩ :
      ∃ fresh : Query Binary64, ofPlan p .builtin source 1 1 true = .ok fresh := ⟨_, rfl⟩
  have hserve : fresh.serve ([] : List (Plan × Inquiry Binary64 Unit)) = some ([], fresh) := rfl
  exact ⟨valid, hdeclared, hsortable, hstart, fresh, hfresh, collations_inOrder hfresh (by simp)
    hserve (Plan.self_mem_nodes p) valid hdeclared hsortable hstart⟩

end Query
end Metadata
end Relational
