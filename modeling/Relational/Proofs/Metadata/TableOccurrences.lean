import Relational.Proofs.Metadata.ColumnOrigins
import Relational.Proofs.Metadata.ExpressionLineage
import Relational.Proofs.Plan.Document
import Relational.Proofs.Plan.Occurrence

/-!
# Occurrences of tables in answers

Origins and lineages name only columns of the scans below the node, by the occurrences that the
query numbered over its whole plan. The tables of a node are the occurrences of those scans.
-/
namespace Relational

namespace Expr
variable {ε : Type} {P P' : TableOccurrence → Nat → Prop} {e e' : Expr} {schema : Schema}
  {f : Nat → SqlType → Except ε Expr}

def Names (P : TableOccurrence → Nat → Prop) (e : Expr) : Prop :=
  ∀ o c t, .tableColumn o c t ∈ e.parts → P o c

theorem Names.mono (hP : ∀ o c, P o c → P' o c) (h : e.Names P) : e.Names P' :=
  fun o c t hpart => hP o c (h o c t hpart)

theorem names_call {op : Op} {operands : List Expr} {t : SqlType} :
    (call op operands t).Names P ↔ ∀ o ∈ operands, o.Names P := by
  constructor
  · exact fun h o ho occurrence c t hpart => h occurrence c t (mem_parts_of_operand ho hpart)
  · intro h occurrence c t hpart
    rw [parts, partsOf_eq_flatMap] at hpart
    rcases List.mem_cons.1 hpart with hself | hbelow
    · cases hself
    · obtain ⟨o, ho, hpart⟩ := List.mem_flatMap.1 hbelow
      exact h o ho occurrence c t hpart

theorem names_column (i : Nat) (t : SqlType) : (column i t).Names P := by
  intro o c t' hpart
  cases List.mem_singleton.1 hpart

theorem names_tableColumn {o : TableOccurrence} {c : Nat} {t : SqlType} (h : P o c) :
    (tableColumn o c t).Names P := by
  intro o' c' t' hpart
  cases List.mem_singleton.1 hpart
  exact h

theorem Names.substitute (h : e.Names P) (he : e.substitute f = .ok e')
    (hf : ∀ i t d, f i t = .ok d → d.Names P) : e'.Names P := by
  induction e using operandInduction generalizing e' with
  | column i t => exact hf i t e' he
  | call op operands t ih =>
    obtain ⟨operands', hoperands, rfl⟩ := substitute_call_eq_ok.1 he
    refine names_call.2 fun o' ho' => ?_
    obtain ⟨o, ho, hsubstitute⟩ := forall₂_exists_mem hoperands ho'
    exact ih o ho (names_call.1 h o ho) hsubstitute
  | _ =>
    cases he
    exact h

theorem names_of_validate (h : e.validate schema = .ok ()) : e.Names P := by
  induction e using operandInduction with
  | call op operands t ih =>
    exact names_call.2 fun o ho => ih o ho (validateAll_eq_ok.1 h o ho)
  | tableColumn => cases h
  | _ =>
    intro o c t hpart
    cases List.mem_singleton.1 hpart

end Expr

namespace Metadata

instance : Std.LawfulEqCmp ColumnOrigin.order where
  compare_self := by simp [ColumnOrigin.order]
  eq_of_compare {a b} h := by
    obtain ⟨table, column, derived⟩ := a
    obtain ⟨table', column', derived'⟩ := b
    simpa [ColumnOrigin.order, Ordering.then_eq_eq] using h

namespace Basis
variable {Q : Type} {b : Basis Q} {p : Plan} {c : Nat} {origins : List ColumnOrigin}
  {e : Expr} {exprs : List Expr}

def Locates (b : Basis Q) (p : Plan) : TableOccurrence → Nat → Prop :=
  p.ScannedColumn b.setting.occurrence?

def Located (b : Basis Q) (p : Plan) (origins : List ColumnOrigin) : Prop :=
  ∀ o ∈ origins, b.Locates p o.table o.column

variable [Quantity Q]

/-- By induction over the plan: every operator passes on origins in its inputs, copied or derived,
and only a scan makes new ones. -/
theorem located_of_answers (hrules : b.rules = .builtin)
    (h : b.Answers p ⟨.columnOrigin, .column c⟩ (.ok (some (.origins origins)))) :
    b.Located p origins := by
  induction p using Plan.inputInduction generalizing c origins with
  | node p ih =>
    have hinput {input : Plan} (hchild : input ∈ p.children) {c : Nat}
        {origins : List ColumnOrigin}
        (h : b.Answers input ⟨.columnOrigin, .column c⟩ (.ok (some (.origins origins)))) :
        b.Located p origins :=
      fun x hx => (ih input hchild h x hx).above (Plan.mem_nodes_of_mem_children hchild)
    have hcomputed {input : Plan} (hchild : input ∈ p.children) {origins : List ColumnOrigin}
        (h : b.ComputedFrom input origins) : b.Located p origins := by
      intro x hx
      obtain ⟨c, found, hanswers, y, hy, rfl⟩ := h x hx
      exact hinput hchild hanswers y hy
    cases originsFrom_of_answers hrules h with
    | @scan _ _ shape _ _ _ ho hc =>
      exact List.forall_mem_singleton.2 ⟨shape, Plan.scanned_scan.2 ⟨ho, rfl⟩, hc⟩
    | values => exact fun _ hx => absurd hx List.not_mem_nil
    | filter h | sort h | exchange h | copied _ _ h | group _ h =>
      exact hinput List.mem_cons_self h
    | computed _ h | result _ h => exact hcomputed List.mem_cons_self h
    | join h => exact hinput (sideOf_mem _) h
    | setOp hlists =>
      intro x hx
      obtain ⟨list, hlist, hx⟩ := (mem_mergeAll.1 hx).resolve_left List.not_mem_nil
      obtain ⟨input, hchild, h⟩ := forall₂_exists_mem hlists hlist
      exact hinput hchild h x hx

omit [Quantity Q] in
theorem names_above {child : Plan} {l : Expr} (hchild : child ∈ p.children)
    (h : l.Names (b.Locates child)) : l.Names (b.Locates p) :=
  h.mono fun _ _ hlocates => hlocates.above (Plan.mem_nodes_of_mem_children hchild)

/-- By induction over the plan: what is asked of an input has no column of a table itself. -/
theorem names_of_answers (hrules : b.rules = .builtin) (hvalid : p.Valid)
    (he : e.Names fun _ _ => False)
    (h : b.Answers p ⟨.expressionLineage, .expr e⟩ (.ok (some (.exprs exprs)))) :
    ∀ l ∈ exprs, l.Names (b.Locates p) := by
  induction p using Plan.inputInduction generalizing e exprs with
  | node p ih =>
    have hinput {child : Plan} (hchild : child ∈ p.children) {e : Expr} {exprs : List Expr}
        (he : e.Names fun _ _ => False)
        (h : b.Answers child ⟨.expressionLineage, .expr e⟩ (.ok (some (.exprs exprs)))) :
        ∀ l ∈ exprs, l.Names (b.Locates p) :=
      fun l hl => names_above hchild (ih child hchild (hvalid.child hchild) he h l hl)
    cases lineages_of_answers hrules h with
    | scan hoccurrence htraced hg =>
      refine List.forall_mem_singleton.2 (Expr.Names.substitute ?_ htraced fun i t d hd => ?_)
      · exact he.mono fun _ _ => False.elim
      · obtain ⟨hi, rfl⟩ := hg i t d hd
        exact Expr.names_tableColumn ⟨_, Plan.scanned_scan.2 ⟨hoccurrence, rfl⟩, hi⟩
    | filter hbelow | sort hbelow | exchange hbelow => exact hinput List.mem_cons_self he hbelow
    | @project _ _ columns _ _ _ _ hpushed hg hbelow =>
      refine hinput List.mem_cons_self (he.substitute hpushed fun i t d hd => ?_) hbelow
      obtain ⟨c, hc, rfl⟩ := hg i t d hd
      have hmem := List.mem_map_of_mem (f := Projection.expr) (List.mem_of_getElem? hc)
      exact Expr.names_of_validate (Plan.validate_of_check hvalid.check _ hmem)
    | aggregate hpushed hg hbelow =>
      refine hinput List.mem_cons_self (he.substitute hpushed fun i t d hd => ?_) hbelow
      obtain ⟨c, -, rfl⟩ := hg i t d hd
      exact Expr.names_column c t
    | join _ hchosen =>
      intro l hl
      obtain ⟨g, hg, hoptions⟩ := hchosen l hl
      refine (he.mono fun _ _ => False.elim).substitute hg fun i t d hd => ?_
      obtain ⟨input, hmem, own, t', options, hanswers, hd⟩ := hoptions i t d hd
      exact hinput hmem (Expr.names_column own t') hanswers d hd
    | union hlists =>
      intro l hl
      obtain ⟨list, hlist, hl⟩ := List.mem_flatten.1 (List.mem_eraseDups.1 hl)
      obtain ⟨child, hchild, hanswers⟩ := forall₂_exists_mem hlists hlist
      exact hinput hchild he hanswers l hl

def TablesKnown (b : Basis Q) (p : Plan) : Prop :=
  ∃ tables, b.Answers p ⟨.tableReferences, .none⟩ (.ok (some (.tables tables))) ∧
    ∀ o, o ∈ tables ↔ ∃ shape, p.Scanned b.setting.occurrence? o shape

theorem tablesKnown_of_inputs (hrules : b.rules = .builtin) (hp : p.table? = none)
    (hrule : RuleTable.builtin.lookup p.kind .tableReferences =
      some (TableReferences.ofInputs : Rule Q))
    (hinputs : ∀ child ∈ p.children, b.TablesKnown child) : b.TablesKnown p := by
  choose! tables hanswers hmem using hinputs
  have hlists : List.Forall₂ (fun child found => ∀ i, b.node? p (.input i) = some child →
      b.Gives p (tableReferences (.input i)) (.ok (some found))) p.children
      (p.children.map tables) := by
    refine List.forall₂_map_right_iff.2 (List.forall₂_same.2 fun child hchild i hs => ?_)
    exact gives_tableReferences.2 ⟨child, hs, hanswers child hchild⟩
  refine ⟨_, answers_of_builtin hrules hrule (gives_report.2 ⟨_, gives_inputs_ok hlists, rfl⟩),
    fun o => ?_⟩
  simp only [mem_mergeAll, List.not_mem_nil, false_or, List.mem_map,
    exists_exists_and_eq_and, Plan.scanned_iff_inputs hp]
  constructor
  · rintro ⟨child, hchild, ho⟩
    obtain ⟨shape, hscanned⟩ := (hmem child hchild o).1 ho
    exact ⟨shape, child, hchild, hscanned⟩
  · rintro ⟨shape, child, hchild, hscanned⟩
    exact ⟨child, hchild, (hmem child hchild o).2 ⟨shape, hscanned⟩⟩

theorem tablesKnown (hrules : b.rules = .builtin)
    (hscans : ∀ id table shape notes, .scan id table shape notes ∈ p.nodes →
      ∃ o, b.setting.occurrence? id = some o) : b.TablesKnown p := by
  induction p using Plan.inputInduction with
  | node p ih =>
    have hinputs : ∀ child ∈ p.children, b.TablesKnown child := fun child hchild =>
      ih child hchild fun id table shape notes hscan => hscans id table shape notes
        (Plan.mem_nodes_trans (Plan.mem_nodes_of_mem_children hchild) hscan)
    cases p with
    | scan id table shape notes =>
      obtain ⟨o, ho⟩ := hscans id table shape notes (Plan.self_mem_nodes _)
      refine ⟨[o], answers_of_builtin hrules rfl ?_, fun other => ?_⟩
      · simp only [TableReferences.ofScan, Plan.id, ho]
        exact gives_known.2 rfl
      · simp [Plan.scanned_scan, ho, eq_comm]
    | values =>
      refine ⟨[], answers_of_builtin hrules rfl (gives_known.2 rfl), fun o => ?_⟩
      refine iff_of_false List.not_mem_nil ?_
      rintro ⟨shape, hscanned⟩
      obtain ⟨child, hchild, -⟩ := (Plan.scanned_iff_inputs rfl).1 hscanned
      cases hchild
    | setOp _ op => cases op <;> exact tablesKnown_of_inputs hrules rfl rfl hinputs
    | _ => exact tablesKnown_of_inputs hrules rfl rfl hinputs

end Basis

namespace Query
open Metadata.Basis
variable {Q : Type} [Quantity Q] {root node : Plan} {fresh q : Query Q}

/-- Scans are numbered per table in the order of the nodes, no two alike. Whatever was asked before,
the tables of a node are the occurrences of the scans below it, and every column of a table in an
answer about the node's lineage is a column of such a scan. -/
theorem occurrences_consistent {α : Type} {source : TableSource Q} {scanRows : Q} {splits : Nat}
    {caching : Bool} {earlier : List (Plan × Inquiry Q α)} {outcomes : List (Except Error α)}
    (hfresh : ofPlan root .builtin source scanRows splits caching = .ok fresh)
    (hearlier : ∀ r ∈ earlier, r.1 ∈ root.nodes)
    (hserve : fresh.serve earlier = some (outcomes, q)) (hvalid : root.Valid)
    (hnode : node ∈ root.nodes) :
    (∀ before scan after t, root.nodes = before ++ scan :: after → scan.table? = some t →
      q.setting.occurrence? scan.id =
        some ⟨t.qualifiedName, (Plan.scannedTables before).count t.qualifiedName⟩) ∧
    (∀ scan ∈ root.nodes, ∀ other ∈ root.nodes, ∀ t t', scan.table? = some t →
      other.table? = some t' →
      q.setting.occurrence? scan.id = q.setting.occurrence? other.id → scan = other) ∧
    ∃ tables, (∃ q', q.inquire node (tableReferences .self) = some (.ok (some tables), q')) ∧
      (∀ o, o ∈ tables ↔ ∃ shape, node.Scanned q.setting.occurrence? o shape) ∧
      (∀ c origins q',
        q.inquire node (columnOrigins .self c) = some (.ok (some origins), q') →
        ∀ o ∈ origins, o.table ∈ tables ∧
          node.ScannedColumn q.setting.occurrence? o.table o.column) ∧
      ∀ e exprs q', (∀ o c t, .tableColumn o c t ∉ e.parts) →
        q.inquire node (expressionLineage .self e) = some (.ok (some exprs), q') →
        ∀ l ∈ exprs, ∀ o c t, .tableColumn o c t ∈ l.parts →
          o ∈ tables ∧ node.ScannedColumn q.setting.occurrence? o c := by
  obtain ⟨hbasis, ids, hmemo⟩ := serve_fresh hfresh hearlier hserve
  have hrules : q.rules = .builtin := by rw [hbasis]
  have hroot : q.root = root := by rw [hbasis]
  have hoccurrence : q.setting.occurrence? = (root.occurrences.lookup ·) := by rw [hbasis]
  have hmem : node ∈ q.root.nodes := hroot ▸ hnode
  rw [hroot] at ids
  have hscans : ∀ id table shape notes, .scan id table shape notes ∈ node.nodes →
      ∃ o, q.setting.occurrence? id = some o := by
    intro id table shape notes hscan
    rw [hoccurrence]
    exact Plan.exists_occurrence ids (Plan.mem_nodes_trans hnode hscan) rfl
  obtain ⟨tables, hanswers, htables⟩ := tablesKnown hrules hscans
  have hlocated {o : TableOccurrence} {c : Nat}
      (h : node.ScannedColumn q.setting.occurrence? o c) :
      o ∈ tables ∧ node.ScannedColumn q.setting.occurrence? o c :=
    ⟨(htables o).2 h.scanned, h⟩
  refine ⟨?_, ?_, tables, ?_, htables, ?_, ?_⟩
  · intro before scan after t hnodes ht
    rw [hoccurrence]
    exact Plan.lookup_occurrences ids hnodes ht
  · intro scan hscan other hother t t' ht ht' hsame
    rw [hoccurrence] at hsame
    exact Plan.occurrences_injective ids hscan hother ht ht' hsame
  · exact inquire_of_gives (hroot ▸ ids) hmemo hmem (gives_tableReferences.2 ⟨node, rfl, hanswers⟩)
  · intro c origins q' hinquire o ho
    obtain ⟨-, -, hgives⟩ := inquire_sound (hroot ▸ ids) hmemo hmem hinquire
    obtain ⟨other, hother, hanswers⟩ := gives_columnOrigins.1 hgives
    obtain rfl : node = other := Option.some.inj hother
    exact hlocated (located_of_answers hrules hanswers o ho)
  · intro e exprs q' he hinquire l hl o c t hpart
    obtain ⟨-, -, hgives⟩ := inquire_sound (hroot ▸ ids) hmemo hmem hinquire
    have hnames :=
      names_of_answers hrules (hvalid.of_mem_nodes hnode) he (answers_input rfl hgives) l hl
    exact hlocated (hnames o c t hpart)

theorem occurrences_consistent_twice :
    let table : TableRef := ⟨7, "main", "orders"⟩
    let shape : Schema := [⟨"id", .int64 false, {}⟩, ⟨"customer", .int64 false, {}⟩]
    let source : TableSource Binary64 :=
      ⟨fun _ => .error (.planning (.unknownTableId 7)), fun _ => .ok none⟩
    let first : Plan := .scan 0 table shape
    let second : Plan := .scan 1 table shape
    let p : Plan := .join 2 first second (.literal (.boolean true) (.boolean false)) .inner
    let again : TableOccurrence := ⟨"main.orders", 1⟩
    ∃ fresh q', ofPlan p .builtin source Quantity.one 1 true = .ok fresh ∧ p.Valid ∧
      fresh.setting.occurrence? first.id = some ⟨"main.orders", 0⟩ ∧
      fresh.setting.occurrence? second.id = some again ∧
      fresh.inquire p (columnOrigins .self 3) = some (.ok (some [⟨again, 1, false⟩]), q') ∧
      p.ScannedColumn fresh.setting.occurrence? again 1 ∧
      ∃ tables q', fresh.inquire p (tableReferences .self) = some (.ok (some tables), q') ∧
        again ∈ tables := by
  intro table shape source first second p again
  obtain ⟨fresh, hfresh⟩ : ∃ fresh : Query Binary64,
      ofPlan p .builtin source Quantity.one 1 true = .ok fresh := ⟨_, rfl⟩
  have hnode : p ∈ p.nodes := Plan.self_mem_nodes p
  have hserve : fresh.serve ([] : List (Plan × Inquiry Binary64 Unit)) = some ([], fresh) := rfl
  have hscan : ∀ id, (Plan.scan id table shape).Valid := fun id =>
    .node rfl fun _ hc => absurd hc List.not_mem_nil
  have hvalid : p.Valid :=
    .node rfl (List.forall_mem_cons.2 ⟨hscan 0, List.forall_mem_singleton.2 (hscan 1)⟩)
  have hgives : fresh.Gives p (columnOrigins .self 3) (.ok (some [⟨again, 1, false⟩])) := by
    obtain ⟨-, rfl⟩ := ofPlan_eq_ok hfresh
    refine gives_columnOrigins.2 ⟨p, rfl, answers_some.2 ⟨_, rfl, ?_⟩⟩
    refine gives_report.2 ⟨[⟨again, 1, false⟩], ?_, rfl⟩
    refine gives_columnOrigins.2 ⟨second, rfl, answers_some.2 ⟨_, rfl, ?_⟩⟩
    exact gives_known.2 rfl
  obtain ⟨q', hinquire⟩ := inquire_fresh hfresh hnode hgives
  obtain ⟨hnumber, -, tables, ⟨q'', htables⟩, -, horigins, -⟩ :=
    occurrences_consistent hfresh (by simp) hserve hvalid hnode
  obtain ⟨hmem, hcolumn⟩ := horigins 3 _ q' hinquire _ (List.mem_singleton_self _)
  exact ⟨fresh, q', hfresh, hvalid, hnumber [p] first [second] table rfl rfl,
    hnumber [p, first] second [] table rfl rfl, hinquire, hcolumn, tables, q'', htables, hmem⟩

end Query
end Metadata
end Relational
