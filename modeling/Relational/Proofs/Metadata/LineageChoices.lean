import Relational.Proofs.Metadata.LineageAgreement

/-!
# Lineages over a join

An expression over a join has one lineage for each way of replacing the columns that it reads by
lineages that they have in the inputs, and is unknown where there are more than are allowed. The
ways are counted in a machine word before they are compared with what is allowed, however, so that
as many as a word has values are no unknown answer but an overflow.
-/
namespace Relational.Metadata

namespace Lineage

theorem map_some_filterMap {α β : Type} {f : α → Option β} {l : List α}
    (h : ∀ x ∈ l, (f x).isSome) : (l.filterMap f).map some = l.map f := by
  induction l with
  | nil => rfl
  | cons x rest ih =>
    obtain ⟨hfirst, hrest⟩ := List.forall_mem_cons.1 h
    obtain ⟨y, hy⟩ := Option.isSome_iff_exists.1 hfirst
    simp [hy, ih hrest]

theorem replace_choice_isSome {columns : List (Nat × List Expr)} {e : Expr}
    (hsome : ∀ column ∈ columns, column.2 ≠ [])
    (hread : ∀ r ∈ e.readings, ∃ options, columns.lookup r.1 = some options) (n : Nat) :
    (replace e fun c _ => (choice n columns).lookup c).isSome := by
  refine Option.isSome_iff_exists.2 (exists_replace fun r hr => ?_)
  obtain ⟨options, hoptions⟩ := hread r hr
  obtain ⟨x, -, hx⟩ := exists_lookup_choice hsome hoptions
  exact ⟨x, hx⟩

end Lineage

namespace Basis
open Lineage Inquiry
variable {Q : Type} {b : Basis Q} {left right : Plan} {e condition : Expr} {id : Nat}
  {type : JoinType} {columns : List (Nat × List Expr)}

theorem mem_nodes_sideOf (c : Nat) :
    (sideOf left right c).1 ∈ (Plan.join id left right condition type).nodes :=
  Plan.mem_nodes_of_mem_children (sideOf_mem c)

def choicesAnswer (e : Expr) (columns : List (Nat × List Expr)) (count : Nat) :
    Option (List Expr) :=
  if mostExpressions < count then none
  else some ((List.range count).filterMap fun n =>
    replace e fun c _ => (choice n columns).lookup c)

def choicesOutcome (e : Expr) (columns : List (Nat × List Expr)) :
    Except Error (Option (List Expr)) :=
  (choiceCount columns).map (choicesAnswer e columns)

theorem answers_lineage_join [Quantity Q] (hrules : b.rules = .builtin)
    (h : List.Forall₂ (b.ColumnLineages left right) (typedColumns e) columns) :
    b.Answers (.join id left right condition type) ⟨.expressionLineage, .expr e⟩
      ((choicesOutcome e columns).map (·.map .exprs)) := by
  unfold Answers
  rw [inquiry_of_builtin hrules rfl]
  refine gives_bind_iff.2 (.inl ⟨some columns, gives_perColumn.2 h, ?_⟩)
  unfold choicesOutcome
  cases hcount : choiceCount columns with
  | error error => exact gives_bind_iff.2 (.inr ⟨error, gives_ofExcept.2 hcount.symm, rfl⟩)
  | ok count =>
    refine gives_bind.2 ⟨count, gives_ofExcept.2 hcount.symm, ?_⟩
    simp only [choicesAnswer]
    split
    · exact gives_unknown.2 rfl
    · exact gives_known.2 rfl

theorem gives_lineage_join [Quantity Q] (hrules : b.rules = .builtin)
    (h : List.Forall₂ (b.ColumnLineages left right) (typedColumns e) columns) :
    b.Gives (.join id left right condition type) (expressionLineage .self e)
      (choicesOutcome e columns) := by
  have hanswers : b.Answers (.join id left right condition type) ⟨.expressionLineage, .expr e⟩
      ((choicesOutcome e columns).map (·.map .exprs)) := answers_lineage_join hrules h
  cases houtcome : choicesOutcome e columns with
  | ok found =>
    rw [houtcome] at hanswers
    refine gives_bind.2 ⟨found.map .exprs, .asked rfl hanswers (.done _), gives_pure.2 ?_⟩
    cases found <;> rfl
  | error error =>
    obtain rfl : error = .overflow := by
      cases hcount : choiceCount columns with
      | ok count => simp [choicesOutcome, hcount, Except.map] at houtcome
      | error error' =>
        cases choiceCount_error hcount
        simpa [choicesOutcome, hcount, Except.map, eq_comm] using houtcome
    rw [houtcome] at hanswers
    exact gives_bind_iff.2 (.inr ⟨_, .asked rfl hanswers (.fail _), rfl⟩)

theorem answers_union_scans [Quantity Q] (hrules : b.rules = .builtin) {i j : Nat}
    {table : TableRef} {shape : Schema} {first again : TableOccurrence} {c : Nat} {t : SqlType}
    (hfirst : b.setting.occurrence? i = some first) (hagain : b.setting.occurrence? j = some again)
    (hne : first ≠ again) (hc : c < shape.length) :
    b.Answers (.setOp id .union [.scan i table shape, .scan j table shape] true)
      ⟨.expressionLineage, .expr (.column c t)⟩
      (.ok (some (.exprs [.tableColumn first c t, .tableColumn again c t]))) := by
  have hscan {k : Nat} {o : TableOccurrence} (ho : b.setting.occurrence? k = some o) :
      b.Answers (.scan k table shape) ⟨.expressionLineage, .expr (.column c t)⟩
        (.ok (some (.exprs [.tableColumn o c t]))) := by
    refine answers_of_builtin hrules rfl ?_
    have hwidth : c < (Plan.scan k table shape).width := hc
    have htraced : replace (.column c t) (fun c t => if c < (Plan.scan k table shape).width then
        some (.tableColumn o c t) else none) = some (.tableColumn o c t) := by
      simp only [replace, Expr.substitute, if_pos hwidth]
      rfl
    simp only [Lineage.ofScan, Plan.id, ho, htraced]
    exact gives_known.2 rfl
  have hlists : b.Gives (.setOp id .union [.scan i table shape, .scan j table shape] true)
      (forInputs (fun s => expressionLineage s (.column c t)) 2)
      (.ok (some [[.tableColumn first c t], [.tableColumn again c t]])) := by
    refine gives_inputs_ok (.cons (fun k hs => ?_) (.cons (fun k hs => ?_) .nil))
    · exact gives_expressionLineage.2 ⟨_, hs, hscan hfirst⟩
    · exact gives_expressionLineage.2 ⟨_, hs, hscan hagain⟩
  refine answers_of_builtin hrules rfl (gives_bind.2 ⟨_, hlists, ?_⟩)
  have hboth : [Expr.tableColumn first c t, .tableColumn again c t].eraseDups =
      [.tableColumn first c t, .tableColumn again c t] := by
    simp [List.eraseDups_cons, hne.symm]
  simp only [List.flatten_cons, List.flatten_nil, List.append_nil, List.singleton_append, hboth]
  exact gives_known.2 rfl

theorem columnLineages_union_scans [Quantity Q] (hrules : b.rules = .builtin) {i j : Nat}
    {table : TableRef} {shape : Schema} {first again : TableOccurrence}
    (hfirst : b.setting.occurrence? i = some first) (hagain : b.setting.occurrence? j = some again)
    (hne : first ≠ again) {typed : List (Nat × SqlType)} (hread : ∀ r ∈ typed, r.1 < shape.length) :
    List.Forall₂
      (b.ColumnLineages (.setOp id .union [.scan i table shape, .scan j table shape] true) right)
      typed
      (typed.map fun r => (r.1, [.tableColumn first r.1 r.2, .tableColumn again r.1 r.2])) := by
  refine List.forall₂_map_right_iff.2 (List.forall₂_same.2 fun r hr => ?_)
  refine ⟨rfl, List.cons_ne_nil _ _, ?_⟩
  have hwidth : (Plan.setOp id .union [.scan i table shape, .scan j table shape] true).width =
      shape.length := by
    simp [Plan.width, Plan.schema, Plan.schemas, Plan.setOpSchema]
  have hside : sideOf (.setOp id .union [.scan i table shape, .scan j table shape] true) right r.1 =
      (.setOp id .union [.scan i table shape, .scan j table shape] true, r.1) :=
    if_pos (hwidth ▸ hread r hr)
  rw [hside]
  exact answers_union_scans hrules hfirst hagain hne (hread r hr)

theorem choicesOutcome_of_le (hsome : ∀ column ∈ columns, column.2 ≠ [])
    (hways : Integer.wordCount ≤ ways columns) : choicesOutcome e columns = .error .overflow := by
  rw [choicesOutcome, choiceCount_eq hsome, wordSized_of_le hways]
  rfl

/-- Two lineages each of as many columns as a word has bits are too many. -/
theorem gives_union_scans_overflow [Quantity Q] (hrules : b.rules = .builtin) {i j k : Nat}
    {table : TableRef} {shape : Schema} {first again : TableOccurrence}
    (hfirst : b.setting.occurrence? i = some first) (hagain : b.setting.occurrence? j = some again)
    (hne : first ≠ again) (hread : ∀ r ∈ typedColumns e, r.1 < shape.length)
    (hmany : 64 ≤ (typedColumns e).length) :
    b.Gives (.join id (.setOp k .union [.scan i table shape, .scan j table shape] true) right
      condition type) (expressionLineage .self e) (.error .overflow) := by
  have hlineages : List.Forall₂ (b.ColumnLineages
      (.setOp k .union [.scan i table shape, .scan j table shape] true) right) _ _ :=
    columnLineages_union_scans hrules hfirst hagain hne hread
  have hways : Integer.wordCount ≤ ways ((typedColumns e).map fun r =>
      (r.1, [Expr.tableColumn first r.1 r.2, .tableColumn again r.1 r.2])) := by
    have htwo : ∀ typed : List (Nat × SqlType), ways (typed.map fun r =>
        (r.1, [Expr.tableColumn first r.1 r.2, .tableColumn again r.1 r.2])) =
          2 ^ typed.length := by
      simp [ways, Function.comp_def]
    rw [htwo]
    exact Nat.pow_le_pow_right Nat.two_pos hmany
  rw [← choicesOutcome_of_le (ne_nil_of_columnLineages hlineages) hways]
  exact gives_lineage_join hrules hlineages

theorem choicesAnswer_ways
    (h : List.Forall₂ (b.ColumnLineages left right) (typedColumns e) columns) :
    (mostExpressions < ways columns → choicesAnswer e columns (ways columns) = none) ∧
    (ways columns ≤ mostExpressions →
      ∃ exprs, choicesAnswer e columns (ways columns) = some exprs ∧
        exprs.map some = (assignments columns).map
          fun chosen => replace e fun c _ => chosen.lookup c) := by
  have hsome := ne_nil_of_columnLineages h
  have hread : ∀ r ∈ e.readings, ∃ options, columns.lookup r.1 = some options := by
    intro r hr
    obtain ⟨-, options, -, hoptions, -⟩ := exists_columnLineages h hr
    exact ⟨options, hoptions⟩
  refine ⟨fun hmany => if_pos hmany, fun hfew => ⟨_, if_neg (Nat.not_lt.2 hfew), ?_⟩⟩
  rw [map_some_filterMap fun n _ => replace_choice_isSome hsome hread n, ← map_choice_range hsome,
    List.map_map]
  rfl

end Basis

namespace Query
open Metadata.Basis Lineage
variable {Q : Type} [Quantity Q] {root left right : Plan} {fresh q : Query Q} {e condition : Expr}
  {id : Nat} {type : JoinType} {columns : List (Nat × List Expr)}

/-- Whatever was asked before, an expression over a join, whose columns have lineages in the
inputs, has one lineage for each way of choosing among these, if there are at most
`mostExpressions`, and else none that is known; but from as many on as a word has values the request
ends in an overflow. -/
theorem join_lineage_choices {α : Type} {source : TableSource Q} {scanRows : Q} {splits : Nat}
    {caching : Bool} {earlier : List (Plan × Inquiry Q α)} {outcomes : List (Except Error α)}
    (hfresh : ofPlan root .builtin source scanRows splits caching = .ok fresh)
    (hearlier : ∀ r ∈ earlier, r.1 ∈ root.nodes)
    (hserve : fresh.serve earlier = some (outcomes, q))
    (hnode : .join id left right condition type ∈ root.nodes)
    (hcolumns : List.Forall₂ (fun r column => column.1 = r.1 ∧ column.2 ≠ [] ∧
      ∃ q', q.inquire (sideOf left right r.1).1
        (expressionLineage .self (.column (sideOf left right r.1).2 r.2)) =
          some (.ok (some column.2), q')) (typedColumns e) columns) :
    ∃ outcome q', q.inquire (.join id left right condition type) (expressionLineage .self e) =
        some (outcome, q') ∧
      (ways columns ≤ mostExpressions → ∃ exprs, outcome = .ok (some exprs) ∧
        exprs.length = ways columns ∧
        exprs.map some = (assignments columns).map fun chosen =>
          replace e fun c _ => chosen.lookup c) ∧
      (mostExpressions < ways columns → ways columns < Integer.wordCount → outcome = .ok none) ∧
      (Integer.wordCount ≤ ways columns → outcome = .error .overflow) := by
  obtain ⟨hbasis, ids, hmemo⟩ := serve_fresh hfresh hearlier hserve
  have hrules : q.rules = .builtin := by rw [hbasis]
  have hmem : .join id left right condition type ∈ q.root.nodes := by rw [hbasis]; exact hnode
  have hlineages : List.Forall₂ (q.ColumnLineages left right) (typedColumns e) columns := by
    refine hcolumns.imp fun r column hcolumn => ?_
    obtain ⟨hsame, hne, q', hinquire⟩ := hcolumn
    have hside : (sideOf left right r.1).1 ∈ q.root.nodes :=
      Plan.mem_nodes_trans hmem (mem_nodes_sideOf r.1)
    obtain ⟨-, -, hgives⟩ := inquire_sound ids hmemo hside hinquire
    exact ⟨hsame, hne, answers_input rfl hgives⟩
  have hsome := ne_nil_of_columnLineages hlineages
  obtain ⟨q', hinquire⟩ : ∃ q', q.inquire (.join id left right condition type)
      (expressionLineage .self e) = some (choicesOutcome e columns, q') :=
    inquire_of_gives ids hmemo hmem (gives_lineage_join hrules hlineages)
  obtain ⟨hmany, hfew⟩ := choicesAnswer_ways hlineages
  have hfit (h : ways columns < Integer.wordCount) :
      choicesOutcome e columns = .ok (choicesAnswer e columns (ways columns)) := by
    rw [choicesOutcome, choiceCount_eq hsome, wordSized_of_lt h]
    rfl
  have hword : mostExpressions < Integer.wordCount := by decide
  refine ⟨_, q', hinquire, ?_, ?_, ?_⟩
  · intro hways
    obtain ⟨exprs, hexprs, hmap⟩ := hfew hways
    refine ⟨exprs, by rw [hfit (Nat.lt_of_le_of_lt hways hword), hexprs], ?_, hmap⟩
    simpa [length_assignments hsome] using congrArg List.length hmap
  · intro hways hlt
    rw [hfit hlt, hmany hways]
  · exact choicesOutcome_of_le hsome

theorem join_lineage_choices_sum :
    let table : TableRef := ⟨7, "main", "orders"⟩
    let shape : Schema := [⟨"id", .int64 false, {}⟩]
    let source : TableSource Binary64 :=
      ⟨fun _ => .error (.planning (.unknownTableId 7)), fun _ => .ok none⟩
    let left : Plan := .setOp 2 .union [.scan 0 table shape, .scan 1 table shape] true
    let right : Plan := .scan 3 table shape
    let p : Plan := .join 4 left right (.literal (.boolean true) (.boolean false)) .inner
    let sum (a b : Expr) : Expr := .call (.arith .plus) [a, b] (.int64 false)
    let e : Expr := sum (.column 0 (.int64 false)) (.column 1 (.int64 false))
    let id (number : Nat) : Expr := .tableColumn ⟨"main.orders", number⟩ 0 (.int64 false)
    let columns : List (Nat × List Expr) := [(0, [id 0, id 1]), (1, [id 2])]
    ∃ fresh q', ofPlan p .builtin source Quantity.one 1 true = .ok fresh ∧ p.Valid ∧
      List.Forall₂ (fun r column => column.1 = r.1 ∧ column.2 ≠ [] ∧
        ∃ q', fresh.inquire (sideOf left right r.1).1
          (expressionLineage .self (.column (sideOf left right r.1).2 r.2)) =
            some (.ok (some column.2), q')) (typedColumns e) columns ∧
      ways columns = 2 ∧
      fresh.inquire p (expressionLineage .self e) =
        some (.ok (some [sum (id 0) (id 2), sum (id 1) (id 2)]), q') := by
  intro table shape source left right p sum e id columns
  obtain ⟨fresh, hfresh⟩ : ∃ fresh : Query Binary64,
      ofPlan p .builtin source Quantity.one 1 true = .ok fresh := ⟨_, rfl⟩
  have hserve : fresh.serve ([] : List (Plan × Inquiry Binary64 Unit)) = some ([], fresh) := rfl
  have hvalid : p.Valid := by decide +kernel
  have hleft : fresh.Gives left (expressionLineage .self (.column 0 (.int64 false)))
      (.ok (some [id 0, id 1])) := by
    obtain ⟨-, rfl⟩ := ofPlan_eq_ok hfresh
    exact gives_expressionLineage.2
      ⟨left, rfl, answers_union_scans rfl rfl rfl (by decide) Nat.one_pos⟩
  have hright : fresh.Gives right (expressionLineage .self (.column 0 (.int64 false)))
      (.ok (some [id 2])) := by
    obtain ⟨-, rfl⟩ := ofPlan_eq_ok hfresh
    exact gives_expressionLineage.2 ⟨right, rfl, answers_some.2 ⟨_, rfl, gives_known.2 rfl⟩⟩
  have hmem : left ∈ p.nodes ∧ right ∈ p.nodes := by
    simp [p, left, right, Plan.nodes_eq_cons, Plan.children]
  obtain ⟨q₁, hinquire₁⟩ := inquire_fresh hfresh hmem.1 hleft
  obtain ⟨q₂, hinquire₂⟩ := inquire_fresh hfresh hmem.2 hright
  have htyped : typedColumns e = [(0, .int64 false), (1, .int64 false)] := rfl
  have hcolumns : List.Forall₂ (fun r column => column.1 = r.1 ∧ column.2 ≠ [] ∧
      ∃ q', fresh.inquire (sideOf left right r.1).1
        (expressionLineage .self (.column (sideOf left right r.1).2 r.2)) =
          some (.ok (some column.2), q')) (typedColumns e) columns := by
    rw [htyped]
    exact .cons ⟨rfl, List.cons_ne_nil _ _, q₁, hinquire₁⟩
      (.cons ⟨rfl, List.cons_ne_nil _ _, q₂, hinquire₂⟩ .nil)
  obtain ⟨outcome, q', hinquire, hfew, -, -⟩ :=
    join_lineage_choices hfresh (by simp) hserve (Plan.self_mem_nodes p) hcolumns
  obtain ⟨exprs, rfl, -, hmap⟩ := hfew (by decide)
  have hexprs : exprs = [sum (id 0) (id 2), sum (id 1) (id 2)] :=
    List.map_injective_iff.2 (Option.some_injective _) hmap
  rw [hexprs] at hinquire
  exact ⟨fresh, q', hfresh, hvalid, hcolumns, rfl, hinquire⟩

/-- Of 64 columns with two lineages each there are as many choices as a word has values. -/
theorem join_lineage_overflows :
    let table : TableRef := ⟨7, "main", "switches"⟩
    let flag : SqlType := .boolean true
    let shape : Schema := (List.range 64).map fun _ => ⟨"flag", flag, {}⟩
    let source : TableSource Binary64 :=
      ⟨fun _ => .error (.planning (.unknownTableId 7)), fun _ => .ok none⟩
    let left : Plan := .setOp 2 .union [.scan 0 table shape, .scan 1 table shape] true
    let right : Plan := .values 3 [] []
    let p : Plan := .join 4 left right (.literal (.boolean true) (.boolean false)) .inner
    let e : Expr := .call .and ((List.range 64).map (.column · flag)) flag
    let alternatives (c : Nat) : List Expr :=
      [.tableColumn ⟨"main.switches", 0⟩ c flag, .tableColumn ⟨"main.switches", 1⟩ c flag]
    let columns : List (Nat × List Expr) := (List.range 64).map fun c => (c, alternatives c)
    ∃ fresh q', ofPlan p .builtin source Quantity.one 1 true = .ok fresh ∧ p.Valid ∧
      List.Forall₂ (fun r column => column.1 = r.1 ∧ column.2 ≠ [] ∧
        ∃ q', fresh.inquire (sideOf left right r.1).1
          (expressionLineage .self (.column (sideOf left right r.1).2 r.2)) =
            some (.ok (some column.2), q')) (typedColumns e) columns ∧
      mostExpressions < ways columns ∧
      fresh.inquire p (expressionLineage .self e) = some (.error .overflow, q') := by
  intro table flag shape source left right p e alternatives columns
  obtain ⟨fresh, hfresh⟩ : ∃ fresh : Query Binary64,
      ofPlan p .builtin source Quantity.one 1 true = .ok fresh := ⟨_, rfl⟩
  have hvalid : p.Valid := by decide +kernel
  have htyped : typedColumns e = (List.range 64).map (·, flag) := by decide +kernel
  have hread : ∀ r ∈ typedColumns e, r.1 < shape.length := by
    rw [htyped]
    simp [shape]
  have hlineages : List.Forall₂ (fresh.ColumnLineages left right) (typedColumns e) columns := by
    have hall : List.Forall₂ (fresh.ColumnLineages left right) (typedColumns e)
        ((typedColumns e).map fun r => (r.1, [.tableColumn ⟨"main.switches", 0⟩ r.1 r.2,
          .tableColumn ⟨"main.switches", 1⟩ r.1 r.2])) := by
      obtain ⟨-, rfl⟩ := ofPlan_eq_ok hfresh
      exact columnLineages_union_scans rfl rfl rfl (by decide) hread
    rw [htyped] at hall ⊢
    simpa [columns, alternatives] using hall
  have hcolumns : List.Forall₂ (fun r column => column.1 = r.1 ∧ column.2 ≠ [] ∧
      ∃ q', fresh.inquire (sideOf left right r.1).1
        (expressionLineage .self (.column (sideOf left right r.1).2 r.2)) =
          some (.ok (some column.2), q')) (typedColumns e) columns := by
    refine hlineages.imp fun r column hcolumn => ?_
    obtain ⟨hsame, hne, hanswers⟩ := hcolumn
    exact ⟨hsame, hne,
      inquire_fresh hfresh (mem_nodes_sideOf r.1) (gives_expressionLineage.2 ⟨_, rfl, hanswers⟩)⟩
  have hgives : fresh.Gives p (expressionLineage .self e) (.error .overflow) := by
    obtain ⟨-, rfl⟩ := ofPlan_eq_ok hfresh
    exact gives_union_scans_overflow rfl rfl rfl (by decide) hread (by simp [htyped])
  obtain ⟨q', hinquire⟩ := inquire_fresh hfresh (Plan.self_mem_nodes p) hgives
  exact ⟨fresh, q', hfresh, hvalid, hcolumns, by decide +kernel, hinquire⟩

end Query
end Relational.Metadata
