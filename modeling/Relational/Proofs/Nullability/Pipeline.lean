import Relational.Proofs.Execution.Starting
import Relational.Proofs.Nullability.Grouping
import Relational.Proofs.Plan.Document
import Relational.Proofs.Typing.Pipeline

/-!
# Nulls of the pipeline

Over tables that respect the scans, every row that a node of a valid plan emits respects the schema
of the node: a column that is declared not null holds no null. This takes expressions in which
nothing that can be null is declared not null.
-/
namespace Relational.Plan
variable {p node : Plan} {registry : UserAggregate.Registry} {contents : Contents} {e : Emission}
  {row : Row}

structure Made (p : Plan) : Prop where
  exprs : ∀ node ∈ p.nodes, ∀ x ∈ node.exprs, x.Made
  calls : ∀ node ∈ p.nodes, ∀ c ∈ node.calls, c.Built node.inputRow

def Honest (p : Plan) : Prop :=
  ∀ node ∈ p.nodes, ∀ x ∈ node.exprs, ∀ part ∈ x.parts, part.Honest node.inputRow

def Supplies (contents : Contents) (p : Plan) : Prop :=
  ∀ id table shape notes, .scan id table shape notes ∈ p.nodes →
    ∀ row ∈ contents table, row.Respects shape

instance : DecidablePred Honest := fun p => inferInstanceAs (Decidable
  (∀ node ∈ p.nodes, ∀ x ∈ node.exprs, ∀ part ∈ x.parts, part.Honest node.inputRow))

theorem made_of_children (hexprs : ∀ x ∈ p.exprs, x.Made)
    (hcalls : ∀ c ∈ p.calls, c.Built p.inputRow) (hchildren : ∀ child ∈ p.children, child.Made) :
    p.Made := by
  have hnodes : ∀ node ∈ p.nodes, node = p ∨ ∃ child ∈ p.children, node ∈ child.nodes := by
    intro node hnode
    rw [nodes_eq_cons] at hnode
    exact (List.mem_cons.1 hnode).imp_right List.mem_flatMap.1
  constructor
  · intro node hnode
    rcases hnodes node hnode with rfl | ⟨child, hchild, hnode⟩
    · exact hexprs
    · exact (hchildren child hchild).exprs node hnode
  · intro node hnode
    rcases hnodes node hnode with rfl | ⟨child, hchild, hnode⟩
    · exact hcalls
    · exact (hchildren child hchild).calls node hnode

theorem Made.of_mem_nodes (h : p.Made) (hnode : node ∈ p.nodes) : node.Made where
  exprs inner hinner := h.exprs inner (mem_nodes_trans hnode hinner)
  calls inner hinner := h.calls inner (mem_nodes_trans hnode hinner)

theorem Honest.of_mem_nodes (h : p.Honest) (hnode : node ∈ p.nodes) : node.Honest :=
  fun inner hinner => h inner (mem_nodes_trans hnode hinner)

theorem Supplies.of_mem_nodes (h : Supplies contents p) (hnode : node ∈ p.nodes) :
    Supplies contents node := fun id table shape notes hscan =>
  h id table shape notes (mem_nodes_trans hnode hscan)

theorem respects_of_fits {v : Value} {f : Field} (h : fits v f = true) : v.Respects f.type := by
  refine ⟨conforms_of_fits h, ?_⟩
  rintro rfl
  exact h

theorem respects_merged {merged s : Schema} (h : SameTypes merged s)
    (hrow : row.Respects merged ∨ row.Respects s) :
    row.Respects (merged.zipWith (fun f g => nullableField g.type.nullable f) s) := by
  induction h generalizing row with
  | nil =>
    rcases hrow with hrow | hrow <;> cases hrow <;> exact .nil
  | @cons f g _ _ hfg _ ih =>
    rcases hrow with hrow | hrow
    · cases hrow with | cons hv hrest =>
      refine .cons ⟨hv.1, fun hnull => ?_⟩ (ih (.inl hrest))
      simp [nullableField, SqlType.withNullable, hv.2 hnull]
    · cases hrow with | cons hv hrest =>
      refine .cons ⟨hfg ▸ hv.1, fun hnull => ?_⟩ (ih (.inr hrest))
      simp [nullableField, SqlType.withNullable, hv.2 hnull]

theorem respects_foldl {base merged : Schema} {rest : List Schema} (hmerged : SameTypes merged base)
    (hrest : ∀ s ∈ rest, SameTypes base s)
    (hrow : row.Respects merged ∨ ∃ s ∈ rest, row.Respects s) :
    row.Respects (rest.foldl (fun merged s =>
      merged.zipWith (fun f g => nullableField g.type.nullable f) s) merged) := by
  -- on the inputs still to be merged, over whatever was merged before
  induction rest generalizing merged with
  | nil => simpa using hrow
  | cons s rest ih =>
    obtain ⟨hs, hrest⟩ := List.forall_mem_cons.1 hrest
    have hboth := hmerged.trans hs
    refine ih (sameTypes_nullable hmerged hs) hrest ?_
    rcases hrow with hrow | ⟨s', hs', hrow⟩
    · exact .inl (respects_merged hboth (.inl hrow))
    · rcases List.mem_cons.1 hs' with rfl | hs'
      · exact .inl (respects_merged hboth (.inr hrow))
      · exact .inr ⟨s', hs', hrow⟩

theorem respects_setOpSchema {k : Kind} {inputs : List Schema} (h : checkSetOp k inputs = .ok ())
    {s : Schema} (hs : s ∈ inputs) (hrow : row.Respects s) : row.Respects (setOpSchema inputs) := by
  cases inputs with
  | nil => cases h
  | cons base rest =>
    refine respects_foldl (List.forall₂_same.2 fun _ _ => rfl) (sameTypes_of_checkSetOp_cons h) ?_
    rcases List.mem_cons.1 hs with rfl | hs
    · exact .inl hrow
    · exact .inr ⟨s, hs, hrow⟩

theorem inputRow_eq {input : Plan} (h : p.children = [input]) : p.inputRow = input.schema := by
  rw [inputRow, h, List.flatMap_singleton]

theorem respects_project {id : Nat} {input : Plan} {columns : List Projection} {source : Row}
    {codes : List Compiled} (valid : (Plan.project id input columns).Valid)
    (made : (Plan.project id input columns).Made)
    (honest : (Plan.project id input columns).Honest) (hsource : source.Respects input.schema)
    (hcodes : List.Forall₂ (fun column code => column.expr.compile input.schema = .ok code)
      columns codes) (hrow : List.Forall₂ (fun c v => c.eval source = .ok v) codes row) :
    row.Respects (Plan.project id input columns).schema := by
  have hself := self_mem_nodes (Plan.project id input columns)
  have hinput : (Plan.project id input columns).inputRow = input.schema := inputRow_eq rfl
  refine List.forall₂_map_right_iff.2 (List.Forall₂.flip ?_)
  refine forall₂_imp_of_mem (forall₂_comp.1 ⟨codes, hcodes, hrow⟩) ?_
  rintro column hcolumn v ⟨code, hcode, hv⟩
  have hexpr : column.expr ∈ (Plan.project id input columns).exprs := List.mem_map_of_mem hcolumn
  have hvalid := validate_of_check valid.check _ hexpr
  have hhonest := honest _ hself _ hexpr
  rw [hinput] at hvalid hhonest
  exact (made.exprs _ hself _ hexpr).respects hvalid hhonest hsource
    (by rw [Expr.evaluate_of_compile hcode, hv])

theorem respects_aggregate {id : Nat} {input : Plan} {sets : List ColumnSet}
    {calls : List AggregateCall} {indicator : Bool}
    (valid : (Plan.aggregate id input sets calls indicator).Valid)
    (made : (Plan.aggregate id input sets calls indicator).Made)
    (hinput : ∀ source, input.start registry contents = .ok source →
      ∀ row ∈ source.rows, row.Respects input.schema)
    (h : (Plan.aggregate id input sets calls indicator).start registry contents = .ok e)
    (hrow : row ∈ e.rows) :
    row.Respects (Plan.aggregate id input sets calls indicator).schema := by
  obtain ⟨source, plans, hsource, hplans, rfl⟩ := start_aggregate_eq_ok h
  have built : ∀ c ∈ calls, c.Built input.schema := by
    have hcalls := made.calls _ (self_mem_nodes _)
    rw [inputRow_eq rfl] at hcalls
    exact hcalls
  have hchecks := checkCall_of_checkAggregate valid.check
  obtain ⟨plans', hplans', hstarts⟩ := starts_of_built built hchecks registry
  obtain rfl : plans' = plans := Except.ok.inj (hplans'.symm.trans hplans)
  exact ExecUnit.respects_of_mem_aggregated built hplans hstarts
    (fun c => lt_of_checkAggregate valid.check) (hinput source hsource) hrow

theorem respects_schema (valid : p.Valid) (made : p.Made) (honest : p.Honest)
    (supplies : Supplies contents p) (h : p.start registry contents = .ok e)
    (hrow : row ∈ e.rows) : row.Respects p.schema := by
  induction p using inputInduction generalizing e row with
  | node p ih =>
    have below {child : Plan} (hchild : child ∈ p.children) {source : Emission} {row : Row}
        (hstart : child.start registry contents = .ok source) (hrow : row ∈ source.rows) :
        row.Respects child.schema :=
      have hnode := mem_nodes_of_mem_children hchild
      ih child hchild (valid.child hchild) (made.of_mem_nodes hnode) (honest.of_mem_nodes hnode)
        (supplies.of_mem_nodes hnode) hstart hrow
    cases started_of_start h with
    | scan hwidth => exact supplies _ _ _ _ (self_mem_nodes _) row hrow
    | values => exact (fits_of_check valid.check row hrow).imp fun _ _ => respects_of_fits
    | @filter id input predicate source code hinput hcode =>
      obtain ⟨read, hread, part, hpart, hmem⟩ := Emission.mem_through hrow
      rcases ExecUnit.passing_eq_ok hpart with rfl | ⟨rfl, -⟩
      · exact absurd hmem List.not_mem_nil
      · obtain rfl := List.mem_singleton.1 hmem
        exact below List.mem_cons_self hinput hread
    | @project id input columns source codes hinput hcodes =>
      obtain ⟨read, hread, part, hpart, hmem⟩ := Emission.mem_through hrow
      obtain ⟨out, rfl, hout⟩ := ExecUnit.computing_eq_ok hpart
      obtain rfl := List.mem_singleton.1 hmem
      exact respects_project valid made honest (below List.mem_cons_self hinput hread) hcodes hout
    | @aggregate id input sets calls indicator source plans hinput =>
      exact respects_aggregate valid made
        (fun source hsource row hrow => below List.mem_cons_self hsource hrow) h hrow
    | @union id inputs es hinputs =>
      obtain ⟨source, hsource, hmem⟩ := Emission.mem_concat hrow
      obtain ⟨child, hchild, hstart⟩ := forall₂_exists_mem hinputs hsource
      have hschema : child.schema ∈ schemas inputs := by
        rw [schemas_eq_map]
        exact List.mem_map_of_mem hchild
      exact respects_setOpSchema valid.check hschema (below hchild hstart hmem)
    | @sort id input collation offset fetch source hinput =>
      obtain ⟨rows, hrows, hmem⟩ := Emission.mem_ofResult hrow
      rw [map_eq_pure_bind, bind_eq_ok] at hrows
      obtain ⟨read, hread, hrows⟩ := hrows
      cases hrows
      exact below List.mem_cons_self hinput
        (Emission.mem_of_mem_result hread (mem_of_mem_window_sort hmem))
    | @exchange id input distribution source hinput =>
      exact below List.mem_cons_self hinput hrow

/-- Over tables that respect the scans, no node emits a null in a column that its schema declares
not null, if no expression declares a nullable column, a null or a cast to null so itself. -/
theorem not_null_of_start (valid : p.Valid) (made : p.Made) (honest : p.Honest)
    (supplies : Supplies contents p) (hnode : node ∈ p.nodes)
    (h : node.start registry contents = .ok e) :
    ∀ row ∈ e.rows, ∀ (i : Nat) (f : Field), node.schema[i]? = some f → f.type.nullable = false →
      ∃ v, row[i]? = some v ∧ v ≠ .null := by
  intro row hrow i f hf hnull
  have hrespects : row.Respects node.schema :=
    respects_schema (valid.of_mem_nodes hnode) (made.of_mem_nodes hnode)
      (honest.of_mem_nodes hnode) (supplies.of_mem_nodes hnode) h hrow
  obtain ⟨v, hv, -, hnullable⟩ := hrespects.getElem hf
  refine ⟨v, hv, fun hvalue => ?_⟩
  rw [hnullable hvalue] at hnull
  cases hnull

theorem not_null_of_start_totals :
    let shape : Schema := [⟨"customer", .int64 false, {}⟩, ⟨"amount", .int64 true, {}⟩]
    let orders : Plan := .scan 1 ⟨7, "main", "orders"⟩ shape
    let amount : Expr :=
      .call .coalesce [.column 1 (.int64 true), .literal (.int64 0) (.int64 false)] (.int64 false)
    let filled : Plan :=
      .project 2 orders [⟨.column 0 (.int64 false), "customer"⟩, ⟨amount, "amount"⟩]
    let p : Plan := .aggregate 3 filled [.ofList [0]]
      [⟨.count, [], none, "n", .int64 false⟩, ⟨.sum0, [1], none, "total", .int64 false⟩] false
    let contents : Contents := fun _ => [[.int64 1, .null], [.int64 1, .int64 5]]
    let e : Emission := ⟨[[.int64 1, .int64 2, .int64 5]], none⟩
    p.Valid ∧ p.Made ∧ p.Honest ∧ Supplies contents p ∧ p ∈ p.nodes ∧
      p.start {} contents = .ok e ∧
      ∀ row ∈ e.rows, ∀ (i : Nat) (f : Field), p.schema[i]? = some f → f.type.nullable = false →
        ∃ v, row[i]? = some v ∧ v ≠ .null := by
  intro shape orders amount filled p contents e
  have valid : p.Valid := by decide +kernel
  have honest : p.Honest := by decide +kernel
  have made : p.Made := by
    have hamount : Expr.mkCall .coalesce [.column 1 (.int64 true), Expr.mkLiteral (.int64 0)] =
        .ok amount := rfl
    have hn : AggregateCall.derive .count [] "n" p.inputRow =
        .ok ⟨.count, [], none, "n", .int64 false⟩ := rfl
    have htotal : AggregateCall.derive .sum0 [1] "total" p.inputRow =
        .ok ⟨.sum0, [1], none, "total", .int64 false⟩ := rfl
    have horders : orders.Made := made_of_children (by simp [orders, exprs])
      (by simp [orders, calls]) (by simp [orders, children])
    have hfilled : filled.Made := by
      refine made_of_children ?_ (by simp [filled, calls])
        (by simpa [filled, children] using horders)
      have hoperands : ∀ o ∈ [Expr.column 1 (.int64 true), Expr.mkLiteral (.int64 0)], o.Made := by
        simpa using ⟨.reference _ _, .literal _⟩
      simpa [filled, exprs] using ⟨.reference _ _, .call hamount hoperands⟩
    refine made_of_children (by simp [p, exprs]) ?_ (by simpa [p, children] using hfilled)
    intro c hc
    rcases List.mem_cons.1 hc with rfl | hc
    · exact .derived hn
    · obtain rfl := List.mem_singleton.1 hc
      exact .derived htotal
  have supplies : Supplies contents p := by
    intro id table shape' notes hscan row hrow
    have hshape : shape' = shape := by
      have hnodes : p.nodes = [p, filled, orders] := rfl
      rw [hnodes] at hscan
      simp [p, filled, orders] at hscan
      exact hscan.2.2.1
    subst hshape
    have hrows : row = [.int64 1, .null] ∨ row = [.int64 1, .int64 5] := by
      simpa [contents] using hrow
    rcases hrows with rfl | rfl
    · exact .cons ⟨.inr (.inl rfl), by simp⟩ (.cons ⟨.inl rfl, fun _ => rfl⟩ .nil)
    · exact .cons ⟨.inr (.inl rfl), by simp⟩ (.cons ⟨.inr (.inl rfl), by simp⟩ .nil)
  have hstart : p.start {} contents = .ok e := rfl
  exact ⟨valid, made, honest, supplies, self_mem_nodes p, hstart,
    not_null_of_start valid made honest supplies (self_mem_nodes p) hstart⟩

/-- A reference, a literal and a cast that are declared not null, and are null. -/
theorem null_of_declared_not_null :
    let source : Plan := .values 1 [[.null]] [⟨"n", .int64 true, {}⟩]
    let projected (e : Expr) : Plan := .project 2 source [⟨e, "n"⟩]
    ∀ e ∈ [.column 0 (.int64 false), .literal .null (.int64 false),
        Expr.mkCast (Expr.mkLiteral (.int64 5)) .null],
      (projected e).Valid ∧ (projected e).Made ∧ (∀ contents, Supplies contents (projected e)) ∧
        (projected e).schema.map (·.type.nullable) = [false] ∧
        ∀ contents, (projected e).start {} contents = .ok ⟨[[.null]], none⟩ := by
  intro source projected e he
  have hmade : e.Made := by
    have hnull : Expr.mkTypedLiteral .null (.int64 false) =
        .ok (.literal .null (.int64 false)) := rfl
    rcases List.mem_cons.1 he with rfl | he
    · exact .reference 0 _
    rcases List.mem_cons.1 he with rfl | he
    · exact .typedLiteral hnull
    · obtain rfl := List.mem_singleton.1 he
      exact .cast .null (.literal _)
  have hsource : source.Made := made_of_children (by simp [source, exprs]) (by simp [source, calls])
    (by simp [source, children])
  have made : (projected e).Made := made_of_children (by simpa [projected, exprs] using hmade)
    (by simp [projected, calls]) (by simpa [projected, children] using hsource)
  have supplies : ∀ contents, Supplies contents (projected e) := by
    intro contents id table shape notes hscan
    have hnodes : (projected e).nodes = [projected e, source] := rfl
    rw [hnodes] at hscan
    simp [projected, source] at hscan
  simp only [List.mem_cons, List.not_mem_nil, or_false] at he
  rcases he with rfl | rfl | rfl <;>
    exact ⟨by decide +kernel, made, supplies, rfl, fun _ => rfl⟩

end Relational.Plan
