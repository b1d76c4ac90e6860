import Relational.Proofs.Metadata.Choice
import Relational.Proofs.Metadata.Origins
import Relational.Proofs.Metadata.Raised

/-!
# Lineages and origins agree

The columns of tables in the lineages of a column are its origins, and a lineage is just such a
column where the origin is copied.
-/
namespace Relational

namespace Expr
variable {ε : Type} {f : Nat → SqlType → Except ε Expr} {e e' : Expr}

theorem mem_readings_substitute (he : e.substitute f = .ok e') {r r' : Nat × SqlType} {d : Expr}
    (hr : r ∈ e.readings) (hd : f r.1 r.2 = .ok d) (hr' : r' ∈ d.readings) :
    r' ∈ e'.readings := by
  induction e using operandInduction generalizing e' with
  | column i t =>
    obtain rfl := List.mem_singleton.1 hr
    cases he.symm.trans hd
    exact hr'
  | call op operands t ih =>
    obtain ⟨operands', hoperands, rfl⟩ := substitute_call_eq_ok.1 he
    rw [readings, readingsOf_eq_flatMap] at hr
    obtain ⟨o, ho, hr⟩ := List.mem_flatMap.1 hr
    obtain ⟨o', ho', hsubstitute⟩ :=
      forall₂_exists_mem (R := fun o' o => o.substitute f = .ok o') hoperands.flip ho
    exact mem_readings_call ho' (ih o ho hsubstitute hr)
  | _ => cases hr

end Expr

namespace Metadata

namespace Lineage
variable {e e' l : Expr} {f : Nat → SqlType → Option Expr} {c : Nat}

theorem exists_replace (h : ∀ r ∈ e.readings, ∃ d, f r.1 r.2 = some d) :
    ∃ l, replace e f = some l := by
  simp only [replace, toOption_eq_some]
  refine Expr.exists_substitute fun r hr => ?_
  obtain ⟨d, hd⟩ := h r hr
  exact ⟨d, by rw [hd]⟩

theorem mem_typedColumns {r : Nat × SqlType} (hr : r ∈ e.readings) :
    ∃ t, (r.1, t) ∈ typedColumns e := by
  have hcolumn : r.1 ∈ e.columnsRead.columns := ColumnSet.mem_ofList.2 (List.mem_map_of_mem hr)
  have hfound : (e.readings.reverse.find? (·.1 == r.1)).isSome :=
    List.find?_isSome.2 ⟨r, List.mem_reverse.2 hr, beq_self_eq_true _⟩
  obtain ⟨⟨c, t⟩, hfind⟩ := Option.isSome_iff_exists.1 hfound
  have hsame := List.find?_some hfind
  obtain rfl : c = r.1 := beq_iff_eq.1 hsame
  exact ⟨t, List.mem_filterMap.2 ⟨_, hcolumn, hfind⟩⟩

end Lineage

namespace Basis
open Lineage
variable {Q : Type} {b : Basis Q} {p input left right : Plan} {e pushed l : Expr}
  {exprs : List Expr} {id : Nat} {condition : Expr} {type : JoinType}

/-- The origins of the columns that the expression reads are known, and it derives from the same
columns as its lineages. -/
structure Agrees (b : Basis Q) (p : Plan) (e : Expr) (exprs : List Expr) : Prop where
  known : ∀ r ∈ e.readings, b.OriginsAre p r.1 (b.Originates p r.1)
  agrees : ∀ x, (∃ l ∈ exprs, l.StemsFrom x) ↔ e.Derives (b.Originates p) x

theorem agrees_of {G : Nat → ColumnOrigin → Prop}
    (hknown : ∀ r ∈ e.readings, b.OriginsAre p r.1 (G r.1))
    (h : ∀ x, (∃ l ∈ exprs, l.StemsFrom x) ↔ e.Derives G x) : b.Agrees p e exprs where
  known r hr := (hknown r hr).congr fun x => ((hknown r hr).originates x).symm
  agrees x := (h x).trans (Expr.derives_congr fun r hr x => ((hknown r hr).originates x).symm)

def Agreeing (b : Basis Q) (p : Plan) : Prop :=
  ∀ e exprs, b.Answers p ⟨.expressionLineage, .expr e⟩ (.ok (some (.exprs exprs))) → b.Agrees p e exprs

theorem Agreeing.takenOver (hinput : b.Agreeing input) (hs : b.node? p (.input 0) = some input)
    (hinquiry : b.inquiry p ⟨.expressionLineage, .expr e⟩ =
      report .exprs (expressionLineage (.input 0) pushed))
    (h : b.Answers p ⟨.expressionLineage, .expr e⟩ (.ok (some (.exprs exprs)))) :
    b.Agrees input pushed exprs := by
  rw [Answers, hinquiry] at h
  obtain ⟨found, hfound, hfact⟩ := gives_report.1 h
  cases hfact
  exact hinput pushed exprs (answers_input hs hfound)

variable [Quantity Q]

theorem agrees_passedOn (hrules : b.rules = .builtin) (hp : p.children = [input])
    (horigins : RuleTable.builtin.lookup p.kind .columnOrigin = some (Origins.passedOn (Q := Q)))
    (hlineage : RuleTable.builtin.lookup p.kind .expressionLineage =
      some (Lineage.passedOn (Q := Q)))
    (hinput : b.Agreeing input) (h : b.Answers p ⟨.expressionLineage, .expr e⟩ (.ok (some (.exprs exprs)))) :
    b.Agrees p e exprs := by
  have hinquiry : b.inquiry p ⟨.expressionLineage, .expr e⟩ =
      report .exprs (expressionLineage (.input 0) e) := by
    rw [inquiry_of_builtin hrules hlineage]
    simp [Lineage.passedOn, fromInput, hp]
  have hbelow := hinput.takenOver (by simp [node?, hp]) hinquiry h
  exact agrees_of (fun r hr => originsAre_passedOn hrules hp horigins (hbelow.known r hr))
    hbelow.agrees

theorem agrees_scan {table : TableRef} {shape : Schema} {notes : Notes} {o : TableOccurrence}
    {g : Nat → SqlType → Except Unit Expr} (hrules : b.rules = .builtin)
    (ho : b.setting.occurrence? id = some o) (he : e.substitute g = .ok l)
    (hg : ∀ i t d, g i t = .ok d → i < shape.length ∧ d = .tableColumn o i t) :
    b.Agrees (.scan id table shape notes) e [l] := by
  refine agrees_of (G := fun c x => x = ⟨o, c, false⟩) (fun r hr => ?_) fun x => ?_
  · obtain ⟨d, hd⟩ := Expr.exists_of_substitute he r hr
    exact originsAre_scan hrules ho (hg _ _ d hd).1
  · simp only [List.mem_singleton, exists_eq_left]
    refine Expr.derives_substitute he fun r hr d hd x => ?_
    rw [(hg _ _ d hd).2]
    rfl

theorem agrees_project {columns : List Projection} {g : Nat → SqlType → Except Unit Expr}
    (hrules : b.rules = .builtin) (hvalid : (Plan.project id input columns).Valid)
    (he : e.substitute g = .ok pushed)
    (hg : ∀ i t d, g i t = .ok d → ∃ c, columns[i]? = some c ∧ c.expr = d)
    (h : b.Agrees input pushed exprs) : b.Agrees (.project id input columns) e exprs := by
  refine agrees_of (G := fun c x => ∃ projected, columns[c]? = some projected ∧
    projected.expr.Derives (b.Originates input) x) (fun r hr => ?_) fun x => ?_
  · obtain ⟨d, hd⟩ := Expr.exists_of_substitute he r hr
    obtain ⟨projected, hc, rfl⟩ := hg _ _ d hd
    have hmem := List.mem_map_of_mem (f := Projection.expr) (List.mem_of_getElem? hc)
    have hnames := Expr.names_of_validate (P := fun _ _ => False)
      (Plan.validate_of_check hvalid.check _ hmem)
    have hread : ∀ r' ∈ projected.expr.readings,
        b.OriginsAre input r'.1 (b.Originates input r'.1) :=
      fun r' hr' => h.known r' (Expr.mem_readings_substitute he hr hd hr')
    refine (originsAre_project hrules hc hnames hread).congr fun x => ?_
    simp [hc]
  · rw [h.agrees]
    refine Expr.derives_substitute he fun r hr d hd x => ?_
    obtain ⟨projected, hc, rfl⟩ := hg _ _ d hd
    simp [hc]

theorem agrees_aggregate {sets : List ColumnSet} {calls : List AggregateCall} {indicator : Bool}
    {g : Nat → SqlType → Except Unit Expr} (hrules : b.rules = .builtin)
    (he : e.substitute g = .ok pushed)
    (hg : ∀ i t d, g i t = .ok d →
      ∃ c, (Plan.groupColumns sets).columns[i]? = some c ∧ .column c t = d)
    (h : b.Agrees input pushed exprs) :
    b.Agrees (.aggregate id input sets calls indicator) e exprs := by
  refine agrees_of (G := fun c x => ∃ group, (Plan.groupColumns sets).columns[c]? = some group ∧
    b.Originates input group x) (fun r hr => ?_) fun x => ?_
  · obtain ⟨d, hd⟩ := Expr.exists_of_substitute he r hr
    obtain ⟨group, hc, rfl⟩ := hg _ _ d hd
    have hread := Expr.mem_readings_substitute he hr hd (List.mem_singleton_self _)
    refine (originsAre_aggregate hrules hc (h.known _ hread)).congr fun x => ?_
    simp [hc]
  · rw [h.agrees]
    refine Expr.derives_substitute he fun r hr d hd x => ?_
    obtain ⟨group, hc, rfl⟩ := hg _ _ d hd
    simp [hc, Expr.Derives, Expr.Origin]

theorem agrees_union {inputs : List Plan} {all : Bool} (hrules : b.rules = .builtin)
    (hsome : inputs ≠ []) (hinputs : ∀ input ∈ inputs, b.Agreeing input)
    (h : b.Answers (.setOp id .union inputs all) ⟨.expressionLineage, .expr e⟩
      (.ok (some (.exprs exprs)))) : b.Agrees (.setOp id .union inputs all) e exprs := by
  have hinquiry : b.inquiry (.setOp id .union inputs all) ⟨.expressionLineage, .expr e⟩ =
      ofUnion b.setting (.setOp id .union inputs all) (.expr e) := inquiry_of_builtin hrules rfl
  have hgives := h
  rw [Answers, hinquiry] at hgives
  obtain ⟨found, hfound, hgives⟩ := gives_bind.1 hgives
  cases found with
  | none => cases gives_unknown.1 hgives
  | some lists =>
    simp only at hgives
    split at hgives
    · cases gives_unknown.1 hgives
    cases gives_known.1 hgives
    have hlists : List.Forall₂ (fun input list => b.Agrees input e list) inputs lists := by
      refine forall₂_imp_of_mem (gives_inputs hfound) ?_
      rintro input hinput list ⟨i, hs, hasked⟩
      exact hinputs input hinput e list (answers_input hs hasked)
    have hlist : ∀ input ∈ inputs, ∃ list ∈ lists, b.Agrees input e list := by
      intro input hinput
      obtain ⟨i, hi⟩ := List.getElem?_of_mem hinput
      obtain ⟨list, hlist, hagrees⟩ := forall₂_exists_getElem? hlists hi
      exact ⟨list, List.mem_of_getElem? hlist, hagrees⟩
    refine agrees_of (G := fun c x => ∃ input, input ∈ inputs ∧ b.Originates input c x)
      (fun r hr => ?_) fun x => ?_
    · refine originsAre_setOp hrules fun input hinput => ?_
      obtain ⟨list, -, hagrees⟩ := hlist input hinput
      exact hagrees.known r hr
    rw [Expr.derives_exists (List.exists_mem_of_ne_nil inputs hsome)]
    simp only [List.mem_eraseDups, List.mem_flatten]
    constructor
    · rintro ⟨l, ⟨list, hlist, hl⟩, hstems⟩
      obtain ⟨input, hinput, hagrees⟩ := forall₂_exists_mem hlists hlist
      exact ⟨input, hinput, (hagrees.agrees x).1 ⟨l, hl, hstems⟩⟩
    · rintro ⟨input, hinput, hderives⟩
      obtain ⟨list, hmem, hagrees⟩ := hlist input hinput
      obtain ⟨l, hl, hstems⟩ := (hagrees.agrees x).2 hderives
      exact ⟨l, ⟨list, hmem, hl⟩, hstems⟩

section ColumnLineages
variable {columns : List (Nat × List Expr)}
  (h : List.Forall₂ (b.ColumnLineages left right) (typedColumns e) columns)
include h

omit [Quantity Q] in
theorem ne_nil_of_columnLineages : ∀ column ∈ columns, column.2 ≠ [] := by
  intro column hcolumn
  obtain ⟨r, -, -, hne, -⟩ := forall₂_exists_mem h hcolumn
  exact hne

omit [Quantity Q] in
theorem exists_columnLineages {r : Nat × SqlType} (hr : r ∈ e.readings) :
    ∃ t options, (r.1, t) ∈ typedColumns e ∧ columns.lookup r.1 = some options ∧
      b.ColumnLineages left right (r.1, t) (r.1, options) := by
  obtain ⟨t, ht⟩ := mem_typedColumns hr
  obtain ⟨options, hoptions⟩ : ∃ options, columns.lookup r.1 = some options := by
    obtain ⟨i, hi⟩ := List.getElem?_of_mem ht
    obtain ⟨column, hcolumn, hsame, -⟩ := forall₂_exists_getElem? h hi
    refine Option.isSome_iff_exists.1 (List.lookup_isSome_iff.2 ⟨column, ?_, ?_⟩)
    · exact List.mem_of_getElem? hcolumn
    · rw [hsame]
      exact beq_self_eq_true r.1
  obtain ⟨before, after, hsplit, -⟩ := List.lookup_eq_some_iff.1 hoptions
  obtain ⟨⟨c, t⟩, ht, hcolumn⟩ := forall₂_exists_mem (y := (r.1, options)) h (by simp [hsplit])
  obtain rfl : r.1 = c := hcolumn.1
  exact ⟨t, options, ht, hoptions, hcolumn⟩

end ColumnLineages

omit [Quantity Q] in
/-- Over all choices, the expression has the lineages of each of its columns. -/
theorem stemsFrom_choices {columns : List (Nat × List Expr)}
    (hsome : ∀ column ∈ columns, column.2 ≠ [])
    (hcolumns : ∀ r ∈ e.readings, ∃ options, columns.lookup r.1 = some options)
    (x : ColumnOrigin) :
    (∃ n, n < ways columns ∧
      ∃ l, replace e (fun i _ => (choice n columns).lookup i) = some l ∧ l.StemsFrom x) ↔
    e.Derives (fun c x => ∃ options, columns.lookup c = some options ∧
      ∃ l ∈ options, l.StemsFrom x) x := by
  have hchoice (n : Nat) (x : ColumnOrigin) :
      (∃ l, replace e (fun i _ => (choice n columns).lookup i) = some l ∧ l.StemsFrom x) ↔
      e.Derives (fun c x => ∃ d, (choice n columns).lookup c = some d ∧ d.StemsFrom x) x := by
    have hlookup : ∀ r ∈ e.readings, ∃ d, (choice n columns).lookup r.1 = some d := by
      intro r hr
      obtain ⟨options, hoptions⟩ := hcolumns r hr
      obtain ⟨d, -, hd⟩ := exists_lookup_choice (n := n) hsome hoptions
      exact ⟨d, hd⟩
    obtain ⟨l, hl⟩ := exists_replace (f := fun i _ => (choice n columns).lookup i) hlookup
    obtain ⟨g, hg, hreplaced⟩ := substitute_of_replace hl
    simp only [hl, Option.some.injEq, exists_eq_left']
    refine Expr.derives_substitute hg fun r hr d hd x => ?_
    simp [hreplaced _ _ d hd, Expr.StemsFrom]
  simp only [hchoice]
  rw [← Expr.derives_exists ⟨0, ways_pos hsome⟩]
  refine Expr.derives_congr fun r hr x => ?_
  obtain ⟨options, hoptions⟩ := hcolumns r hr
  constructor
  · rintro ⟨n, -, d, hd, hstems⟩
    obtain ⟨d', hd', hchosen⟩ := exists_lookup_choice (n := n) hsome hoptions
    obtain rfl := Option.some.inj (hd.symm.trans hchosen)
    exact ⟨options, hoptions, d, hd', hstems⟩
  · rintro ⟨options', hoptions', d, hd, hstems⟩
    obtain ⟨n, hn, hchosen⟩ := exists_choice hsome hoptions' hd
    exact ⟨n, hn, d, hchosen, hstems⟩

theorem agrees_join (hrules : b.rules = .builtin) (hleft : b.Agreeing left)
    (hright : b.Agreeing right)
    (h : b.Answers (.join id left right condition type) ⟨.expressionLineage, .expr e⟩
      (.ok (some (.exprs exprs)))) : b.Agrees (.join id left right condition type) e exprs := by
  have hinquiry : b.inquiry (.join id left right condition type) ⟨.expressionLineage, .expr e⟩ =
      ofJoin b.setting (.join id left right condition type) (.expr e) :=
    inquiry_of_builtin hrules rfl
  have hgives := h
  rw [Answers, hinquiry] at hgives
  obtain ⟨found, hfound, hgives⟩ := gives_bind.1 hgives
  cases found with
  | none => cases gives_unknown.1 hgives
  | some columns =>
    have hcolumns := gives_perColumn.1 hfound
    have hsome := ne_nil_of_columnLineages hcolumns
    obtain ⟨count, hcount, hgives⟩ := gives_bind.1 hgives
    obtain rfl : count = ways columns := by
      replace hcount := gives_ofExcept.1 hcount
      rw [choiceCount_eq hsome, wordSized] at hcount
      split at hcount
      · exact Except.ok.inj hcount
      · cases hcount
    split at hgives
    · cases gives_unknown.1 hgives
    cases gives_known.1 hgives
    -- a column has the lineages that it has in its input
    have hside : ∀ r ∈ e.readings, ∃ options, columns.lookup r.1 = some options ∧ ∃ t,
        b.Agrees (sideOf left right r.1).1 (.column (sideOf left right r.1).2 t) options := by
      intro r hr
      obtain ⟨t, options, ht, hoptions, -, -, hanswers⟩ := exists_columnLineages hcolumns hr
      have hagreeing : b.Agreeing (sideOf left right r.1).1 := by
        unfold sideOf
        split <;> assumption
      exact ⟨options, hoptions, t, hagreeing _ _ hanswers⟩
    refine agrees_of (G := fun c x => ∃ options, columns.lookup c = some options ∧
      ∃ l ∈ options, l.StemsFrom x) (fun r hr => ?_) fun x => ?_
    · obtain ⟨options, hoptions, t, hagrees⟩ := hside r hr
      have hknown := hagrees.known _ (List.mem_singleton_self _)
      refine (originsAre_join hrules hknown).congr fun x => ?_
      simp only [hoptions, Option.some.injEq, exists_eq_left']
      exact (hagrees.agrees x).symm
    · rw [← stemsFrom_choices hsome fun r hr => (hside r hr).imp fun _ h => h.1]
      simp only [List.mem_filterMap, List.mem_range]
      constructor
      · rintro ⟨l, ⟨n, hn, hl⟩, hstems⟩
        exact ⟨n, hn, l, hl, hstems⟩
      · rintro ⟨n, hn, l, hl, hstems⟩
        exact ⟨l, ⟨n, hn, hl⟩, hstems⟩

/-- By induction over the plan: every operator replaces columns by what their origins are taken
from. -/
theorem agreeing (hrules : b.rules = .builtin) (hvalid : p.Valid) : b.Agreeing p := by
  induction p using Plan.inputInduction with
  | node p ih =>
    have hinput : ∀ child ∈ p.children, b.Agreeing child := fun child hchild =>
      ih child hchild (hvalid.child hchild)
    clear ih
    intro e exprs h
    have hnone : ∀ {kind}, p.kind = kind →
        RuleTable.builtin.lookup kind .expressionLineage = (none : Option (Rule Q)) →
        b.Agrees p e exprs := by
      rintro _ rfl hnone
      obtain ⟨rule, hrule, -⟩ := answers_some.1 h
      rw [hrules, hnone] at hrule
      cases hrule
    cases p with
    | scan id table shape notes =>
      obtain ⟨hoccurrence, htraced, hg⟩ := lineages_of_answers hrules h
      exact agrees_scan hrules hoccurrence htraced hg
    | values => exact hnone rfl rfl
    | filter | sort | exchange =>
      exact agrees_passedOn hrules rfl rfl rfl (hinput _ List.mem_cons_self) h
    | project id input columns =>
      have hgives := gives_of_builtin hrules h rfl
      simp only [ofProject] at hgives
      split at hgives
      next pushed hpushed =>
        have hinquiry : b.inquiry (.project id input columns) ⟨.expressionLineage, .expr e⟩ =
            report .exprs (expressionLineage (.input 0) pushed) := by
          rw [inquiry_of_builtin hrules rfl]
          simp only [ofProject, hpushed]
        have hbelow := (hinput _ List.mem_cons_self).takenOver rfl hinquiry h
        obtain ⟨g, hg, hcolumn⟩ := substitute_of_throughProjection hpushed
        exact agrees_project hrules hvalid hg hcolumn hbelow
      · cases gives_unknown.1 hgives
    | aggregate id input sets calls indicator =>
      have hgives := gives_of_builtin hrules h rfl
      simp only [ofAggregate] at hgives
      split at hgives
      next pushed hpushed =>
        have hinquiry : b.inquiry (.aggregate id input sets calls indicator)
            ⟨.expressionLineage, .expr e⟩ =
            report .exprs (expressionLineage (.input 0) pushed) := by
          rw [inquiry_of_builtin hrules rfl]
          simp only [ofAggregate, hpushed]
        have hbelow := (hinput _ List.mem_cons_self).takenOver rfl hinquiry h
        obtain ⟨g, hg, hcolumn⟩ := substitute_of_replace hpushed
        exact agrees_aggregate hrules hg
          (fun i t d hd => Option.map_eq_some_iff.1 (hcolumn i t d hd)) hbelow
      · cases gives_unknown.1 hgives
    | join id left right condition type =>
      exact agrees_join hrules (hinput left (by simp [Plan.children]))
        (hinput right (by simp [Plan.children])) h
    | setOp id op inputs all =>
      cases op with
      | union =>
        have hsome : inputs ≠ [] := by
          rintro rfl
          cases hvalid.check
        exact agrees_union hrules hsome hinput h
      | intersect | minus => exact hnone rfl rfl
    | other => exact hnone rfl rfl

end Basis

namespace Query
open Metadata.Basis Lineage
variable {Q : Type} [Quantity Q] {root node : Plan} {fresh q : Query Q}

/-- Whatever was asked before, where both are known, the columns of tables in the lineages of a
column are its origins, and the copied ones are just those that are lineages by themselves. -/
theorem lineages_agree_with_origins {α : Type} {source : TableSource Q} {scanRows : Q}
    {splits : Nat} {caching : Bool} {earlier : List (Plan × Inquiry Q α)}
    {outcomes : List (Except Error α)} {c : Nat} {t : SqlType} {exprs : List Expr}
    {origins : List ColumnOrigin} {q₁ q₂ : Query Q}
    (hfresh : ofPlan root .builtin source scanRows splits caching = .ok fresh)
    (hearlier : ∀ r ∈ earlier, r.1 ∈ root.nodes)
    (hserve : fresh.serve earlier = some (outcomes, q)) (hvalid : root.Valid)
    (hnode : node ∈ root.nodes)
    (hlineages : q.inquire node (expressionLineage .self (.column c t)) =
      some (.ok (some exprs), q₁))
    (horigins : q.inquire node (columnOrigins .self c) = some (.ok (some origins), q₂)) :
    (∀ o k, (∃ l ∈ exprs, ∃ t, .tableColumn o k t ∈ l.parts) ↔
      ∃ derived, ⟨o, k, derived⟩ ∈ origins) ∧
    ∀ o k, ⟨o, k, false⟩ ∈ origins ↔ ∃ t, .tableColumn o k t ∈ exprs := by
  obtain ⟨hbasis, ids, hmemo⟩ := serve_fresh hfresh hearlier hserve
  have hrules : q.rules = .builtin := by rw [hbasis]
  have hmem : node ∈ q.root.nodes := by rw [hbasis]; exact hnode
  obtain ⟨-, -, hgives⟩ := inquire_sound ids hmemo hmem hlineages
  obtain ⟨-, -, hgives'⟩ := inquire_sound ids hmemo hmem horigins
  have hanswers := exists_self.1 (gives_columnOrigins.1 hgives')
  have hagrees := (agreeing hrules (hvalid.of_mem_nodes hnode) _ _ (answers_input rfl hgives)).agrees
  have hstems : ∀ x, (∃ l ∈ exprs, l.StemsFrom x) ↔ x ∈ origins := fun x =>
    (hagrees x).trans (originates_iff hanswers)
  constructor
  · intro o k
    simp only [← hstems, ← Expr.exists_stemsFrom]
    constructor
    · rintro ⟨l, hl, derived, h⟩
      exact ⟨derived, l, hl, h⟩
    · rintro ⟨derived, l, hl, h⟩
      exact ⟨l, hl, derived, h⟩
  · intro o k
    simp only [← hstems, Expr.stemsFrom_copy]
    constructor
    · rintro ⟨l, hl, t, rfl⟩
      exact ⟨t, hl⟩
    · rintro ⟨t, ht⟩
      exact ⟨_, ht, t, rfl⟩

theorem lineages_agree_with_origins_sum :
    let table : TableRef := ⟨7, "main", "orders"⟩
    let shape : Schema := [⟨"id", .int64 false, {}⟩, ⟨"amount", .int64 false, {}⟩]
    let source : TableSource Binary64 :=
      ⟨fun _ => .error (.planning (.unknownTableId 7)), fun _ => .ok none⟩
    let both : Plan := .join 2 (.scan 0 table shape) (.scan 1 table shape)
      (.literal (.boolean true) (.boolean false)) .inner
    let sum (a b : Expr) : Expr := .call (.arith .plus) [a, b] (.int64 false)
    let p : Plan :=
      .project 3 both [⟨sum (.column 1 (.int64 false)) (.column 3 (.int64 false)), "sum"⟩]
    let first : TableOccurrence := ⟨"main.orders", 0⟩
    let again : TableOccurrence := ⟨"main.orders", 1⟩
    let traced : Expr :=
      sum (.tableColumn first 1 (.int64 false)) (.tableColumn again 1 (.int64 false))
    let origins : List ColumnOrigin := [⟨first, 1, true⟩, ⟨again, 1, true⟩]
    ∃ fresh q₁ q₂, ofPlan p .builtin source Quantity.one 1 true = .ok fresh ∧ p.Valid ∧
      fresh.inquire p (expressionLineage .self (.column 0 (.int64 false))) =
        some (.ok (some [traced]), q₁) ∧
      fresh.inquire p (columnOrigins .self 0) = some (.ok (some origins), q₂) ∧
      ∀ o k, (∃ l ∈ [traced], ∃ t, .tableColumn o k t ∈ l.parts) ↔
        ∃ derived, ⟨o, k, derived⟩ ∈ origins := by
  intro table shape source both sum p first again traced origins
  obtain ⟨fresh, hfresh⟩ : ∃ fresh : Query Binary64,
      ofPlan p .builtin source Quantity.one 1 true = .ok fresh := ⟨_, rfl⟩
  have hnode : p ∈ p.nodes := Plan.self_mem_nodes p
  have hserve : fresh.serve ([] : List (Plan × Inquiry Binary64 Unit)) = some ([], fresh) := rfl
  have hvalid : p.Valid := by decide +kernel
  have hlineages : fresh.Gives p (expressionLineage .self (.column 0 (.int64 false)))
      (.ok (some [traced])) := by
    obtain ⟨-, rfl⟩ := ofPlan_eq_ok hfresh
    refine gives_expressionLineage.2 ⟨p, rfl, answers_some.2 ⟨_, rfl, ?_⟩⟩
    refine gives_report.2 ⟨[traced], ?_, rfl⟩
    refine gives_expressionLineage.2 ⟨both, rfl, answers_some.2 ⟨_, rfl, ?_⟩⟩
    have hchoice (a b : Expr) : choice 0 [(1, [a]), (3, [b])] = [(1, a), (3, b)] := by
      simp [choice]
    have hexprs (a b : Expr) : (List.range 1).filterMap (fun n =>
        replace (sum (.column 1 (.int64 false)) (.column 3 (.int64 false)))
          fun i _ => (choice n [(1, [a]), (3, [b])]).lookup i) = [sum a b] := by
      show [0].filterMap _ = _
      simp only [List.filterMap_cons, hchoice]
      rfl
    refine gives_bind.2 ⟨some [(1, [.tableColumn first 1 (.int64 false)]),
      (3, [.tableColumn again 1 (.int64 false)])], ?_, ?_⟩
    swap
    · exact gives_bind.2 ⟨1, gives_ofExcept.2 rfl, gives_known.2 (by rw [← hexprs])⟩
    refine gives_bind.2 ⟨some [.tableColumn first 1 (.int64 false)], ?_, ?_⟩
    · exact gives_expressionLineage.2 ⟨_, rfl, answers_some.2 ⟨_, rfl, gives_known.2 rfl⟩⟩
    refine gives_bind.2 ⟨some [(3, [.tableColumn again 1 (.int64 false)])], ?_, gives_known.2 rfl⟩
    refine gives_bind.2 ⟨some [.tableColumn again 1 (.int64 false)], ?_, ?_⟩
    · exact gives_expressionLineage.2 ⟨_, rfl, answers_some.2 ⟨_, rfl, gives_known.2 rfl⟩⟩
    exact gives_bind.2 ⟨some [], gives_known.2 rfl, gives_known.2 rfl⟩
  have horigins : fresh.Gives p (columnOrigins .self 0) (.ok (some origins)) := by
    obtain ⟨-, rfl⟩ := ofPlan_eq_ok hfresh
    refine gives_columnOrigins.2 ⟨p, rfl, answers_some.2 ⟨_, rfl, ?_⟩⟩
    refine gives_report.2 ⟨origins, ?_, rfl⟩
    refine gives_bind.2 ⟨some [⟨first, 1, false⟩], ?_, ?_⟩
    · refine gives_columnOrigins.2 ⟨both, rfl, answers_some.2 ⟨_, rfl, ?_⟩⟩
      refine gives_report.2 ⟨[⟨first, 1, false⟩], ?_, rfl⟩
      exact gives_columnOrigins.2 ⟨_, rfl, answers_some.2 ⟨_, rfl, gives_known.2 rfl⟩⟩
    have hmerged : some [⟨⟨"main.orders", 0⟩, 1, true⟩, ⟨⟨"main.orders", 1⟩, 1, true⟩] =
        some (mergeOrigins [⟨⟨"main.orders", 0⟩, 1, true⟩] [⟨⟨"main.orders", 1⟩, 1, true⟩]) := by
      decide +kernel
    refine gives_bind.2 ⟨some [⟨again, 1, false⟩], ?_, gives_known.2 hmerged⟩
    refine gives_columnOrigins.2 ⟨both, rfl, answers_some.2 ⟨_, rfl, ?_⟩⟩
    refine gives_report.2 ⟨[⟨again, 1, false⟩], ?_, rfl⟩
    exact gives_columnOrigins.2 ⟨_, rfl, answers_some.2 ⟨_, rfl, gives_known.2 rfl⟩⟩
  obtain ⟨q₁, hinquire⟩ := inquire_fresh hfresh hnode hlineages
  obtain ⟨q₂, hinquire'⟩ := inquire_fresh hfresh hnode horigins
  obtain ⟨hpairs, -⟩ :=
    lineages_agree_with_origins hfresh (by simp) hserve hvalid hnode hinquire hinquire'
  exact ⟨fresh, q₁, q₂, hfresh, hvalid, hinquire, hinquire', hpairs⟩

end Query
end Metadata
end Relational
