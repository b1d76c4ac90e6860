import Relational.Proofs.Execution.Emitted
import Relational.Proofs.Expr.Substitution
import Relational.Proofs.Metadata.Caching
import Relational.Proofs.Metadata.ColumnOrigins
import Relational.Proofs.Typing.Pipeline

/-!
# Lineage of expressions over executed plans

An expression has on every row that a node emits the outcome that one of its lineages has on a row
of the table that it reads, or on no row at all.
-/
namespace Relational

namespace Plan
variable {contents : Contents} {p node : Plan} {occurrence? : Nat → Option TableOccurrence}
  {outcome : Except Error Value} {e : Expr}

def SinglyGrouped (p : Plan) : Prop :=
  ∀ id input sets calls indicator, .aggregate id input sets calls indicator ∈ p.nodes →
    sets.length = 1

theorem SinglyGrouped.below (h : p.SinglyGrouped) (hnode : node ∈ p.nodes) : node.SinglyGrouped :=
  fun id input sets calls indicator hmem =>
    h id input sets calls indicator (mem_nodes_trans hnode hmem)

theorem SinglyGrouped.child (h : p.SinglyGrouped) {child : Plan} (hchild : child ∈ p.children) :
    child.SinglyGrouped :=
  h.below (mem_nodes_of_mem_children hchild)

theorem SinglyGrouped.eq_singleton {id : Nat} {input : Plan} {sets : List ColumnSet}
    {calls : List AggregateCall} {indicator : Bool} {set : ColumnSet}
    (h : (aggregate id input sets calls indicator).SinglyGrouped) (hset : set ∈ sets) :
    sets = [set] := by
  obtain ⟨only, rfl⟩ := List.length_eq_one_iff.1 (h _ _ _ _ _ (self_mem_nodes _))
  rw [List.mem_singleton.1 hset]

/-- The expression comes to the outcome on a row of the scanned table that it reads, or without
any. -/
inductive Traced (occurrence? : Nat → Option TableOccurrence) (contents : Contents) (p : Plan)
    (outcome : Except Error Value) (e : Expr) : Prop
  | constant (hcolumns : e.readings = []) (htables : e.tables = [])
      (h : e.evaluate [] [] = outcome)
  | scanned {id : Nat} {table : TableRef} {shape : Schema} {notes : Notes}
      {occurrence : TableOccurrence} {row : Row} (hscan : .scan id table shape notes ∈ p.nodes)
      (hoccurrence : occurrence? id = some occurrence) (hrow : row ∈ contents table)
      (hcolumns : e.readings = []) (htables : ∀ t ∈ e.tables, t = occurrence)
      (h : e.overTable.evaluate shape row = outcome)

theorem Traced.above (h : node.Traced occurrence? contents outcome e) (hnode : node ∈ p.nodes) :
    p.Traced occurrence? contents outcome e := by
  cases h with
  | constant hcolumns htables h => exact .constant hcolumns htables h
  | scanned hscan hoccurrence hrow hcolumns htables h =>
    exact .scanned (mem_nodes_trans hnode hscan) hoccurrence hrow hcolumns htables h

theorem traced_constant {width : Nat} (he : e.Over width) (hcolumns : e.readings = [])
    (schema : Schema) (row : Row) :
    p.Traced occurrence? contents (e.evaluate schema row) e := by
  refine .constant hcolumns he.tables (Expr.evaluate_congr ?_)
  rw [hcolumns]
  exact fun r hr => absurd hr List.not_mem_nil

theorem width_union {id : Nat} {op : SetOp} {inputs : List Plan} {all : Bool}
    {child : Plan} (hvalid : (setOp id op inputs all).Valid) (hchild : child ∈ inputs) :
    (setOp id op inputs all).width = child.width := by
  obtain ⟨hcheck, -⟩ := hvalid
  refine (sameTypes_of_checkSetOp hcheck child.schema ?_).length_eq
  rw [schemas_eq_map]
  exact List.mem_map_of_mem hchild

end Plan

namespace Metadata

namespace Lineage
variable {e e' : Expr} {f : Nat → SqlType → Option Expr} {columns : List Projection}

theorem substitute_of_replace (h : replace e f = some e') :
    ∃ g : Nat → SqlType → Except Unit Expr, e.substitute g = .ok e' ∧
      ∀ i t d, g i t = .ok d → f i t = some d := by
  refine ⟨_, toOption_eq_some.1 h, fun i t d hd => ?_⟩
  split at hd
  next r hr => rw [hr, Except.ok.inj hd]
  · cases hd

theorem substitute_of_throughProjection (h : throughProjection columns e = some e') :
    ∃ g : Nat → SqlType → Except Unit Expr, e.substitute g = .ok e' ∧
      ∀ i t d, g i t = .ok d → ∃ c, columns[i]? = some c ∧ c.expr = d := by
  refine ⟨_, toOption_eq_some.1 h, fun i t d hd => ?_⟩
  split at hd
  next c hc => exact ⟨c, hc, Except.ok.inj hd⟩
  · cases hd

theorem mem_of_mem_choice {α : Type} {n c : Nat} {x : α} {options : List (Nat × List α)}
    (h : (c, x) ∈ choice n options) : ∃ xs, (c, xs) ∈ options ∧ x ∈ xs := by
  induction options generalizing n with
  | nil => cases h
  | cons first rest ih =>
    obtain ⟨own, xs⟩ := first
    rw [choice, List.mem_append] at h
    rcases h with h | h
    · obtain ⟨y, hy, hpair⟩ := Option.map_eq_some_iff.1 (Option.mem_toList.1 h)
      cases hpair
      exact ⟨xs, List.mem_cons_self, List.mem_of_getElem? hy⟩
    · obtain ⟨xs, hxs, hx⟩ := ih h
      exact ⟨xs, List.mem_cons_of_mem _ hxs, hx⟩

theorem eq_of_substitute {g : Nat → SqlType → Except Unit Expr} (he : e.readings = [])
    (h : e.substitute g = .ok e') : e' = e := by
  have hself := Expr.substitute_eq_self (f := g) (e := e) (by simp [he])
  exact Except.ok.inj (h.symm.trans hself)

end Lineage

namespace Basis
open Lineage
variable {Q : Type} {b : Basis Q} {p input : Plan} {contents : Contents} {row : Row}
  {e : Expr} {exprs : List Expr}

/-- The lineages of an expression over a node, in terms of those over its inputs. -/
inductive Lineages (b : Basis Q) : Plan → Expr → List Expr → Prop
  | scan {id : Nat} {table : TableRef} {shape : Schema} {notes : Notes} {e traced : Expr}
      {occurrence : TableOccurrence} {g : Nat → SqlType → Except Unit Expr}
      (hoccurrence : b.setting.occurrence? id = some occurrence)
      (htraced : e.substitute g = .ok traced)
      (hg : ∀ i t d, g i t = .ok d → i < shape.length ∧ d = .tableColumn occurrence i t) :
    Lineages b (.scan id table shape notes) e [traced]
  | filter {id : Nat} {input : Plan} {predicate e : Expr} {exprs : List Expr}
      (h : b.Answers input ⟨.expressionLineage, .expr e⟩ (.ok (some (.exprs exprs)))) :
    Lineages b (.filter id input predicate) e exprs
  | project {id : Nat} {input : Plan} {columns : List Projection} {e pushed : Expr}
      {exprs : List Expr} {g : Nat → SqlType → Except Unit Expr}
      (hpushed : e.substitute g = .ok pushed)
      (hg : ∀ i t d, g i t = .ok d → ∃ c, columns[i]? = some c ∧ c.expr = d)
      (h : b.Answers input ⟨.expressionLineage, .expr pushed⟩ (.ok (some (.exprs exprs)))) :
    Lineages b (.project id input columns) e exprs
  | aggregate {id : Nat} {input : Plan} {sets : List ColumnSet} {calls : List AggregateCall}
      {indicator : Bool} {e pushed : Expr} {exprs : List Expr}
      {g : Nat → SqlType → Except Unit Expr} (hpushed : e.substitute g = .ok pushed)
      (hg : ∀ i t d, g i t = .ok d →
        ∃ c, (Plan.groupColumns sets).columns[i]? = some c ∧ .column c t = d)
      (h : b.Answers input ⟨.expressionLineage, .expr pushed⟩ (.ok (some (.exprs exprs)))) :
    Lineages b (.aggregate id input sets calls indicator) e exprs
  | join {id : Nat} {left right : Plan} {condition : Expr} {type : JoinType} {e : Expr}
      {exprs : List Expr} (hself : e.readings = [] → exprs = [e])
      (hchosen : ∀ l ∈ exprs, ∃ g : Nat → SqlType → Except Unit Expr, e.substitute g = .ok l ∧
        ∀ i t d, g i t = .ok d → ∃ input ∈ [left, right], ∃ own t' options,
          b.Answers input ⟨.expressionLineage, .expr (.column own t')⟩
            (.ok (some (.exprs options))) ∧ d ∈ options) :
    Lineages b (.join id left right condition type) e exprs
  | union {id : Nat} {inputs : List Plan} {all : Bool} {e : Expr} {lists : List (List Expr)}
      (h : List.Forall₂ (fun input exprs =>
        b.Answers input ⟨.expressionLineage, .expr e⟩ (.ok (some (.exprs exprs)))) inputs lists) :
    Lineages b (.setOp id .union inputs all) e lists.flatten.eraseDups
  | sort {id : Nat} {input : Plan} {collation : Collation} {offset fetch : Option Nat} {e : Expr}
      {exprs : List Expr}
      (h : b.Answers input ⟨.expressionLineage, .expr e⟩ (.ok (some (.exprs exprs)))) :
    Lineages b (.sort id input collation offset fetch) e exprs
  | exchange {id : Nat} {input : Plan} {distribution : Distribution} {e : Expr}
      {exprs : List Expr}
      (h : b.Answers input ⟨.expressionLineage, .expr e⟩ (.ok (some (.exprs exprs)))) :
    Lineages b (.exchange id input distribution) e exprs

theorem answers_input {s : Subject} {node : Plan} (hs : b.node? p s = some node)
    (h : b.Gives p (expressionLineage s e) (.ok (some exprs))) :
    b.Answers node ⟨.expressionLineage, .expr e⟩ (.ok (some (.exprs exprs))) := by
  obtain ⟨other, hother, hanswers⟩ := gives_expressionLineage.1 h
  obtain rfl := Option.some.inj (hs.symm.trans hother)
  exact hanswers

theorem answers_of_passedOn (hs : b.node? p (.input 0) = some input)
    (h : b.Gives p (passedOn b.setting p (.expr e)) (.ok (some (.exprs exprs)))) :
    b.Answers input ⟨.expressionLineage, .expr e⟩ (.ok (some (.exprs exprs))) := by
  simp only [passedOn] at h
  obtain ⟨found, hfound, hfact⟩ := gives_fromInput h
  cases hfact
  exact answers_input hs hfound

theorem lineage_join {id : Nat} {left right : Plan} {condition : Expr} {type : JoinType}
    (h : b.Gives (.join id left right condition type)
      (ofJoin b.setting (.join id left right condition type) (.expr e)) (.ok (some (.exprs exprs))))
    (he : e.readings = []) : exprs = [e] := by
  have hcolumns : typedColumns e = [] := by
    rw [typedColumns, Expr.columnsRead, Expr.references, he]
    rfl
  have hself : ∀ g, replace e g = some e := by
    intro g
    refine toOption_eq_some.2 (Expr.substitute_eq_self ?_)
    rw [he]
    exact fun r hr => absurd hr List.not_mem_nil
  simp only [ofJoin, hcolumns, perColumn] at h
  obtain ⟨found, hfound, h⟩ := gives_bind.1 h
  cases gives_known.1 hfound
  obtain ⟨count, hcount, h⟩ := gives_bind.1 h
  -- one way of choosing for no columns
  cases gives_ofExcept.1 hcount
  cases gives_known.1 h
  simp [hself]

def ColumnLineages (b : Basis Q) (left right : Plan) (r : Nat × SqlType)
    (column : Nat × List Expr) : Prop :=
  column.1 = r.1 ∧ column.2 ≠ [] ∧ b.Answers (sideOf left right r.1).1
    ⟨.expressionLineage, .expr (.column (sideOf left right r.1).2 r.2)⟩
    (.ok (some (.exprs column.2)))

section Columns
variable {id : Nat} {left right : Plan} {condition : Expr} {type : JoinType}
  {typed : List (Nat × SqlType)} {columns : List (Nat × List Expr)}

theorem exists_side (b : Basis Q) (id : Nat) (left right : Plan) (condition : Expr)
    (type : JoinType) (c : Nat) :
    ∃ s own, (if c < left.width then (Subject.input 0, c) else (.input 1, c - left.width)) =
        (s, own) ∧
      b.node? (.join id left right condition type) s = some (sideOf left right c).1 ∧
      (sideOf left right c).2 = own := by
  unfold sideOf
  split
  · exact ⟨_, _, rfl, rfl, rfl⟩
  · exact ⟨_, _, rfl, rfl, rfl⟩

theorem gives_perColumn :
    b.Gives (.join id left right condition type) (perColumn left.width typed)
      (.ok (some columns)) ↔ List.Forall₂ (b.ColumnLineages left right) typed columns := by
  constructor
  · intro h
    induction typed generalizing columns with
    | nil =>
      cases gives_known.1 h
      exact .nil
    | cons first rest ih =>
      obtain ⟨c, t⟩ := first
      obtain ⟨s, own, hside, hs, hown⟩ := exists_side b id left right condition type c
      simp only [perColumn, hside] at h
      obtain ⟨found, hfound, h⟩ := gives_bind.1 h
      match found with
      | none | some [] => cases gives_unknown.1 h
      | some (option :: more) =>
        obtain ⟨others, hothers, h⟩ := gives_bind.1 h
        cases others with
        | none => cases gives_unknown.1 h
        | some others =>
          cases gives_known.1 h
          subst hown
          exact .cons ⟨rfl, List.cons_ne_nil _ _, answers_input hs hfound⟩ (ih hothers)
  · intro h
    induction h with
    | nil => exact gives_known.2 rfl
    | @cons r column rest others hfirst _ ih =>
      obtain ⟨c, t⟩ := r
      obtain ⟨place, options⟩ := column
      obtain ⟨hplace, hne, hanswers⟩ := hfirst
      obtain rfl : place = c := hplace
      obtain ⟨s, own, hside, hs, rfl⟩ := exists_side b id left right condition type place
      obtain ⟨option, more, rfl⟩ := List.exists_cons_of_ne_nil hne
      simp only [perColumn, hside]
      refine gives_bind.2 ⟨some (option :: more), gives_expressionLineage.2 ⟨_, hs, hanswers⟩, ?_⟩
      exact gives_bind.2 ⟨some others, ih, gives_known.2 rfl⟩

end Columns

theorem substitute_of_mem_join {id : Nat} {left right : Plan} {condition l : Expr}
    {type : JoinType} (h : b.Gives (.join id left right condition type)
      (ofJoin b.setting (.join id left right condition type) (.expr e)) (.ok (some (.exprs exprs))))
    (hl : l ∈ exprs) :
    ∃ g : Nat → SqlType → Except Unit Expr, e.substitute g = .ok l ∧
      ∀ i t d, g i t = .ok d → ∃ input ∈ [left, right], ∃ own t' options,
        b.Answers input ⟨.expressionLineage, .expr (.column own t')⟩
          (.ok (some (.exprs options))) ∧ d ∈ options := by
  obtain ⟨found, hfound, h⟩ := gives_bind.1 h
  cases found with
  | none => cases gives_unknown.1 h
  | some columns =>
    obtain ⟨count, -, h⟩ := gives_bind.1 h
    split at h
    · cases gives_unknown.1 h
    · cases gives_known.1 h
      obtain ⟨n, -, hreplaced⟩ := List.mem_filterMap.1 hl
      obtain ⟨g, hg, hlookup⟩ := substitute_of_replace hreplaced
      refine ⟨g, hg, fun i t d hd => ?_⟩
      obtain ⟨before, after, hsplit, -⟩ := List.lookup_eq_some_iff.1 (hlookup i t d hd)
      have hchoice : (i, d) ∈ choice n columns := by simp [hsplit]
      obtain ⟨options, hoptions, hmem⟩ := mem_of_mem_choice hchoice
      obtain ⟨r, -, -, -, hanswers⟩ := forall₂_exists_mem (gives_perColumn.1 hfound) hoptions
      exact ⟨_, sideOf_mem r.1, _, _, options, hanswers, hmem⟩

variable [Quantity Q]

theorem lineages_of_answers (hrules : b.rules = .builtin)
    (h : b.Answers p ⟨.expressionLineage, .expr e⟩ (.ok (some (.exprs exprs)))) :
    b.Lineages p e exprs := by
  have hnone : ∀ {kind}, p.kind = kind →
      RuleTable.builtin.lookup kind .expressionLineage = (none : Option (Rule Q)) →
      b.Lineages p e exprs := by
    rintro _ rfl hnone
    obtain ⟨rule, hrule, -⟩ := answers_some.1 h
    rw [hrules, hnone] at hrule
    cases hrule
  cases p with
  | scan id table shape notes =>
    have hgives := gives_of_builtin hrules h rfl
    simp only [ofScan] at hgives
    split at hgives
    next occurrence heq hoccurrence =>
      cases heq
      split at hgives
      next traced htraced =>
        cases gives_known.1 hgives
        obtain ⟨g, hg, hcolumn⟩ := substitute_of_replace htraced
        refine .scan hoccurrence hg fun i t d hd => ?_
        have hplaced := hcolumn i t d hd
        split at hplaced
        next hi => exact ⟨hi, (Option.some.inj hplaced).symm⟩
        · cases hplaced
      · cases gives_unknown.1 hgives
    · cases gives_unknown.1 hgives
  | values => exact hnone rfl rfl
  | filter => exact .filter (answers_of_passedOn rfl (gives_of_builtin hrules h rfl))
  | project id input columns =>
    have hgives := gives_of_builtin hrules h rfl
    simp only [ofProject] at hgives
    split at hgives
    next pushed hpushed =>
      obtain ⟨found, hfound, hfact⟩ := gives_report.1 hgives
      cases hfact
      obtain ⟨g, hg, hcolumn⟩ := substitute_of_throughProjection hpushed
      exact .project hg hcolumn (answers_input rfl hfound)
    · cases gives_unknown.1 hgives
  | aggregate id input sets calls indicator =>
    have hgives := gives_of_builtin hrules h rfl
    simp only [ofAggregate] at hgives
    split at hgives
    next pushed hpushed =>
      obtain ⟨found, hfound, hfact⟩ := gives_report.1 hgives
      cases hfact
      obtain ⟨g, hg, hcolumn⟩ := substitute_of_replace hpushed
      refine .aggregate hg (fun i t d hd => ?_) (answers_input rfl hfound)
      exact Option.map_eq_some_iff.1 (hcolumn i t d hd)
    · cases gives_unknown.1 hgives
  | join =>
    have hgives := gives_of_builtin hrules h rfl
    exact .join (lineage_join hgives) fun l hl => substitute_of_mem_join hgives hl
  | setOp id op inputs all =>
    cases op with
    | union =>
      obtain ⟨found, hfound, hgives⟩ := gives_bind.1 (gives_of_builtin hrules h rfl)
      cases found with
      | none => cases gives_unknown.1 hgives
      | some lists =>
        simp only at hgives
        split at hgives
        · cases gives_unknown.1 hgives
        · cases gives_known.1 hgives
          refine .union ((gives_inputs hfound).imp ?_)
          rintro input exprs ⟨i, hs, hinput⟩
          exact answers_input hs hinput
    | intersect | minus => exact hnone rfl rfl
  | sort => exact .sort (answers_of_passedOn rfl (gives_of_builtin hrules h rfl))
  | exchange => exact .exchange (answers_of_passedOn rfl (gives_of_builtin hrules h rfl))
  | other => exact hnone rfl rfl

theorem mem_lineage_of_constant (hrules : b.rules = .builtin) (hvalid : p.Valid)
    (he : e.readings = [])
    (h : b.Answers p ⟨.expressionLineage, .expr e⟩ (.ok (some (.exprs exprs)))) : e ∈ exprs := by
  induction p using Plan.inputInduction generalizing exprs with
  | node p ih =>
    have hinput {input : Plan} (hchild : input ∈ p.children) {exprs : List Expr}
        (h : b.Answers input ⟨.expressionLineage, .expr e⟩ (.ok (some (.exprs exprs)))) :
        e ∈ exprs :=
      ih input hchild (hvalid.child hchild) h
    cases lineages_of_answers hrules h with
    | scan _ htraced _ => exact List.mem_singleton.2 (eq_of_substitute he htraced).symm
    | filter hbelow | sort hbelow | exchange hbelow => exact hinput List.mem_cons_self hbelow
    | project hpushed _ hbelow | aggregate hpushed _ hbelow =>
      obtain rfl := eq_of_substitute he hpushed
      exact hinput List.mem_cons_self hbelow
    | join hself _ =>
      rw [hself he]
      exact List.mem_singleton_self e
    | union hlists =>
      rw [List.mem_eraseDups]
      cases hlists with
      | nil => cases hvalid with | node hcheck _ => cases hcheck
      | cons hfirst _ => exact List.mem_append_left _ (hinput List.mem_cons_self hfirst)

def Traceable (b : Basis Q) (contents : Contents) (p : Plan) (row : Row) : Prop :=
  ∀ e exprs, e.Over p.width →
    b.Answers p ⟨.expressionLineage, .expr e⟩ (.ok (some (.exprs exprs))) →
    ∃ l ∈ exprs, p.Traced b.setting.occurrence? contents (e.evaluate p.schema row) l

omit [Quantity Q] in
theorem Traceable.above {child : Plan} {source : Row} {pushed : Expr}
    (h : b.Traceable contents child source) (hchild : child ∈ p.children)
    (hpushed : pushed.Over child.width ∧
      e.evaluate p.schema row = pushed.evaluate child.schema source)
    (hbelow : b.Answers child ⟨.expressionLineage, .expr pushed⟩ (.ok (some (.exprs exprs)))) :
    ∃ l ∈ exprs, p.Traced b.setting.occurrence? contents (e.evaluate p.schema row) l := by
  obtain ⟨l, hl, htraced⟩ := h pushed exprs hpushed.1 hbelow
  rw [← hpushed.2] at htraced
  exact ⟨l, hl, htraced.above (Plan.mem_nodes_of_mem_children hchild)⟩

/-- By induction over where the row comes from: the expression has on it the outcome that the
expression asked of the input has on the input's row. -/
theorem traceable (hrules : b.rules = .builtin) (hrow : p.Emitted contents row)
    (hvalid : p.Valid) (hsingle : p.SinglyGrouped) : b.Traceable contents p row := by
  induction hrow with
  | scan hrow hwidth =>
    intro e exprs he h
    cases lineages_of_answers hrules h with
    | scan hoccurrence htraced hg =>
      have hplaced := he.placed htraced fun i t d hd => (hg i t d hd).2
      refine ⟨_, List.mem_singleton_self _, .scanned (Plan.self_mem_nodes _) hoccurrence hrow
        hplaced.readings hplaced.tables ?_⟩
      rw [hplaced.overTable, Plan.schema]
  | values =>
    intro e exprs he h
    cases lineages_of_answers hrules h
  | filter _ _ ih =>
    have hinput := ih (hvalid.child List.mem_cons_self) (hsingle.child List.mem_cons_self)
    intro e exprs he h
    cases lineages_of_answers hrules h with
    | filter hbelow => exact hinput.above List.mem_cons_self ⟨he, rfl⟩ hbelow
  | project _ hcolumns ih =>
    have hinput := ih (hvalid.child List.mem_cons_self) (hsingle.child List.mem_cons_self)
    intro e exprs he h
    cases lineages_of_answers hrules h with
    | project hpushed hg hbelow =>
      refine hinput.above List.mem_cons_self (he.evaluate_substitute hpushed ?_) hbelow
      intro r hr d hd
      obtain ⟨c, hc, rfl⟩ := hg _ _ _ hd
      exact forall₂_exists_getElem? hcolumns hc
  | @aggregate id input sets calls indicator set source rest key _ hset hkey ih =>
    have hinput := ih (hvalid.child List.mem_cons_self) (hsingle.child List.mem_cons_self)
    obtain rfl := hsingle.eq_singleton hset
    have hkeys := Grouping.eq_of_keyOf hkey
    obtain ⟨hcheck, -⟩ := hvalid
    rw [Plan.groupColumns_singleton, Grouping.keyColumns_self hkeys.length_eq.symm]
    intro e exprs he h
    cases lineages_of_answers hrules h with
    | aggregate hpushed hg hbelow =>
      refine hinput.above List.mem_cons_self (he.evaluate_substitute hpushed ?_) hbelow
      intro r hr d hd
      obtain ⟨c, hc, rfl⟩ := hg _ _ _ hd
      have hc' : c < input.schema.length :=
        Plan.lt_of_checkAggregate hcheck (List.mem_of_getElem? hc)
      rw [Plan.groupColumns_singleton] at hc
      obtain ⟨v, hv, hsource⟩ := forall₂_exists_getElem? hkeys hc
      have hrow : (key ++ rest)[r.1]? = some v := by
        rw [List.getElem?_append_left (List.getElem?_eq_some_iff.1 hv).1, hv]
      exact ⟨v, hrow, Expr.evaluate_column hc' hsource⟩
  | @emptyGroup id input sets calls indicator set rest hset hempty =>
    obtain rfl := hsingle.eq_singleton hset
    intro e exprs he h
    cases lineages_of_answers hrules h with
    | aggregate hpushed hg hbelow =>
      -- without a grouping column only an expression without columns is asked of the input
      have hcolumns : e.readings = [] := by
        refine List.eq_nil_iff_forall_not_mem.2 fun r hr => ?_
        obtain ⟨d, hd⟩ := Expr.exists_of_substitute hpushed r hr
        obtain ⟨c, hc, -⟩ := hg _ _ _ hd
        rw [Plan.groupColumns_singleton, ColumnSet.isEmpty_iff.1 hempty] at hc
        cases hc
      exact ⟨e, mem_lineage_of_constant hrules hvalid hcolumns h,
        Plan.traced_constant he hcolumns _ _⟩
  | @union id inputs child row hchild _ ih =>
    have hmem : child ∈ (Plan.setOp id .union inputs true).children := hchild
    have hinput := ih (hvalid.child hmem) (hsingle.child hmem)
    have hwidth := Plan.width_union hvalid hchild
    intro e exprs he h
    cases lineages_of_answers hrules h with
    | @union _ _ _ _ lists hlists =>
      obtain ⟨list, hlist, hbelow⟩ := forall₂_exists_mem (List.Forall₂.flip hlists) hchild
      obtain ⟨l, hl, htraced⟩ :=
        hinput.above hmem ⟨hwidth ▸ he, Expr.Over.evaluate_eq he hwidth row⟩ hbelow
      exact ⟨l, List.mem_eraseDups.2 (List.mem_flatten.2 ⟨list, hlist, hl⟩), htraced⟩
  | sort _ ih =>
    have hinput := ih (hvalid.child List.mem_cons_self) (hsingle.child List.mem_cons_self)
    intro e exprs he h
    cases lineages_of_answers hrules h with
    | sort hbelow => exact hinput.above List.mem_cons_self ⟨he, rfl⟩ hbelow
  | exchange _ ih =>
    have hinput := ih (hvalid.child List.mem_cons_self) (hsingle.child List.mem_cons_self)
    intro e exprs he h
    cases lineages_of_answers hrules h with
    | exchange hbelow => exact hinput.above List.mem_cons_self ⟨he, rfl⟩ hbelow

end Basis

namespace Query
open Metadata.Basis
variable {Q : Type} [Quantity Q] {root node : Plan} {fresh q : Query Q}
  {registry : UserAggregate.Registry} {contents : Contents} {emission : Emission} {e : Expr}
  {exprs : List Expr}

/-- Whatever was asked before, an expression has on every row that a node emits the outcome of one
of the lineages that are found for it. -/
theorem expressionLineage_sound {α : Type} {source : TableSource Q} {scanRows : Q} {splits : Nat}
    {caching : Bool} {earlier : List (Plan × Inquiry Q α)} {outcomes : List (Except Error α)}
    {q' : Query Q} (hfresh : ofPlan root .builtin source scanRows splits caching = .ok fresh)
    (hearlier : ∀ r ∈ earlier, r.1 ∈ root.nodes)
    (hserve : fresh.serve earlier = some (outcomes, q)) (hnode : node ∈ root.nodes)
    (hvalid : node.Valid) (hsingle : node.SinglyGrouped)
    (hstart : node.start registry contents = .ok emission) (he : e.Over node.width)
    (hexprs : q.inquire node (expressionLineage .self e) = some (.ok (some exprs), q')) :
    ∀ row ∈ emission.rows, ∃ l ∈ exprs,
      node.Traced (root.occurrences.lookup ·) contents (e.evaluate node.schema row) l := by
  obtain ⟨hbasis, ids, hmemo⟩ := serve_fresh hfresh hearlier hserve
  have hrules : q.rules = .builtin := by rw [hbasis]
  have hoccurrence : q.setting.occurrence? = (root.occurrences.lookup ·) := by rw [hbasis]
  have hmem : node ∈ q.root.nodes := by rw [hbasis]; exact hnode
  obtain ⟨-, -, hgives⟩ := inquire_sound ids hmemo hmem hexprs
  intro row hrow
  have htraceable := traceable hrules (Plan.emitted_of_start hstart hrow) hvalid hsingle
  rw [← hoccurrence]
  exact htraceable e exprs he (answers_input rfl hgives)

theorem expressionLineage_sound_customers :
    let table : TableRef := ⟨7, "main", "orders"⟩
    let shape : Schema := [⟨"id", .int64 false, {}⟩, ⟨"customer", .int64 false, {}⟩]
    let source : TableSource Binary64 :=
      ⟨fun _ => .error (.planning (.unknownTableId 7)), fun _ => .ok none⟩
    let contents : Contents := fun _ =>
      [[.int64 1, .int64 5], [.int64 2, .int64 5], [.int64 3, .int64 6]]
    let grouped : Plan := .aggregate 1 (.scan 0 table shape) [.ofList [1]] [] false
    let next (customer : Expr) : Expr :=
      .call (.arith .plus) [customer, .literal (.int64 1) (.int64 false)] (.int64 false)
    let p : Plan := .project 2 grouped [⟨next (.column 0 (.int64 false)), "next"⟩]
    let traced : Expr := next (.tableColumn ⟨"main.orders", 0⟩ 1 (.int64 false))
    ∃ fresh q', ofPlan p .builtin source Quantity.one 1 true = .ok fresh ∧
      p.start {} contents = .ok ⟨[[.int64 6], [.int64 7]], none⟩ ∧
      fresh.inquire p (expressionLineage .self (.column 0 (.int64 false))) =
        some (.ok (some [traced]), q') ∧
      ∀ row ∈ [[.int64 6], [.int64 7]], ∃ l ∈ [traced], p.Traced (p.occurrences.lookup ·) contents
        ((Expr.column 0 (.int64 false)).evaluate p.schema row) l := by
  intro table shape source contents grouped next p traced
  obtain ⟨fresh, hfresh⟩ : ∃ fresh : Query Binary64,
      ofPlan p .builtin source Quantity.one 1 true = .ok fresh := ⟨_, rfl⟩
  have hnode : p ∈ p.nodes := Plan.self_mem_nodes p
  have hserve : fresh.serve ([] : List (Plan × Inquiry Binary64 Unit)) = some ([], fresh) := rfl
  have hvalid : p.Valid := by
    refine .node rfl (List.forall_mem_singleton.2 (.node rfl (List.forall_mem_singleton.2 ?_)))
    exact .node rfl fun _ hc => absurd hc List.not_mem_nil
  have hsingle : p.SinglyGrouped := by
    intro id input sets calls indicator h
    simp only [p, grouped, Plan.nodes_eq_cons, Plan.children, List.flatMap_cons, List.flatMap_nil,
      List.append_nil, List.mem_cons, List.not_mem_nil, reduceCtorEq, or_false, false_or,
      Plan.aggregate.injEq] at h
    obtain ⟨-, -, rfl, -⟩ := h
    rfl
  have hstart : p.start {} contents = .ok ⟨[[.int64 6], [.int64 7]], none⟩ := rfl
  have he : (Expr.column 0 (.int64 false)).Over p.width := .column Nat.one_pos _
  have hgives : fresh.Gives p (expressionLineage .self (.column 0 (.int64 false)))
      (.ok (some [traced])) := by
    obtain ⟨-, rfl⟩ := ofPlan_eq_ok hfresh
    refine gives_expressionLineage.2 ⟨p, rfl, answers_some.2 ⟨_, rfl, ?_⟩⟩
    refine gives_report.2 ⟨[traced], ?_, rfl⟩
    refine gives_expressionLineage.2 ⟨grouped, rfl, answers_some.2 ⟨_, rfl, ?_⟩⟩
    refine gives_report.2 ⟨[traced], ?_, rfl⟩
    refine gives_expressionLineage.2 ⟨.scan 0 table shape, rfl, answers_some.2 ⟨_, rfl, ?_⟩⟩
    exact gives_known.2 rfl
  obtain ⟨q', hinquire⟩ := inquire_fresh hfresh hnode hgives
  exact ⟨fresh, q', hfresh, hstart, hinquire,
    expressionLineage_sound hfresh (by simp) hserve hnode hvalid hsingle hstart he hinquire⟩

end Query
end Metadata
end Relational
