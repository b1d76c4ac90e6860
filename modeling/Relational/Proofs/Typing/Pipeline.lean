import Relational.Execution.Build
import Relational.Proofs.Execution.Sorting
import Relational.Proofs.Plan.Nodes
import Relational.Proofs.Typing.Grouping

/-!
# Type soundness of the pipeline

A valid plan of checked expressions and calls has a unit, whose schema is the plan's. Over tables
that conform to the scans, every row that it emits conforms to that schema, and it fails only with
an error that depends on the data.
-/
namespace Relational

structure Emission.Conforms (e : Emission) (schema : Schema) : Prop where
  rows : ∀ row ∈ e.rows, row.Conforms schema
  failure : ∀ error, e.failure = some error → error.DataDependent

namespace Emission
variable {e : Emission} {schema out : Schema}

theorem ofRows_conforms {rows : List Row} (h : ∀ row ∈ rows, row.Conforms schema) :
    Conforms ⟨rows, none⟩ schema :=
  ⟨h, by simp⟩

theorem fail_conforms {error : Error} (h : error.DataDependent) : (fail error).Conforms schema :=
  ⟨by simp [fail], by simpa [fail] using h⟩

theorem Conforms.prepend (h : e.Conforms schema) {rows : List Row}
    (hrows : ∀ row ∈ rows, row.Conforms schema) : (e.prepend rows).Conforms schema :=
  ⟨fun row hrow => (List.mem_append.1 hrow).elim (hrows row) (h.rows row), h.failure⟩

theorem concat_conforms {es : List Emission} (h : ∀ e ∈ es, e.Conforms schema) :
    (concat es).Conforms schema := by
  induction es with
  | nil => exact ofRows_conforms (by simp)
  | cons e rest ih =>
    obtain ⟨he, hrest⟩ := List.forall_mem_cons.1 h
    rw [concat, append]
    split
    · exact he
    · exact (ih hrest).prepend he.rows

theorem sequence_conforms {last : Option Error} (hlast : ∀ e, last = some e → e.DataDependent)
    {outcomes : List (Except Error (List Row))}
    (h : ∀ x ∈ outcomes, Yields (∀ row ∈ ·, row.Conforms schema) x) :
    (sequence last outcomes).Conforms schema := by
  induction outcomes with
  | nil => exact ⟨by simp [sequence], hlast⟩
  | cons x rest ih =>
    obtain ⟨hx, hrest⟩ := List.forall_mem_cons.1 h
    cases x with
    | ok rows => exact (ih hrest).prepend hx
    | error e => exact fail_conforms hx

theorem Conforms.through (h : e.Conforms schema) {f : Row → Except Error (List Row)}
    (hf : ∀ row, row.Conforms schema → Yields (∀ row ∈ ·, row.Conforms out) (f row)) :
    (e.through f).Conforms out := by
  refine sequence_conforms h.failure fun x hx => ?_
  obtain ⟨row, hrow, rfl⟩ := List.mem_map.1 hx
  exact hf row (h.rows row hrow)

theorem Conforms.result (h : e.Conforms schema) :
    Yields (∀ row ∈ ·, row.Conforms schema) e.result := by
  unfold Emission.result
  split
  · exact h.rows
  next error hfailure => exact h.failure error hfailure

theorem ofResult_conforms {x : Except Error (List Row)}
    (h : Yields (∀ row ∈ ·, row.Conforms schema) x) : (ofResult x).Conforms schema := by
  cases x with
  | ok rows => exact ofRows_conforms h
  | error e => exact fail_conforms h

end Emission

namespace ExecUnit
open Grouping
variable {input : ExecUnit} {contents : Contents} {schema : Schema}

/-- Over the contents the unit emits rows of the schema. -/
def Delivers (u : ExecUnit) (contents : Contents) (schema : Schema) : Prop :=
  ∃ e, u.run contents = .ok e ∧ e.Conforms schema

theorem scan_delivers {table : TableRef} (h : ∀ row ∈ contents table, row.Conforms schema) :
    (scan table schema).Delivers contents schema := by
  have hwidth : (contents table).find? (fun r => r.length != schema.length) = none := by
    simpa using fun row hrow => (h row hrow).length_eq
  exact ⟨⟨contents table, none⟩, by simp only [scan, hwidth], Emission.ofRows_conforms h⟩

theorem values_delivers {rows : List Row} (h : ∀ row ∈ rows, row.Conforms schema) :
    (values rows schema).Delivers contents schema :=
  ⟨⟨rows, none⟩, rfl, Emission.ofRows_conforms h⟩

theorem filter_delivers (h : input.Delivers contents schema) {predicate : Compiled}
    (hpredicate : predicate.Sound schema) :
    (filter input predicate).Delivers contents schema := by
  obtain ⟨e, he, hconforms⟩ := h
  refine ⟨_, by simp only [filter, he, ok_bind]; rfl, hconforms.through fun row hrow => ?_⟩
  refine (hpredicate row hrow).bind fun v _ => ?_
  split <;> simp [Yields, hrow]

theorem project_delivers {out : Schema} (h : input.Delivers contents schema)
    {exprs : List Compiled}
    (hexprs : List.Forall₂ (fun c f => c.type = f.type.dataType ∧ c.Sound schema) exprs out) :
    (project input exprs out).Delivers contents out := by
  obtain ⟨e, he, hconforms⟩ := h
  refine ⟨_, by simp only [project, he, ok_bind]; rfl, hconforms.through fun row hrow => ?_⟩
  exact (Program.step_yields hexprs hrow).bind fun row hrow => by simpa [Yields] using hrow

theorem union_delivers {inputs : List ExecUnit} {out : Schema}
    (h : ∀ u ∈ inputs, u.Delivers contents out) : (union inputs out).Delivers contents out := by
  have hruns : ∃ es, inputs.mapM (fun u => u.run contents) = .ok es ∧
      ∀ e ∈ es, e.Conforms out := by
    induction inputs with
    | nil => exact ⟨[], rfl, by simp⟩
    | cons u rest ih =>
      obtain ⟨⟨e, he, hconforms⟩, hrest⟩ := List.forall_mem_cons.1 h
      obtain ⟨es, hes, hall⟩ := ih hrest
      exact ⟨e :: es, by simp [he, hes], List.forall_mem_cons.2 ⟨hconforms, hall⟩⟩
  obtain ⟨es, hes, hall⟩ := hruns
  exact ⟨_, by simp only [union, hes, ok_bind]; rfl, Emission.concat_conforms hall⟩

theorem sort_delivers (h : input.Delivers contents schema) (collation : Collation)
    (offset fetch : Option Nat) :
    (sort input collation offset fetch).Delivers contents schema := by
  obtain ⟨e, he, hconforms⟩ := h
  refine ⟨_, by simp only [sort, he, ok_bind]; rfl, Emission.ofResult_conforms ?_⟩
  have hresult := hconforms.result
  cases hr : e.result with
  | error error =>
    rw [hr] at hresult
    exact hresult
  | ok rows =>
    rw [hr] at hresult
    exact fun row hrow => hresult row (mem_of_mem_window_sort hrow)

theorem aggregated_conforms {calls : List AggregateCall} {plans : List CallPlan}
    {sets : List ColumnSet} (hplans : Starts schema calls plans)
    (hsets : ∀ c ∈ Plan.groupColumns sets, c < schema.length) (indicator : Bool) {e : Emission}
    (h : e.Conforms schema) :
    (aggregated sets plans indicator e).Conforms (Plan.groupFields schema sets ++
      (if indicator then Plan.indicatorFields schema sets else []) ++ Plan.callFields calls) := by
  have hstates := run_typed hplans hsets h.rows
  have hgroups := hstates.bind fun states hstates => h.result.bind fun _ _ =>
    (show Yields (∀ s ∈ ·, s.Typed schema calls sets) (pure states) from hstates)
  unfold aggregated
  simp only
  split
  next error hfailed =>
    rw [hfailed] at hgroups
    exact Emission.fail_conforms hgroups
  next states hdone =>
    rw [hdone] at hgroups
    refine Emission.concat_conforms fun emission hemission => ?_
    obtain ⟨s, hs, rfl⟩ := List.mem_map.1 hemission
    obtain ⟨groups, hclose, htyped⟩ := close_typed hplans (hgroups s hs)
    simp only [hclose]
    refine Emission.sequence_conforms (by simp) fun x hx => ?_
    obtain ⟨g, hg, rfl⟩ := List.mem_map.1 hx
    refine (outputRow_yields hsets indicator (htyped g hg)).bind fun row hrow => ?_
    simpa [Yields] using hrow

theorem grouped_delivers {calls : List AggregateCall} {plans : List CallPlan}
    {sets : List ColumnSet} (h : input.Delivers contents schema)
    (hplans : Starts schema calls plans)
    (hsets : ∀ c ∈ Plan.groupColumns sets, c < schema.length) (indicator : Bool)
    (shape : Schema) :
    (grouped input sets plans indicator shape).Delivers contents
      (Plan.groupFields schema sets ++
        (if indicator then Plan.indicatorFields schema sets else []) ++
        Plan.callFields calls) := by
  obtain ⟨e, he, hconforms⟩ := h
  exact ⟨_, by simp only [grouped, he, ok_bind]; rfl,
    aggregated_conforms hplans hsets indicator hconforms⟩

end ExecUnit

namespace Plan
open ExecUnit
variable {p : Plan} {registry : UserAggregate.Registry} {contents : Contents}

/-- Made of the operators that are executed, with expressions and calls that were checked where
they stand. -/
inductive Pipeline : Plan → Prop
  | scan (id : Nat) (table : TableRef) (shape : Schema) (notes : Notes) :
    Pipeline (.scan id table shape notes)
  | values (id : Nat) (rows : List Row) (shape : Schema) (notes : Notes) :
    Pipeline (.values id rows shape notes)
  | filter (id : Nat) {input : Plan} {predicate : Expr} (h : Pipeline input)
      (built : predicate.Built input.schema) : Pipeline (.filter id input predicate)
  | project (id : Nat) {input : Plan} {columns : List Projection} (h : Pipeline input)
      (built : ∀ c ∈ columns, c.expr.Built input.schema) : Pipeline (.project id input columns)
  | aggregate (id : Nat) {input : Plan} (sets : List ColumnSet) {calls : List AggregateCall}
      (indicator : Bool) (h : Pipeline input) (built : ∀ c ∈ calls, c.Built input.schema) :
    Pipeline (.aggregate id input sets calls indicator)
  | union (id : Nat) {inputs : List Plan} (h : ∀ p ∈ inputs, Pipeline p) :
    Pipeline (.setOp id .union inputs true)
  | sort (id : Nat) {input : Plan} (collation : Collation) (offset fetch : Option Nat)
      (h : Pipeline input) : Pipeline (.sort id input collation offset fetch)
  | exchange (id : Nat) {input : Plan} (distribution : Distribution) (h : Pipeline input) :
    Pipeline (.exchange id input distribution)

def Feeds (contents : Contents) (p : Plan) : Prop :=
  ∀ id table shape notes, .scan id table shape notes ∈ p.nodes →
    ∀ row ∈ contents table, row.Conforms shape

theorem Feeds.child (h : Feeds contents p) {child : Plan} (hchild : child ∈ p.children) :
    Feeds contents child := fun id table shape notes hscan =>
  h id table shape notes (mem_nodes_trans (mem_nodes_of_mem_children hchild) hscan)

theorem Valid.check (h : p.Valid) : p.check = .ok () := by
  cases h with | node h _ => exact h

theorem Valid.child (h : p.Valid) {child : Plan} (hchild : child ∈ p.children) : child.Valid := by
  cases h with | node _ h => exact h child hchild

def Executes (registry : UserAggregate.Registry) (p : Plan) : Prop :=
  ∃ unit, p.executable registry = .ok unit ∧ unit.schema = p.schema ∧
    ∀ contents, Feeds contents p → unit.Delivers contents p.schema

theorem executes_scan (id : Nat) (table : TableRef) (shape : Schema) (notes : Notes) :
    Executes registry (.scan id table shape notes) :=
  ⟨_, rfl, rfl, fun _ h => scan_delivers (h id table shape notes (self_mem_nodes _))⟩

theorem conforms_of_fits {v : Value} {f : Field} (h : fits v f = true) :
    v.Conforms f.type.dataType := by
  unfold fits at h
  split at h
  next hnull => exact .inl (v.isNull_iff.1 hnull)
  · exact .inr (.inl (beq_iff_eq.1 h))

theorem fits_of_checkRow {shape : Schema} {r : Nat} {row : Row}
    (h : checkRow shape r row = .ok ()) : List.Forall₂ (fun v f => fits v f = true) row shape := by
  simp only [checkRow, bind_eq_ok, require_eq_ok] at h
  obtain ⟨_, hlength, h⟩ := h
  refine List.forall₂_iff_zip.2 ⟨by simpa using hlength, fun {v f} hvf => ?_⟩
  exact require_eq_ok.1 (forM_eq_ok.1 h (v, f) hvf)

theorem fits_of_check {id : Nat} {rows : List Row} {shape : Schema} {notes : Notes}
    (h : (Plan.values id rows shape notes).check = .ok ()) :
    ∀ row ∈ rows, List.Forall₂ (fun v f => fits v f = true) row shape := by
  intro row hrow
  rw [← List.zipIdx_map_fst 0 rows] at hrow
  obtain ⟨⟨_, r⟩, hr, rfl⟩ := List.mem_map.1 hrow
  exact fits_of_checkRow (forM_eq_ok.1 h _ hr)

theorem executes_values {id : Nat} {rows : List Row} {shape : Schema} {notes : Notes}
    (hcheck : (Plan.values id rows shape notes).check = .ok ()) :
    Executes registry (.values id rows shape notes) := by
  refine ⟨_, rfl, rfl, fun _ _ => values_delivers fun row hrow => ?_⟩
  exact (fits_of_check hcheck row hrow).imp fun _ _ => conforms_of_fits

theorem executes_filter {id : Nat} {input : Plan} {predicate : Expr}
    (h : Executes registry input) (built : predicate.Built input.schema) :
    Executes registry (.filter id input predicate) := by
  obtain ⟨unit, hunit, hschema, hdelivers⟩ := h
  obtain ⟨c, hc, -, hsound⟩ := built.compiles
  refine ⟨.filter unit c, by simp [executable, hunit, hschema, hc], hschema, fun contents h => ?_⟩
  exact filter_delivers (hdelivers contents (h.child List.mem_cons_self)) hsound

theorem executes_project {id : Nat} {input : Plan} {columns : List Projection}
    (h : Executes registry input) (built : ∀ c ∈ columns, c.expr.Built input.schema) :
    Executes registry (.project id input columns) := by
  obtain ⟨unit, hunit, hschema, hdelivers⟩ := h
  have hexprs : ∃ exprs, columns.mapM (fun c => c.expr.compile input.schema) = .ok exprs ∧
      List.Forall₂ (fun c f => c.type = f.type.dataType ∧ c.Sound input.schema) exprs
        (columns.map fun c => ({ name := c.name, type := c.expr.type } : Field)) := by
    clear hunit hdelivers
    induction columns with
    | nil => exact ⟨[], rfl, .nil⟩
    | cons column rest ih =>
      obtain ⟨hcolumn, hrest⟩ := List.forall_mem_cons.1 built
      obtain ⟨c, hc, htyped⟩ := hcolumn.compiles
      obtain ⟨cs, hcs, htypes⟩ := ih hrest
      exact ⟨c :: cs, by simp [hc, hcs], .cons htyped htypes⟩
  obtain ⟨exprs, hexprs, htyped⟩ := hexprs
  refine ⟨.project unit exprs (Plan.project id input columns).schema,
    by simp [executable, hunit, hschema, hexprs], rfl, fun contents h => ?_⟩
  exact project_delivers (hdelivers contents (h.child List.mem_cons_self)) htyped

theorem starts_of_built {input : Schema} {calls : List AggregateCall}
    (built : ∀ c ∈ calls, c.Built input) (hchecks : ∀ c ∈ calls, checkCall input c = .ok ())
    (registry : UserAggregate.Registry) :
    ∃ plans, calls.mapM (fun c => CallPlan.ofCall c input registry) = .ok plans ∧
      Grouping.Starts input calls plans := by
  induction calls with
  | nil => exact ⟨[], rfl, .nil⟩
  | cons c rest ih =>
    obtain ⟨hc, hrest⟩ := List.forall_mem_cons.1 built
    obtain ⟨hcheck, hchecks⟩ := List.forall_mem_cons.1 hchecks
    obtain ⟨plan, acc, hplan, hstart, typed⟩ := CallPlan.start_typed hc hcheck registry
    obtain ⟨plans, hplans, hstarts⟩ := ih hrest hchecks
    exact ⟨plan :: plans, by simp [hplan, hplans], .cons ⟨acc, hstart, typed⟩ hstarts⟩

theorem length_columnFields {input : Schema} {columns : List Nat}
    (h : ∀ c ∈ columns, c < input.length) (field : Nat → Field → Field) :
    (columns.filterMap fun c => input[c]?.map (field c)).length = columns.length := by
  induction columns with
  | nil => rfl
  | cons c rest ih =>
    obtain ⟨hc, hrest⟩ := List.forall_mem_cons.1 h
    rw [List.filterMap_cons_some (by rw [List.getElem?_eq_getElem hc]; rfl)]
    simp [ih hrest]

theorem checkAggregateWidth_eq_ok {id : Nat} {input : Plan} {sets : List ColumnSet}
    {calls : List AggregateCall} {indicator : Bool}
    (h : ∀ c ∈ groupColumns sets, c < input.schema.length) :
    checkAggregateWidth (Plan.aggregate id input sets calls indicator).schema sets calls.length
      indicator = .ok () := by
  have hcolumns : ∀ c ∈ (groupColumns sets).columns, c < input.schema.length := h
  have hgroups := length_columnFields hcolumns fun c => nullableField !sets.all (·.contains c)
  have hmarks := length_columnFields hcolumns
    fun _ f => { name := "i$" ++ f.name, type := .boolean false }
  unfold checkAggregateWidth
  simp only [schema, List.length_append, groupFields, hgroups, callFields, List.length_map,
    ColumnSet.size]
  cases indicator <;> simp [indicatorFields, hmarks]

theorem executes_aggregate {id : Nat} {input : Plan} {sets : List ColumnSet}
    {calls : List AggregateCall} {indicator : Bool} (h : Executes registry input)
    (built : ∀ c ∈ calls, c.Built input.schema)
    (hcheck : (Plan.aggregate id input sets calls indicator).check = .ok ()) :
    Executes registry (.aggregate id input sets calls indicator) := by
  obtain ⟨unit, hunit, hschema, hdelivers⟩ := h
  have hsets : ∀ c ∈ groupColumns sets, c < input.schema.length :=
    fun c => lt_of_checkAggregate hcheck
  obtain ⟨plans, hplans, hstarts⟩ :=
    starts_of_built built (checkCall_of_checkAggregate hcheck) registry
  refine ⟨.grouped unit sets plans indicator (Plan.aggregate id input sets calls indicator).schema,
    ?_, rfl, fun contents h => ?_⟩
  · simp [executable, checkAggregateWidth_eq_ok hsets, hunit, ExecUnit.aggregate, hschema, hplans,
      ne_nil_of_checkAggregate hcheck]
  · exact grouped_delivers (hdelivers contents (h.child List.mem_cons_self)) hstarts hsets
      indicator _

def SameTypes (a b : Schema) : Prop :=
  List.Forall₂ (fun f g => f.type.dataType = g.type.dataType) a b

theorem SameTypes.trans {a b c : Schema} (h : SameTypes a b) (hc : SameTypes b c) :
    SameTypes a c := by
  induction h generalizing c with
  | nil => exact hc
  | cons hf _ ih =>
    cases hc with
    | cons hg hrest => exact .cons (hf.trans hg) (ih hrest)

theorem conforms_of_sameTypes {a b : Schema} (h : SameTypes a b) {row : Row}
    (hrow : row.Conforms b) : row.Conforms a := by
  induction h generalizing row with
  | nil => exact hrow
  | cons hf _ ih =>
    cases hrow with
    | cons hv hvs => exact .cons (hf ▸ hv) (ih hvs)

theorem sameTypes_of_checkInputTypes {k : Kind} {i : Nat} {base input : Schema}
    (h : checkInputTypes k i base input = .ok ()) : SameTypes base input := by
  simp only [checkInputTypes, bind_eq_ok, require_eq_ok] at h
  obtain ⟨_, hlength, h⟩ := h
  refine List.forall₂_iff_zip.2 ⟨(by simpa using hlength : _ = _).symm, fun {f g} hfg => ?_⟩
  rw [← List.zipIdx_map_fst 0 (base.zip input)] at hfg
  obtain ⟨⟨_, c⟩, hc, hfg⟩ := List.mem_map.1 hfg
  have := require_eq_ok.1 (forM_eq_ok.1 h _ hc)
  simp_all

theorem sameTypes_nullable {a b c : Schema} (h : SameTypes a b) (hc : SameTypes b c) :
    SameTypes (a.zipWith (fun f g => nullableField g.type.nullable f) c) b := by
  induction h generalizing c with
  | nil => exact .nil
  | cons hf _ ih =>
    cases hc with
    | cons hg hrest => exact .cons hf (ih hrest)

theorem sameTypes_setOpSchema {base : Schema} {rest : List Schema}
    (h : ∀ s ∈ rest, SameTypes base s) : SameTypes (setOpSchema (base :: rest)) base := by
  have hfold (merged : Schema) (hmerged : SameTypes merged base) :
      SameTypes (rest.foldl (fun merged s =>
        merged.zipWith (fun f g => nullableField g.type.nullable f) s) merged) base := by
    induction rest generalizing merged with
    | nil => exact hmerged
    | cons s rest ih =>
      obtain ⟨hs, hrest⟩ := List.forall_mem_cons.1 h
      exact ih hrest _ (sameTypes_nullable hmerged hs)
  exact hfold base (List.forall₂_same.2 fun _ _ => rfl)

theorem schemas_eq_map (inputs : List Plan) : schemas inputs = inputs.map schema := by
  induction inputs with
  | nil => rfl
  | cons p rest ih => rw [schemas, ih, List.map_cons]

theorem sameTypes_of_checkSetOp_cons {k : Kind} {base : Schema} {rest : List Schema}
    (h : checkSetOp k (base :: rest) = .ok ()) : ∀ s ∈ rest, SameTypes base s := by
  intro s hs
  rw [← List.zipIdx_map_fst 1 rest] at hs
  obtain ⟨⟨_, i⟩, hi, rfl⟩ := List.mem_map.1 hs
  exact sameTypes_of_checkInputTypes (forM_eq_ok.1 h _ hi)

theorem sameTypes_of_checkSetOp {k : Kind} {inputs : List Schema}
    (h : checkSetOp k inputs = .ok ()) : ∀ s ∈ inputs, SameTypes (setOpSchema inputs) s := by
  cases inputs with
  | nil => cases h
  | cons base rest =>
    have hrest := sameTypes_of_checkSetOp_cons h
    have hbase := sameTypes_setOpSchema hrest
    intro s hs
    rcases List.mem_cons.1 hs with rfl | hs
    · exact hbase
    · exact hbase.trans (hrest s hs)

theorem executes_union {id : Nat} {inputs : List Plan}
    (h : ∀ p ∈ inputs, Executes registry p)
    (hcheck : (Plan.setOp id .union inputs true).check = .ok ()) :
    Executes registry (.setOp id .union inputs true) := by
  let out := (Plan.setOp id .union inputs true).schema
  have htypes : ∀ p ∈ inputs, SameTypes out p.schema := fun p hp =>
    sameTypes_of_checkSetOp hcheck _ (by rw [schemas_eq_map]; exact List.mem_map_of_mem hp)
  have hunits : ∀ ps : List Plan, (∀ p ∈ ps, p ∈ inputs) →
      ∃ units, executables registry ps = .ok units ∧
        ∀ contents, Feeds contents (.setOp id .union inputs true) →
          ∀ u ∈ units, u.Delivers contents out := by
    intro ps hps
    induction ps with
    | nil => exact ⟨[], rfl, by simp⟩
    | cons p rest ih =>
      obtain ⟨hp, hrest⟩ := List.forall_mem_cons.1 hps
      obtain ⟨unit, hunit, -, hdelivers⟩ := h p hp
      obtain ⟨units, hunits, hall⟩ := ih hrest
      refine ⟨unit :: units, by simp [executables, hunit, hunits], fun contents h => ?_⟩
      refine List.forall_mem_cons.2 ⟨?_, hall contents h⟩
      obtain ⟨e, he, hconforms⟩ := hdelivers contents (h.child hp)
      exact ⟨e, he, fun row hrow => conforms_of_sameTypes (htypes p hp) (hconforms.rows row hrow),
        hconforms.failure⟩
  obtain ⟨units, hunits, hall⟩ := hunits inputs fun _ hp => hp
  exact ⟨.union units out, by simp [executable, hunits, out], rfl, fun contents h =>
    union_delivers (hall contents h)⟩

theorem executes_sort {id : Nat} {input : Plan} {collation : Collation}
    {offset fetch : Option Nat} (h : Executes registry input) :
    Executes registry (.sort id input collation offset fetch) := by
  obtain ⟨unit, hunit, hschema, hdelivers⟩ := h
  refine ⟨.sort unit collation offset fetch, by simp [executable, hunit], hschema,
    fun contents h => ?_⟩
  exact sort_delivers (hdelivers contents (h.child List.mem_cons_self)) _ _ _

theorem executes_exchange {id : Nat} {input : Plan} {distribution : Distribution}
    (h : Executes registry input) : Executes registry (.exchange id input distribution) := by
  obtain ⟨unit, hunit, hschema, hdelivers⟩ := h
  refine ⟨.exchange unit, by simp [executable, hunit], hschema, fun contents h => ?_⟩
  exact hdelivers contents (h.child List.mem_cons_self)

theorem Pipeline.executes (h : p.Pipeline) (valid : p.Valid) : Executes registry p := by
  induction h with
  | scan id table shape notes => exact executes_scan id table shape notes
  | values id rows shape notes => exact executes_values valid.check
  | filter id _ built ih => exact executes_filter (ih (valid.child List.mem_cons_self)) built
  | project id _ built ih => exact executes_project (ih (valid.child List.mem_cons_self)) built
  | aggregate id sets indicator _ built ih =>
    exact executes_aggregate (ih (valid.child List.mem_cons_self)) built valid.check
  | union id _ ih => exact executes_union (fun p hp => ih p hp (valid.child hp)) valid.check
  | sort id collation offset fetch _ ih => exact executes_sort (ih (valid.child List.mem_cons_self))
  | exchange id distribution _ ih => exact executes_exchange (ih (valid.child List.mem_cons_self))

/-- A valid plan of the operators that are executed runs over all conforming contents, to rows of
its schema or an error that depends on the data. -/
theorem executable_type_safe (valid : p.Valid) (pipeline : p.Pipeline)
    (registry : UserAggregate.Registry) :
    ∃ unit, p.executable registry = .ok unit ∧ unit.schema = p.schema ∧
      ∀ contents, Feeds contents p → ∃ e, unit.run contents = .ok e ∧
        (∀ row ∈ e.rows, row.Conforms p.schema) ∧
        ∀ error, e.failure = some error → error.DataDependent := by
  have hexecutes : Executes registry p := pipeline.executes valid
  obtain ⟨unit, hunit, hschema, hdelivers⟩ := hexecutes
  refine ⟨unit, hunit, hschema, fun contents h => ?_⟩
  obtain ⟨e, he, hconforms⟩ := hdelivers contents h
  exact ⟨e, he, hconforms.rows, hconforms.failure⟩

theorem executable_type_safe_paid_orders :
    let shape : Schema := [⟨"customer", .int64 false, {}⟩, ⟨"paid", .boolean true, {}⟩]
    let orders : Plan := .scan 1 ⟨7, "main", "orders"⟩ shape
    let paid : Plan := .filter 2 orders (.column 1 (.boolean true))
    let p : Plan := .aggregate 3 paid [.ofList [0]]
      [⟨.sum, [0], some 1, "total", .int64 true⟩] false
    p.Valid ∧ p.Pipeline ∧ ∃ unit, p.executable {} = .ok unit ∧ unit.schema = p.schema ∧
      ∀ contents, Feeds contents p → ∃ e, unit.run contents = .ok e ∧
        (∀ row ∈ e.rows, row.Conforms p.schema) ∧
        ∀ error, e.failure = some error → error.DataDependent := by
  intro shape orders paid p
  have valid : p.Valid := by
    refine .node rfl fun c hc => ?_
    obtain rfl := List.mem_singleton.1 hc
    refine .node rfl fun c hc => ?_
    obtain rfl := List.mem_singleton.1 hc
    exact .node rfl fun c hc => absurd hc List.not_mem_nil
  have pipeline : p.Pipeline := by
    have hpaid : Expr.mkColumn shape 1 = .ok (.column 1 (.boolean true)) := rfl
    have htotal : AggregateCall.derive .sum [0] "total" shape =
        .ok ⟨.sum, [0], none, "total", .int64 true⟩ := rfl
    refine .aggregate 3 _ false (.filter 2 (.scan 1 _ shape {}) (.column hpaid)) fun c hc => ?_
    obtain rfl := List.mem_singleton.1 hc
    exact .filtered 1 (.derived htotal)
  exact ⟨valid, pipeline, executable_type_safe valid pipeline {}⟩
end Plan
end Relational
