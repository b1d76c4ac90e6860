import Relational.Proofs.Metadata.TableOccurrences

/-!
# Origins of columns

From which columns of tables an expression derives, where the columns of the row have given
origins: a column that is read as it is has the same ones, and any other expression is computed
from what is in it. The origins of a node's column are so derived from those at its inputs.
-/
namespace Relational
open Metadata

namespace Expr
variable {F G : Nat → ColumnOrigin → Prop} {e e' : Expr} {x : ColumnOrigin}

def Origin (F : Nat → ColumnOrigin → Prop) : Expr → ColumnOrigin → Prop
  | column c _, x => F c x
  | tableColumn o c _, x => x = ⟨o, c, false⟩
  | _, _ => False

/-- Something in the expression has the origin, copied or derived. -/
def Reads (F : Nat → ColumnOrigin → Prop) (e : Expr) (x : ColumnOrigin) : Prop :=
  ∃ part ∈ e.parts, ∃ derived, part.Origin F { x with derived }

def Derives (F : Nat → ColumnOrigin → Prop) (e : Expr) (x : ColumnOrigin) : Prop :=
  match e with
  | call .. => x.derived = true ∧ e.Reads F x
  | e => e.Origin F x

/-- The origin is in the expression itself, whose columns of the row have none. -/
def StemsFrom (e : Expr) : ColumnOrigin → Prop := e.Derives fun _ _ => False

theorem exists_derives : (∃ derived, e.Derives F { x with derived }) ↔ e.Reads F x := by
  cases e <;> simp [Derives, Reads, parts]

theorem reads_call {op : Op} {operands : List Expr} {t : SqlType} :
    (call op operands t).Reads F x ↔ ∃ o ∈ operands, o.Reads F x := by
  simp only [Reads, parts, partsOf_eq_flatMap, List.mem_cons, List.mem_flatMap, exists_eq_or_imp,
    Origin, exists_false, false_or]
  constructor
  · rintro ⟨part, ⟨o, ho, hpart⟩, horigin⟩
    exact ⟨o, ho, part, hpart, horigin⟩
  · rintro ⟨o, ho, part, hpart, horigin⟩
    exact ⟨part, ⟨o, ho, hpart⟩, horigin⟩

section Substitution
variable {ε : Type} {f : Nat → SqlType → Except ε Expr} (he : e.substitute f = .ok e')
  (hf : ∀ r ∈ e.readings, ∀ d, f r.1 r.2 = .ok d → ∀ x, d.Derives F x ↔ G r.1 x)
include he hf

theorem reads_substitute : e'.Reads F x ↔ e.Reads G x := by
  induction e using operandInduction generalizing e' with
  | column i t =>
    have hd := hf (i, t) (List.mem_singleton_self _) e' he
    simp only [← exists_derives, hd]
    rfl
  | call op operands t ih =>
    obtain ⟨operands', hoperands, rfl⟩ := substitute_call_eq_ok.1 he
    rw [reads_call, reads_call]
    have hreads : List.Forall₂ (fun o o' => o'.Reads F x ↔ o.Reads G x) operands operands' :=
      forall₂_imp_of_mem hoperands fun o ho o' ho' =>
        ih o ho ho' fun r hr => hf r (mem_readings_call ho hr)
    constructor
    · rintro ⟨o', ho', hread⟩
      obtain ⟨o, ho, hiff⟩ := forall₂_exists_mem hreads ho'
      exact ⟨o, ho, hiff.1 hread⟩
    · rintro ⟨o, ho, hread⟩
      obtain ⟨o', ho', hiff⟩ := forall₂_exists_mem
        (R := fun (o' : Expr) o => o'.Reads F x ↔ o.Reads G x) hreads.flip ho
      exact ⟨o', ho', hiff.2 hread⟩
  | _ =>
    cases he
    simp [Reads, parts, Origin]

theorem derives_substitute : e'.Derives F x ↔ e.Derives G x := by
  cases e with
  | column i t => exact hf (i, t) (List.mem_singleton_self _) e' he x
  | call op operands t =>
    have hreads := reads_substitute he hf (x := x)
    obtain ⟨operands', -, rfl⟩ := substitute_call_eq_ok.1 he
    exact and_congr_right' hreads
  | _ =>
    cases he
    exact .rfl

end Substitution

theorem derives_congr (h : ∀ r ∈ e.readings, ∀ x, F r.1 x ↔ G r.1 x) :
    e.Derives F x ↔ e.Derives G x := by
  have hself : e.substitute (fun i t => (.ok (column i t) : Except Error Expr)) = .ok e :=
    substitute_eq_self fun _ _ => rfl
  refine derives_substitute hself fun r hr d hd => ?_
  cases hd
  exact h r hr

/-- Among several ways for the columns to have origins, one is taken throughout. -/
theorem derives_exists {ι : Type} {S : ι → Prop} {F : ι → Nat → ColumnOrigin → Prop}
    (hS : ∃ i, S i) :
    e.Derives (fun c x => ∃ i, S i ∧ F i c x) x ↔ ∃ i, S i ∧ e.Derives (F i) x := by
  have horigin (part : Expr) (x : ColumnOrigin) :
      part.Origin (fun c x => ∃ i, S i ∧ F i c x) x ↔ ∃ i, S i ∧ part.Origin (F i) x := by
    cases part <;> simp [Origin, hS]
  cases e with
  | call op operands t =>
    simp only [Derives, Reads, horigin]
    constructor
    · rintro ⟨hderived, part, hpart, derived, i, hi, hpartOrigin⟩
      exact ⟨i, hi, hderived, part, hpart, derived, hpartOrigin⟩
    · rintro ⟨i, hi, hderived, part, hpart, derived, hpartOrigin⟩
      exact ⟨hderived, part, hpart, derived, i, hi, hpartOrigin⟩
  | literal v t => exact horigin (literal v t) x
  | column i t => exact horigin (column i t) x
  | correlation id t => exact horigin (correlation id t) x
  | tableColumn o c t => exact horigin (tableColumn o c t) x

theorem reads_iff_of_names (h : e.Names fun _ _ => False) :
    e.Reads F x ↔ ∃ c ∈ e.columnsRead, ∃ derived, F c { x with derived } := by
  have hreadings : e.Reads F x ↔ ∃ r ∈ e.readings, ∃ derived, F r.1 { x with derived } := by
    induction e using operandInduction with
    | call op operands t ih =>
      rw [reads_call, readings, readingsOf_eq_flatMap]
      simp only [List.mem_flatMap]
      constructor
      · rintro ⟨o, ho, hread⟩
        obtain ⟨r, hr, hF⟩ := (ih o ho (names_call.1 h o ho)).1 hread
        exact ⟨r, ⟨o, ho, hr⟩, hF⟩
      · rintro ⟨r, ⟨o, ho, hr⟩, hF⟩
        exact ⟨o, ho, (ih o ho (names_call.1 h o ho)).2 ⟨r, hr, hF⟩⟩
    | tableColumn o c t => exact (h o c t (self_mem_parts _)).elim
    | _ => simp [Reads, parts, Origin, readings]
  rw [hreadings]
  simp [columnsRead, references]

theorem derives_iff_of_names (h : e.Names fun _ _ => False) (hcolumn : e.column? = none) :
    e.Derives F x ↔
      x.derived = true ∧ ∃ c ∈ e.columnsRead, ∃ derived, F c { x with derived } := by
  rw [← reads_iff_of_names h]
  cases e with
  | call => exact .rfl
  | column => cases hcolumn
  | tableColumn o c t => exact (h o c t (self_mem_parts _)).elim
  | _ => simp [Derives, Reads, parts, Origin]

theorem stemsFrom_copy {o : TableOccurrence} {c : Nat} :
    e.StemsFrom ⟨o, c, false⟩ ↔ ∃ t, e = tableColumn o c t := by
  cases e <;> simp [StemsFrom, Derives, Origin, eq_comm]

theorem exists_stemsFrom {o : TableOccurrence} {c : Nat} :
    (∃ derived, e.StemsFrom ⟨o, c, derived⟩) ↔ ∃ t, tableColumn o c t ∈ e.parts := by
  have hreads := exists_derives (F := fun _ _ => False) (e := e) (x := ⟨o, c, false⟩)
  refine hreads.trans ⟨?_, ?_⟩
  · rintro ⟨part, hpart, derived, horigin⟩
    cases part <;> simp only [Origin, ColumnOrigin.mk.injEq] at horigin
    obtain ⟨rfl, rfl, -⟩ := horigin
    exact ⟨_, hpart⟩
  · rintro ⟨t, hpart⟩
    exact ⟨_, hpart, false, rfl⟩

end Expr

namespace Metadata.Basis
variable {Q : Type} {b : Basis Q} {p input : Plan} {c : Nat} {x : ColumnOrigin}
  {F G : ColumnOrigin → Prop}

def Originates (b : Basis Q) (p : Plan) (c : Nat) (x : ColumnOrigin) : Prop :=
  ∃ origins, b.Answers p ⟨.columnOrigin, .column c⟩ (.ok (some (.origins origins))) ∧ x ∈ origins

def OriginsAre (b : Basis Q) (p : Plan) (c : Nat) (F : ColumnOrigin → Prop) : Prop :=
  ∃ origins, b.Answers p ⟨.columnOrigin, .column c⟩ (.ok (some (.origins origins))) ∧
    ∀ x, x ∈ origins ↔ F x

theorem OriginsAre.congr (h : b.OriginsAre p c F) (hiff : ∀ x, F x ↔ G x) :
    b.OriginsAre p c G := by
  obtain ⟨origins, hanswers, horigins⟩ := h
  exact ⟨origins, hanswers, fun x => (horigins x).trans (hiff x)⟩

theorem originates_iff {origins : List ColumnOrigin}
    (h : b.Answers p ⟨.columnOrigin, .column c⟩ (.ok (some (.origins origins)))) :
    b.Originates p c x ↔ x ∈ origins := by
  constructor
  · rintro ⟨found, hfound, hx⟩
    cases Gives.unique h hfound
    exact hx
  · exact fun hx => ⟨origins, h, hx⟩

theorem OriginsAre.originates (h : b.OriginsAre p c F) (x : ColumnOrigin) :
    b.Originates p c x ↔ F x := by
  obtain ⟨origins, hanswers, horigins⟩ := h
  exact (originates_iff hanswers).trans (horigins x)

variable [Quantity Q]

theorem originsAre_scan {id : Nat} {table : TableRef} {shape : Schema} {notes : Notes}
    {o : TableOccurrence} (hrules : b.rules = .builtin) (ho : b.setting.occurrence? id = some o)
    (hc : c < shape.length) :
    b.OriginsAre (.scan id table shape notes) c (· = ⟨o, c, false⟩) := by
  refine ⟨[⟨o, c, false⟩], answers_of_builtin hrules rfl ?_, fun x => List.mem_singleton⟩
  have hwidth : ¬ (Plan.scan id table shape notes).width ≤ c := Nat.not_le.2 hc
  simp only [Origins.ofScan, if_neg hwidth, Plan.id, ho]
  exact gives_known.2 rfl

theorem originsAre_passedOn (hrules : b.rules = .builtin) (hinput : p.children = [input])
    (hrule : RuleTable.builtin.lookup p.kind .columnOrigin = some (Origins.passedOn (Q := Q)))
    (h : b.OriginsAre input c F) : b.OriginsAre p c F := by
  obtain ⟨origins, hanswers, horigins⟩ := h
  have hasked : b.Gives p (columnOrigins (.input 0) c) (.ok (some origins)) :=
    gives_columnOrigins.2 ⟨input, by simp [node?, hinput], hanswers⟩
  refine ⟨origins, answers_of_builtin hrules hrule ?_, horigins⟩
  simp only [Origins.passedOn]
  exact gives_fromInput_ok (by simp [hinput]) hasked

omit [Quantity Q] in
theorem gives_derivedFrom {columns : List Nat} {F : Nat → ColumnOrigin → Prop}
    (hs : b.node? p (.input 0) = some input) (h : ∀ c ∈ columns, b.OriginsAre input c (F c))
    (found : List ColumnOrigin) :
    ∃ origins, b.Gives p (Origins.derivedFrom columns found) (.ok (some origins)) ∧
      ∀ x, x ∈ origins ↔ x ∈ found ∨
        x.derived = true ∧ ∃ c ∈ columns, ∃ derived, F c { x with derived } := by
  induction columns generalizing found with
  | nil => exact ⟨found, gives_known.2 rfl, by simp⟩
  | cons c rest ih =>
    obtain ⟨⟨first, hanswers, hfirst⟩, hrest⟩ := List.forall_mem_cons.1 h
    obtain ⟨origins, hgives, horigins⟩ :=
      ih hrest (mergeOrigins found (first.map ({ · with derived := true })))
    refine ⟨origins, gives_bind.2 ⟨some first, gives_columnOrigins.2 ⟨input, hs, hanswers⟩,
      hgives⟩, fun x => ?_⟩
    have hmerged : x ∈ mergeOrigins found (first.map ({ · with derived := true })) ↔
        x ∈ found ∨ x.derived = true ∧ ∃ derived, F c { x with derived } := by
      have hmerge : ∀ xs : List ColumnOrigin, x ∈ mergeOrigins found xs ↔ x ∈ found ∨ x ∈ xs :=
        fun xs => ⟨mem_of_mem_mergeOrdered, mem_mergeOrdered⟩
      rw [hmerge, List.mem_map]
      refine or_congr_right ⟨?_, ?_⟩
      · rintro ⟨y, hy, rfl⟩
        exact ⟨rfl, y.derived, (hfirst y).1 hy⟩
      · rintro ⟨hderived, derived, hF⟩
        obtain ⟨o, c, d⟩ := x
        obtain rfl : d = true := hderived
        exact ⟨⟨o, c, derived⟩, (hfirst _).2 hF, rfl⟩
    rw [horigins, hmerged, or_assoc, ← and_or_left, List.exists_mem_cons_iff]

theorem originsAre_project {id : Nat} {columns : List Projection} {projected : Projection}
    {F : Nat → ColumnOrigin → Prop} (hrules : b.rules = .builtin)
    (hc : columns[c]? = some projected) (hnames : projected.expr.Names fun _ _ => False)
    (h : ∀ r ∈ projected.expr.readings, b.OriginsAre input r.1 (F r.1)) :
    b.OriginsAre (.project id input columns) c (projected.expr.Derives F) := by
  have hgives {found : List ColumnOrigin} (h : b.Gives (.project id input columns)
      (Origins.ofProject b.setting (.project id input columns) (.column c))
      (.ok (some (.origins found)))) :
      b.Answers (.project id input columns) ⟨.columnOrigin, .column c⟩
        (.ok (some (.origins found))) := answers_of_builtin hrules rfl h
  cases hcolumn : projected.expr.column? with
  | some i =>
    obtain ⟨t, he⟩ : ∃ t, projected.expr = .column i t := by
      cases he : projected.expr <;> simp_all [Expr.column?]
    rw [he] at h ⊢
    obtain ⟨origins, hanswers, horigins⟩ := h (i, t) (List.mem_singleton_self _)
    refine ⟨origins, hgives ?_, horigins⟩
    simp only [Origins.ofProject, hc, hcolumn]
    exact gives_report.2 ⟨origins, gives_columnOrigins.2 ⟨input, rfl, hanswers⟩, rfl⟩
  | none =>
    have hcolumns : ∀ i ∈ projected.expr.columnsRead.columns, b.OriginsAre input i (F i) := by
      intro i hi
      obtain ⟨r, hr, rfl⟩ := List.mem_map.1 (ColumnSet.mem_ofList.1 hi)
      exact h r hr
    obtain ⟨origins, hderived, horigins⟩ :=
      gives_derivedFrom (p := .project id input columns) rfl hcolumns []
    refine ⟨origins, hgives ?_, fun x => ?_⟩
    · simp only [Origins.ofProject, hc, hcolumn]
      exact gives_report.2 ⟨origins, hderived, rfl⟩
    · rw [horigins, Expr.derives_iff_of_names hnames hcolumn]
      exact or_iff_right List.not_mem_nil

theorem originsAre_aggregate {id g : Nat} {sets : List ColumnSet} {calls : List AggregateCall}
    {indicator : Bool} (hrules : b.rules = .builtin)
    (hc : (Plan.groupColumns sets).columns[c]? = some g) (h : b.OriginsAre input g F) :
    b.OriginsAre (.aggregate id input sets calls indicator) c F := by
  obtain ⟨origins, hanswers, horigins⟩ := h
  refine ⟨origins, answers_of_builtin hrules rfl ?_, horigins⟩
  simp only [Origins.ofAggregate, hc]
  exact gives_report.2 ⟨origins, gives_columnOrigins.2 ⟨input, rfl, hanswers⟩, rfl⟩

theorem originsAre_join {id : Nat} {left right : Plan} {condition : Expr} {type : JoinType}
    (hrules : b.rules = .builtin)
    (h : b.OriginsAre (sideOf left right c).1 (sideOf left right c).2 F) :
    b.OriginsAre (.join id left right condition type) c F := by
  obtain ⟨origins, hanswers, horigins⟩ := h
  refine ⟨origins, answers_of_builtin hrules rfl ?_, horigins⟩
  simp only [Origins.ofJoin]
  unfold sideOf at hanswers
  split at hanswers
  next hc =>
    rw [if_pos hc]
    exact gives_report.2 ⟨origins, gives_columnOrigins.2 ⟨left, rfl, hanswers⟩, rfl⟩
  next hc =>
    rw [if_neg hc]
    exact gives_report.2 ⟨origins, gives_columnOrigins.2 ⟨right, rfl, hanswers⟩, rfl⟩

theorem originsAre_setOp {id : Nat} {op : SetOp} {inputs : List Plan} {all : Bool}
    {F : Plan → ColumnOrigin → Prop} (hrules : b.rules = .builtin)
    (h : ∀ input ∈ inputs, b.OriginsAre input c (F input)) :
    b.OriginsAre (.setOp id op inputs all) c fun x => ∃ input, input ∈ inputs ∧ F input x := by
  choose! origins hanswers horigins using h
  have hlists : List.Forall₂ (fun input found => ∀ i,
      b.node? (.setOp id op inputs all) (.input i) = some input →
        b.Gives (.setOp id op inputs all) (columnOrigins (.input i) c) (.ok (some found))) inputs
      (inputs.map origins) := by
    refine List.forall₂_map_right_iff.2 (List.forall₂_same.2 fun input hinput i hs => ?_)
    exact gives_columnOrigins.2 ⟨input, hs, hanswers input hinput⟩
  have hgives : b.Gives (.setOp id op inputs all)
      (Origins.ofSetOp b.setting (.setOp id op inputs all) (.column c))
      (.ok (some (.origins ((inputs.map origins).foldl mergeOrigins [])))) :=
    gives_report.2 ⟨_, gives_inputs_ok hlists, rfl⟩
  refine ⟨(inputs.map origins).foldl mergeOrigins [], ?_, fun x => ?_⟩
  · cases op <;> exact answers_of_builtin hrules rfl hgives
  · refine mem_mergeAll.trans ((or_iff_right List.not_mem_nil).trans ?_)
    simp only [List.mem_map, exists_exists_and_eq_and]
    exact exists_congr fun input => and_congr_right fun hinput => horigins input hinput x

end Metadata.Basis
end Relational
