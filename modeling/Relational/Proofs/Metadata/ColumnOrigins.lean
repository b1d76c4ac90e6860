import Relational.Proofs.Metadata.RowBound
import Relational.Proofs.Ordered

/-!
# Where origins are found

The known origins of a column of a node are those of a column of an input, taken over as they are or
as computed from, unless the node is a leaf.
-/
namespace Relational.Metadata

namespace Basis
variable {Q : Type} {b : Basis Q} {p input : Plan} {c : Nat}
  {origins found : List ColumnOrigin} {s : Subject}

def sideOf (left right : Plan) (c : Nat) : Plan × Nat :=
  if c < left.width then (left, c) else (right, c - left.width)

theorem sideOf_mem {left right : Plan} (c : Nat) : (sideOf left right c).1 ∈ [left, right] := by
  unfold sideOf
  split <;> simp

def ComputedFrom (b : Basis Q) (input : Plan) (origins : List ColumnOrigin) : Prop :=
  ∀ x ∈ origins, ∃ c found,
    b.Answers input ⟨.columnOrigin, .column c⟩ (.ok (some (.origins found))) ∧
      ∃ y ∈ found, { y with derived := true } = x

theorem computedFrom_nil : b.ComputedFrom input [] := fun _ h => absurd h List.not_mem_nil

theorem ComputedFrom.derived (h : b.ComputedFrom input origins) :
    ∀ x ∈ origins, x.derived = true := by
  intro x hx
  obtain ⟨-, -, -, y, -, rfl⟩ := h x hx
  rfl

theorem answers_column (hs : b.node? p s = some input)
    (h : b.Gives p (columnOrigins s c) (.ok (some origins))) :
    b.Answers input ⟨.columnOrigin, .column c⟩ (.ok (some (.origins origins))) := by
  obtain ⟨other, hother, hanswers⟩ := gives_columnOrigins.1 h
  obtain rfl := Option.some.inj (hs.symm.trans hother)
  exact hanswers

theorem answers_column_of_report (hs : b.node? p s = some input)
    (h : b.Gives p (report .origins (columnOrigins s c)) (.ok (some (.origins origins)))) :
    b.Answers input ⟨.columnOrigin, .column c⟩ (.ok (some (.origins origins))) := by
  obtain ⟨found, hfound, hfact⟩ := gives_report.1 h
  cases hfact
  exact answers_column hs hfound

theorem answers_column_of_passedOn (hs : b.node? p (.input 0) = some input)
    (h : b.Gives p (Origins.passedOn b.setting p (.column c)) (.ok (some (.origins origins)))) :
    b.Answers input ⟨.columnOrigin, .column c⟩ (.ok (some (.origins origins))) := by
  simp only [Origins.passedOn] at h
  obtain ⟨found, hfound, hfact⟩ := gives_fromInput h
  cases hfact
  exact answers_column hs hfound

theorem computedFrom_of_derivedFrom {columns : List Nat} (hs : b.node? p (.input 0) = some input)
    (hfound : b.ComputedFrom input found)
    (h : b.Gives p (Origins.derivedFrom columns found) (.ok (some origins))) :
    b.ComputedFrom input origins := by
  induction columns generalizing found with
  | nil =>
    cases gives_known.1 h
    exact hfound
  | cons c rest ih =>
    obtain ⟨first, hfirst, h⟩ := gives_bind.1 h
    cases first with
    | none => cases gives_unknown.1 h
    | some first =>
      refine ih (fun x hx => ?_) h
      rcases mem_of_mem_mergeOrdered hx with hx | hx
      · exact hfound x hx
      · exact ⟨c, first, answers_column hs hfirst, List.mem_map.1 hx⟩

/-- The origins of a column of a node, in terms of those of columns of its inputs. -/
inductive OriginsFrom (b : Basis Q) : Plan → Nat → List ColumnOrigin → Prop
  | scan {id : Nat} {table : TableRef} {shape : Schema} {notes : Notes} {c : Nat}
      {o : TableOccurrence} (ho : b.setting.occurrence? id = some o) (hc : c < shape.length) :
    OriginsFrom b (.scan id table shape notes) c [⟨o, c, false⟩]
  | values {id : Nat} {rows : List Row} {shape : Schema} {notes : Notes} {c : Nat} :
    OriginsFrom b (.values id rows shape notes) c []
  | filter {id : Nat} {input : Plan} {predicate : Expr} {c : Nat} {origins : List ColumnOrigin}
      (h : b.Answers input ⟨.columnOrigin, .column c⟩ (.ok (some (.origins origins)))) :
    OriginsFrom b (.filter id input predicate) c origins
  | copied {id : Nat} {input : Plan} {columns : List Projection} {projected : Projection}
      {c i : Nat} {origins : List ColumnOrigin} (hc : columns[c]? = some projected)
      (hcolumn : projected.expr.column? = some i)
      (h : b.Answers input ⟨.columnOrigin, .column i⟩ (.ok (some (.origins origins)))) :
    OriginsFrom b (.project id input columns) c origins
  | computed {id : Nat} {input : Plan} {columns : List Projection} {projected : Projection}
      {c : Nat} {origins : List ColumnOrigin} (hc : columns[c]? = some projected)
      (h : b.ComputedFrom input origins) :
    OriginsFrom b (.project id input columns) c origins
  | group {id g : Nat} {input : Plan} {sets : List ColumnSet} {calls : List AggregateCall}
      {indicator : Bool} {c : Nat} {origins : List ColumnOrigin}
      (hc : (Plan.groupColumns sets).columns[c]? = some g)
      (h : b.Answers input ⟨.columnOrigin, .column g⟩ (.ok (some (.origins origins)))) :
    OriginsFrom b (.aggregate id input sets calls indicator) c origins
  | result {id : Nat} {input : Plan} {sets : List ColumnSet} {calls : List AggregateCall}
      {indicator : Bool} {c : Nat} {origins : List ColumnOrigin}
      (hc : c < (Plan.groupColumns sets).size +
        (if indicator then (Plan.groupColumns sets).size else 0) + calls.length)
      (h : b.ComputedFrom input origins) :
    OriginsFrom b (.aggregate id input sets calls indicator) c origins
  | join {id : Nat} {left right : Plan} {condition : Expr} {type : JoinType} {c : Nat}
      {origins : List ColumnOrigin} (h : b.Answers (sideOf left right c).1
        ⟨.columnOrigin, .column (sideOf left right c).2⟩ (.ok (some (.origins origins)))) :
    OriginsFrom b (.join id left right condition type) c origins
  | setOp {id : Nat} {op : SetOp} {inputs : List Plan} {all : Bool} {c : Nat}
      {lists : List (List ColumnOrigin)} (h : List.Forall₂ (fun input origins =>
        b.Answers input ⟨.columnOrigin, .column c⟩ (.ok (some (.origins origins)))) inputs lists) :
    OriginsFrom b (.setOp id op inputs all) c (lists.foldl mergeOrigins [])
  | sort {id : Nat} {input : Plan} {collation : Collation} {offset fetch : Option Nat} {c : Nat}
      {origins : List ColumnOrigin}
      (h : b.Answers input ⟨.columnOrigin, .column c⟩ (.ok (some (.origins origins)))) :
    OriginsFrom b (.sort id input collation offset fetch) c origins
  | exchange {id : Nat} {input : Plan} {distribution : Distribution} {c : Nat}
      {origins : List ColumnOrigin}
      (h : b.Answers input ⟨.columnOrigin, .column c⟩ (.ok (some (.origins origins)))) :
    OriginsFrom b (.exchange id input distribution) c origins

variable [Quantity Q]

theorem originsFrom_of_answers (hrules : b.rules = .builtin)
    (h : b.Answers p ⟨.columnOrigin, .column c⟩ (.ok (some (.origins origins)))) :
    b.OriginsFrom p c origins := by
  cases p with
  | scan id table shape notes =>
    have hgives := gives_of_builtin hrules h rfl
    simp only [Origins.ofScan] at hgives
    split at hgives
    · cases gives_unknown.1 hgives
    next hwidth =>
      split at hgives
      next o ho =>
        cases gives_known.1 hgives
        exact .scan ho (Nat.not_le.1 hwidth)
      · cases gives_unknown.1 hgives
  | values =>
    cases gives_known.1 (gives_of_builtin hrules h rfl)
    exact .values
  | filter => exact .filter (answers_column_of_passedOn rfl (gives_of_builtin hrules h rfl))
  | project id input columns =>
    have hgives := gives_of_builtin hrules h rfl
    simp only [Origins.ofProject] at hgives
    split at hgives
    · cases gives_unknown.1 hgives
    next projected hc =>
      split at hgives
      next i hcolumn => exact .copied hc hcolumn (answers_column_of_report rfl hgives)
      · obtain ⟨found, hfound, hfact⟩ := gives_report.1 hgives
        cases hfact
        exact .computed hc (computedFrom_of_derivedFrom rfl computedFrom_nil hfound)
  | aggregate id input sets calls indicator =>
    have hgives := gives_of_builtin hrules h rfl
    simp only [Origins.ofAggregate] at hgives
    generalize hmarked : (if indicator then 2 * (Plan.groupColumns sets).size
      else (Plan.groupColumns sets).size) = marked at hgives
    have hmarked : (Plan.groupColumns sets).size +
        (if indicator then (Plan.groupColumns sets).size else 0) = marked := by
      rw [← hmarked]
      split <;> omega
    split at hgives
    next g hc => exact .group hc (answers_column_of_report rfl hgives)
    · split at hgives
      next hbefore =>
        cases gives_known.1 hgives
        exact .result (by omega) computedFrom_nil
      next hafter =>
        split at hgives
        next call hcall =>
          obtain ⟨found, hfound, hfact⟩ := gives_report.1 hgives
          cases hfact
          have hplace := (List.getElem?_eq_some_iff.1 hcall).1
          exact .result (by omega) (computedFrom_of_derivedFrom rfl computedFrom_nil hfound)
        · cases gives_unknown.1 hgives
  | join id left right condition type =>
    have hgives := gives_of_builtin hrules h rfl
    simp only [Origins.ofJoin] at hgives
    refine .join ?_
    unfold sideOf
    split at hgives
    next hc =>
      rw [if_pos hc]
      exact answers_column_of_report rfl hgives
    next hc =>
      rw [if_neg hc]
      exact answers_column_of_report rfl hgives
  | setOp id op inputs all =>
    have hgives : b.Gives (.setOp id op inputs all)
        (Origins.ofSetOp b.setting (.setOp id op inputs all) (.column c))
        (.ok (some (.origins origins))) := by
      cases op <;> exact gives_of_builtin hrules h rfl
    obtain ⟨lists, hlists, hfact⟩ := gives_report.1 hgives
    cases hfact
    refine .setOp ((gives_inputs hlists).imp ?_)
    rintro input found ⟨i, hs, hfound⟩
    exact answers_column hs hfound
  | sort => exact .sort (answers_column_of_passedOn rfl (gives_of_builtin hrules h rfl))
  | exchange => exact .exchange (answers_column_of_passedOn rfl (gives_of_builtin hrules h rfl))
  | other =>
    obtain ⟨rule, hrule, -⟩ := answers_some.1 h
    rw [hrules] at hrule
    cases hrule

end Basis
end Relational.Metadata
