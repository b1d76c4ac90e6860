import Relational.Plan.Check
import Relational.Proofs.Expr.Evaluation
import Relational.Proofs.Typing.Pipeline

/-!
# Nodes over other inputs

The row shape of a node is what another node can tell of its rows: the fields but for what they say
of a dictionary, and the notes on the whole. Nodes are kin if they are one operator over different
inputs. `withChildren` makes the kin of a node that has the given inputs; where these have the row
shapes of the former ones, the node passes its check again and keeps its own row shape.
-/
namespace Relational

def Field.visible (f : Field) : Field :=
  { f with annotation := { notes := f.annotation.notes } }

@[simp] theorem Field.type_visible (f : Field) : f.visible.type = f.type := rfl

namespace Schema
variable {s t : Schema}

def visible (s : Schema) : Schema := s.map Field.visible

@[simp] theorem length_visible (s : Schema) : s.visible.length = s.length := List.length_map _

@[simp] theorem getElem?_visible (s : Schema) (i : Nat) :
    s.visible[i]? = s[i]?.map Field.visible := List.getElem?_map

theorem visible_append (s t : Schema) : (s ++ t).visible = s.visible ++ t.visible :=
  List.map_append

theorem congr_visible {α : Type} {f : Schema → α} (hf : ∀ s : Schema, f s.visible = f s)
    (h : s.visible = t.visible) : f s = f t := by
  rw [← hf s, h, hf t]

end Schema

namespace Expr

theorem validate_visible (e : Expr) (s : Schema) : e.validate s.visible = e.validate s := by
  induction e using operandInduction with
  | column i t =>
    simp only [validate, Schema.getElem?_visible, Schema.length_visible]
    cases s[i]? <;> rfl
  | call op operands t ih =>
    simp only [validate]
    induction operands with
    | nil => rfl
    | cons o rest ihRest =>
      obtain ⟨ho, hrest⟩ := List.forall_mem_cons.1 ih
      simp only [validateAll, ho, ihRest hrest]
  | _ => rfl

theorem validate_congr {s t : Schema} (h : s.visible = t.visible) (e : Expr) :
    e.validate s = e.validate t :=
  Schema.congr_visible (f := (e.validate ·)) e.validate_visible h

end Expr

namespace Plan

/-! ### Checks -/

theorem checkCall_visible (c : AggregateCall) (s : Schema) :
    checkCall s.visible c = checkCall s c := by
  unfold checkCall
  simp only [Schema.length_visible, Schema.getElem?_visible]
  cases c.filter with
  | none => rfl
  | some i => cases hfield : s[i]? <;> simp [hfield]

theorem checkAggregate_visible (sets : List ColumnSet) (calls : List AggregateCall) (s : Schema) :
    checkAggregate s.visible sets calls = checkAggregate s sets calls := by
  have hcalls : checkCall s.visible = checkCall s := funext fun c => checkCall_visible c s
  simp only [checkAggregate, Schema.length_visible, hcalls]

theorem checkInputTypes_visible (k : Kind) (i : Nat) (base input : Schema) :
    checkInputTypes k i base.visible input.visible = checkInputTypes k i base input := by
  simp only [checkInputTypes, Schema.visible, List.length_map, List.zip_map, List.zipIdx_map,
    List.forM_eq_forM, List.forM_map]
  rfl

theorem checkSetOp_visible (k : Kind) (inputs : List Schema) :
    checkSetOp k (inputs.map Schema.visible) = checkSetOp k inputs := by
  cases inputs with
  | nil => rfl
  | cons base rest =>
    simp only [checkSetOp, List.map_cons, List.zipIdx_map, List.forM_eq_forM, List.forM_map,
      Prod.map, checkInputTypes_visible, id_eq]

/-! ### Row shapes -/

theorem groupFields_visible (s : Schema) (sets : List ColumnSet) :
    (groupFields s sets).visible = groupFields s.visible sets := by
  simp only [groupFields, Schema.visible, List.map_filterMap, List.getElem?_map, Option.map_map]
  rfl

theorem indicatorFields_visible (s : Schema) (sets : List ColumnSet) :
    (indicatorFields s sets).visible = indicatorFields s.visible sets := by
  simp only [indicatorFields, Schema.visible, List.map_filterMap, List.getElem?_map,
    Option.map_map]
  rfl

theorem joinedSchema_visible (s t : Schema) (leftPadded rightPadded : Bool) :
    (joinedSchema s t leftPadded rightPadded).visible =
      joinedSchema s.visible t.visible leftPadded rightPadded := by
  simp only [joinedSchema, Schema.visible, List.map_append, List.map_map]
  rfl

theorem joinSchema_visible (type : JoinType) (s t : Schema) :
    (joinSchema type s t).visible = joinSchema type s.visible t.visible := by
  cases type <;> simp only [joinSchema, joinedSchema_visible]

theorem merged_visible (merged s : Schema) :
    Schema.visible (merged.zipWith (fun f g => nullableField g.type.nullable f) s) =
      merged.visible.zipWith (fun f g => nullableField g.type.nullable f) s.visible := by
  simp only [Schema.visible, List.map_zipWith, List.zipWith_map]
  rfl

theorem setOpSchema_visible (inputs : List Schema) :
    (setOpSchema inputs).visible = setOpSchema (inputs.map Schema.visible) := by
  cases inputs with
  | nil => rfl
  | cons base rest =>
    simp only [setOpSchema, List.map_cons]
    induction rest generalizing base with
    | nil => rfl
    | cons s rest ih =>
      rw [List.foldl_cons, List.map_cons, List.foldl_cons, ← merged_visible]
      exact ih _

mutual
def notes : Plan → Notes
  | scan _ _ _ notes | values _ _ _ notes => notes
  | filter _ input _ | sort _ input .. | exchange _ input _ => input.notes
  | join _ left _ _ type => if type.keepsRight then {} else left.notes
  | other _ _ inputs => (notesOf inputs).head?.getD {}
  | project .. | aggregate .. | setOp .. => {}

def notesOf : List Plan → List Notes
  | [] => []
  | p :: rest => p.notes :: notesOf rest
end

end Plan

structure RowShape where
  fields : Schema
  notes : Notes
  deriving DecidableEq

namespace Plan
variable {p q : Plan} {inputs : List Plan}

def rowShape (p : Plan) : RowShape := ⟨p.schema.visible, p.notes⟩

/-! ### Nodes that are kin -/

inductive Kin : Plan → Plan → Prop
  | scan {id : Nat} {table : TableRef} {shape : Schema} {notes : Notes} :
    Kin (.scan id table shape notes) (.scan id table shape notes)
  | values {id : Nat} {rows : List Row} {shape : Schema} {notes : Notes} :
    Kin (.values id rows shape notes) (.values id rows shape notes)
  | filter {id : Nat} {predicate : Expr} {input input' : Plan} :
    Kin (.filter id input predicate) (.filter id input' predicate)
  | project {id : Nat} {columns : List Projection} {input input' : Plan} :
    Kin (.project id input columns) (.project id input' columns)
  | aggregate {id : Nat} {sets : List ColumnSet} {calls : List AggregateCall} {indicator : Bool}
      {input input' : Plan} :
    Kin (.aggregate id input sets calls indicator) (.aggregate id input' sets calls indicator)
  | join {id : Nat} {condition : Expr} {type : JoinType} {left right left' right' : Plan} :
    Kin (.join id left right condition type) (.join id left' right' condition type)
  | setOp {id : Nat} {op : SetOp} {all : Bool} {inputs inputs' : List Plan} :
    Kin (.setOp id op inputs all) (.setOp id op inputs' all)
  | sort {id : Nat} {collation : Collation} {offset fetch : Option Nat} {input input' : Plan} :
    Kin (.sort id input collation offset fetch) (.sort id input' collation offset fetch)
  | exchange {id : Nat} {distribution : Distribution} {input input' : Plan} :
    Kin (.exchange id input distribution) (.exchange id input' distribution)
  | other {id : Nat} {name : String} {inputs inputs' : List Plan} :
    Kin (.other id name inputs) (.other id name inputs')

namespace Kin

theorem refl (p : Plan) : Kin p p := by
  cases p <;> constructor

theorem symm (h : Kin p q) : Kin q p := by
  cases h <;> constructor

theorem id_eq (h : Kin p q) : q.id = p.id := by
  cases h <;> rfl

theorem withChildren (h : Kin p q) (hcount : q.children.length = p.children.length) :
    p.withChildren q.children = checked q := by
  cases h with
  | setOp | other => exact if_pos hcount
  | _ => rfl

end Kin

theorem exists_kin (h : inputs.length = p.children.length) :
    ∃ q, Kin p q ∧ q.children = inputs := by
  cases p with
  | scan | values =>
    obtain rfl := List.length_eq_zero_iff.1 h
    exact ⟨_, .refl _, rfl⟩
  | filter =>
    obtain ⟨input, rfl⟩ := List.length_eq_one_iff.1 h
    exact ⟨_, .filter, rfl⟩
  | project =>
    obtain ⟨input, rfl⟩ := List.length_eq_one_iff.1 h
    exact ⟨_, .project, rfl⟩
  | aggregate =>
    obtain ⟨input, rfl⟩ := List.length_eq_one_iff.1 h
    exact ⟨_, .aggregate, rfl⟩
  | sort =>
    obtain ⟨input, rfl⟩ := List.length_eq_one_iff.1 h
    exact ⟨_, .sort, rfl⟩
  | exchange =>
    obtain ⟨input, rfl⟩ := List.length_eq_one_iff.1 h
    exact ⟨_, .exchange, rfl⟩
  | join =>
    obtain ⟨left, right, rfl⟩ := List.length_eq_two.1 h
    exact ⟨_, .join, rfl⟩
  | setOp => exact ⟨_, .setOp, rfl⟩
  | other => exact ⟨_, .other, rfl⟩

theorem withChildren_of_length_ne (h : inputs.length ≠ p.children.length) :
    p.withChildren inputs =
      .error (.invalidShape (.inputCount p.kind p.children.length inputs.length)) := by
  cases p with
  | setOp | other => exact if_neg h
  | scan | values =>
    match inputs with
    | [] => exact absurd rfl h
    | _ :: _ => rfl
  | filter | project | aggregate | sort | exchange =>
    match inputs with
    | [_] => exact absurd rfl h
    | [] | _ :: _ :: _ => rfl
  | join =>
    match inputs with
    | [_, _] => exact absurd rfl h
    | [] | [_] | _ :: _ :: _ :: _ => rfl

/-! ### Over inputs of the same row shapes -/

namespace Kin

theorem schema_eq (h : Kin p q) (hschemas : q.children.map schema = p.children.map schema) :
    q.schema = p.schema := by
  cases h <;> simp_all [children, schema, schemas_eq_map]

end Kin

theorem visible_eq_of_rowShape (h : q.rowShape = p.rowShape) :
    q.schema.visible = p.schema.visible := congrArg RowShape.fields h

theorem rowShape_congr (hfields : q.schema.visible = p.schema.visible)
    (hnotes : q.notes = p.notes) : q.rowShape = p.rowShape := by
  rw [rowShape, rowShape, hfields, hnotes]

theorem visible_map_of_rowShape {inputs' : List Plan}
    (h : inputs'.map rowShape = inputs.map rowShape) :
    (schemas inputs').map Schema.visible = (schemas inputs).map Schema.visible := by
  have hfields (ps : List Plan) :
      (schemas ps).map Schema.visible = (ps.map rowShape).map RowShape.fields := by
    simp [schemas_eq_map, rowShape]
  rw [hfields, hfields, h]

namespace Kin

theorem check_eq (h : Kin p q) (hshapes : q.children.map rowShape = p.children.map rowShape) :
    q.check = p.check := by
  cases h with
  | scan | values | other => rfl
  | filter | project =>
    have hfields := visible_eq_of_rowShape (List.cons.inj hshapes).1
    simp only [check, Expr.validate_congr hfields]
  | @aggregate _ sets calls _ input input' =>
    have hfields := visible_eq_of_rowShape (List.cons.inj hshapes).1
    exact Schema.congr_visible (f := (checkAggregate · sets calls))
      (checkAggregate_visible sets calls) hfields
  | @join _ _ _ left right left' right' =>
    obtain ⟨hleft, hrest⟩ := List.cons.inj hshapes
    have hfields :
        (left'.schema ++ right'.schema).visible = (left.schema ++ right.schema).visible := by
      rw [Schema.visible_append, Schema.visible_append, visible_eq_of_rowShape hleft,
        visible_eq_of_rowShape (List.cons.inj hrest).1]
    simp only [check, Expr.validate_congr hfields]
  | @setOp _ _ _ inputs inputs' =>
    have hfields : (schemas inputs').map Schema.visible = (schemas inputs).map Schema.visible :=
      visible_map_of_rowShape hshapes
    simp only [check]
    rw [← checkSetOp_visible, hfields, checkSetOp_visible]
  | @sort _ _ _ _ input input' | @exchange _ _ input input' =>
    have hfields := visible_eq_of_rowShape (List.cons.inj hshapes).1
    have hwidth : input'.width = input.width :=
      Schema.congr_visible Schema.length_visible hfields
    simp only [check, hwidth]

theorem rowShape_eq (h : Kin p q) (hshapes : q.children.map rowShape = p.children.map rowShape) :
    q.rowShape = p.rowShape := by
  cases h with
  | scan | values | project => rfl
  | filter | sort | exchange => exact (List.cons.inj hshapes).1
  | @aggregate _ sets calls indicator input input' =>
    have hfields := visible_eq_of_rowShape (List.cons.inj hshapes).1
    refine rowShape_congr ?_ rfl
    cases indicator <;> simp [schema, Schema.visible_append, groupFields_visible,
      indicatorFields_visible, hfields]
  | @join _ _ type left right left' right' =>
    obtain ⟨hleft, hrest⟩ := List.cons.inj hshapes
    refine rowShape_congr ?_ ?_
    · simp only [schema, joinSchema_visible, visible_eq_of_rowShape hleft,
        visible_eq_of_rowShape (List.cons.inj hrest).1]
    · have hnotes : left'.notes = left.notes := congrArg RowShape.notes hleft
      simp only [notes, hnotes]
  | @setOp _ _ _ inputs inputs' =>
    have hfields : (schemas inputs').map Schema.visible = (schemas inputs).map Schema.visible :=
      visible_map_of_rowShape hshapes
    refine rowShape_congr ?_ rfl
    simp only [schema, setOpSchema_visible, hfields]
  | @other _ _ inputs inputs' =>
    cases inputs with
    | nil =>
      obtain rfl : inputs' = [] := List.map_eq_nil_iff.1 hshapes
      rfl
    | cons input rest =>
      obtain ⟨input', rest', rfl, hinput, -⟩ := List.map_eq_cons_iff.1 hshapes
      exact hinput

end Kin

/-- Over its own inputs a node is itself. Over as many others of the same row shapes it has these
for its inputs and keeps its id and row shape, and over the former inputs again it is what it was.
Any other number of inputs is refused. -/
theorem withChildren_rebuilds (hcheck : p.check = .ok ()) :
    p.withChildren p.children = .ok p ∧
      (∀ inputs : List Plan, inputs.map rowShape = p.children.map rowShape →
        ∃ q, p.withChildren inputs = .ok q ∧ q.id = p.id ∧ q.rowShape = p.rowShape ∧
          (inputs.map schema = p.children.map schema → q.schema = p.schema) ∧
          q.children = inputs ∧ ((∀ c ∈ inputs, c.Valid) → q.Valid) ∧
          q.withChildren p.children = .ok p) ∧
      ∀ inputs : List Plan, inputs.length ≠ p.children.length →
        p.withChildren inputs =
          .error (.invalidShape (.inputCount p.kind p.children.length inputs.length)) := by
  have hself : checked p = .ok p := checked_eq_ok.2 ⟨hcheck, rfl⟩
  refine ⟨((Kin.refl p).withChildren rfl).trans hself, fun inputs hshapes => ?_,
    fun inputs => withChildren_of_length_ne⟩
  have hcount : inputs.length = p.children.length := by
    simpa using congrArg List.length hshapes
  obtain ⟨q, hkin, rfl⟩ := exists_kin hcount
  have hq : q.check = .ok () := (hkin.check_eq hshapes).trans hcheck
  refine ⟨q, (hkin.withChildren hcount).trans (checked_eq_ok.2 ⟨hq, rfl⟩), hkin.id_eq,
    hkin.rowShape_eq hshapes, hkin.schema_eq, rfl, .node hq, ?_⟩
  exact (hkin.symm.withChildren hcount.symm).trans hself

theorem withChildren_rebuilds_join :
    let orders : Plan := .scan 1 ⟨1, "sales", "orders"⟩
      [⟨"id", .int64 false, {}⟩, ⟨"customer", .int64 true, {}⟩]
    let customers : Plan := .scan 2 ⟨2, "sales", "customers"⟩ [⟨"id", .int64 false, {}⟩]
    let archive : Plan := .scan 4 ⟨3, "sales", "archive"⟩
      [⟨"id", .int64 false, { dictionary := 7 }⟩, ⟨"customer", .int64 true, {}⟩]
    let same : Expr :=
      .call (.compare .eq) [.column 1 (.int64 true), .column 2 (.int64 false)] (.boolean true)
    let p : Plan := .join 3 orders customers same .left
    p.check = .ok () ∧
      [archive, customers].map rowShape = p.children.map rowShape ∧
      (∃ q, p.withChildren [archive, customers] = .ok q ∧ q.id = 3 ∧ q.rowShape = p.rowShape ∧
        q.children = [archive, customers] ∧ q.withChildren [orders, customers] = .ok p) ∧
      p.withChildren [orders] = .error (.invalidShape (.inputCount .join 2 1)) := by
  intro orders customers archive same p
  have hcheck : p.check = .ok () := rfl
  have hshapes : [archive, customers].map rowShape = p.children.map rowShape := rfl
  obtain ⟨-, hrebuilt, hrefused⟩ := withChildren_rebuilds hcheck
  obtain ⟨q, hq, hid, hshape, -, hchildren, -, hback⟩ := hrebuilt [archive, customers] hshapes
  exact ⟨hcheck, hshapes, ⟨q, hq, hid, hshape, hchildren, hback⟩, hrefused [orders] (by decide)⟩

end Plan
end Relational
