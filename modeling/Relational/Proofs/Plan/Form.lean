import Relational.Proofs.Expr.Evaluation
import Relational.Proofs.Plan.Nodes
import Relational.Proofs.Plan.Token

/-!
# What a signature leaves out

The form of a plan is the plan without the values of literals, the rows of constant relations, the
ids of nodes, the names of outputs and the amounts of windows. Plans of one form have one signature.
-/
namespace Relational

namespace Expr

mutual
/-- Without the values of literals, which keep their declared types. -/
def form : Expr → Expr
  | literal _ t => .literal .null t
  | call op operands t => .call op (forms operands) t
  | e => e

def forms : List Expr → List Expr
  | [] => []
  | e :: rest => e.form :: forms rest
end

theorem skeleton_form (e : Expr) : e.form.skeleton = e.skeleton := by
  induction e using operandInduction with
  | literal v t => simp only [form, skeleton]
  | call op operands t ih =>
    have hoperands : skeletons (forms operands) = skeletons operands := by
      induction operands with
      | nil => rfl
      | cons e rest ihRest =>
        obtain ⟨he, hrest⟩ := List.forall_mem_cons.1 ih
        simp only [forms, skeletons, he, ihRest hrest]
    cases op <;> simp only [form, skeleton, hoperands]
  | _ => rfl

end Expr

def Projection.form (c : Projection) : Projection := ⟨c.expr.form, ""⟩

def AggregateCall.form (c : AggregateCall) : AggregateCall := { c with name := "" }

namespace Plan

mutual
def form : Plan → Plan
  | scan _ table shape notes => .scan 0 table shape notes
  | values _ _ shape notes => .values 0 [] shape notes
  | filter _ input predicate => .filter 0 input.form predicate.form
  | project _ input columns => .project 0 input.form (columns.map Projection.form)
  | aggregate _ input sets calls indicator =>
    .aggregate 0 input.form sets (calls.map AggregateCall.form) indicator
  | join _ left right condition type => .join 0 left.form right.form condition.form type
  | setOp _ op inputs all => .setOp 0 op (forms inputs) all
  | sort _ input collation offset fetch =>
    .sort 0 input.form collation (offset.map fun _ => 0) (fetch.map fun _ => 0)
  | exchange _ input distribution => .exchange 0 input.form distribution
  | other _ name inputs => .other 0 name (forms inputs)

def forms : List Plan → List Plan
  | [] => []
  | p :: rest => p.form :: forms rest
end

theorem forms_eq_map (ps : List Plan) : forms ps = ps.map form := by
  induction ps with
  | nil => rfl
  | cons p rest ih => rw [forms, ih, List.map_cons]

theorem children_form (p : Plan) : p.form.children = p.children.map form := by
  cases p <;> simp only [form, children, forms_eq_map, List.map_cons, List.map_nil]

theorem table?_form (p : Plan) : p.form.table? = p.table? := by
  cases p <;> rfl

theorem kind_form (p : Plan) : p.form.kind = p.kind := by
  cases p <;> rfl

theorem detail_form (p : Plan) : p.form.detail = p.detail := by
  cases p with
  | scan | values | setOp | exchange | other => rfl
  | filter id input predicate => exact predicate.skeleton_form
  | project id input columns =>
    have hskeletons : (columns.map Projection.form).map (·.expr.skeleton) =
        columns.map (·.expr.skeleton) := by
      rw [List.map_map]
      exact List.map_congr_left fun c _ => c.expr.skeleton_form
    simp only [form, detail, hskeletons, List.length_map]
  | aggregate id input sets calls indicator =>
    have hcalls : (calls.map AggregateCall.form).map AggregateCall.text =
        calls.map AggregateCall.text := by
      rw [List.map_map]
      exact List.map_congr_left fun c _ => rfl
    simp only [form, detail, hcalls]
  | join id left right condition type =>
    simp only [form, detail, target, table?_form, condition.skeleton_form]
  | sort id input collation offset fetch => simp only [form, detail, Option.isSome_map]

theorem token_form (p : Plan) : p.form.token = p.token := by
  rw [token_eq, token_eq, kind_form, detail_form]

theorem walk_form (p : Plan) (depth : Nat) :
    p.form.walk depth = (p.walk depth).map fun (node, d) => (node.form, d) := by
  induction p using inputInduction generalizing depth with
  | node p ih =>
    rw [walk_eq_cons, walk_eq_cons depth p, children_form, List.map_cons, List.map_flatMap,
      List.flatMap_map]
    refine congrArg _ ?_
    rw [List.flatMap_def, List.flatMap_def]
    exact congrArg _ (List.map_congr_left fun child hchild => ih child hchild (depth + 1))

theorem signature_form {Q R : Type} (s : TableSource Q) (t : TableSource R) (p : Plan) :
    (p.form.shape t).signature = (p.shape s).signature := by
  simp only [shape, walk_form, List.map_map, Function.comp_def, token_form]

variable {Q R : Type} {p q : Plan}

/-- Plans that differ in what the form leaves out have one signature and one cache key, whatever
is known of their tables. -/
theorem signature_of_form_eq (s : TableSource Q) (t : TableSource R) (h : p.form = q.form) :
    (p.shape s).signature = (q.shape t).signature ∧
      (p.shape s).queryName = (q.shape t).queryName := by
  have hsignature : (p.shape s).signature = (q.shape t).signature :=
    (signature_form s t p).symm.trans (h ▸ signature_form t t q)
  exact ⟨hsignature, by rw [PlanShape.queryName, PlanShape.queryName, hsignature]⟩

def ordersPage (ids : Nat → Nat) (day region : Int64) (rows : List Row) (name : String)
    (offset fetch : Nat) : Plan :=
  let orders : Plan := .scan (ids 0) ⟨7, "main", "orders"⟩ [⟨"day", .int64 false, {}⟩]
  let recent : Plan := .filter (ids 1) orders (.call .and [
    .call (.compare .gt) [.column 0 (.int64 false), .mkLiteral (.int64 day)] (.boolean false),
    .call .isNotNull [.mkLiteral (.int64 region)] (.boolean false)] (.boolean false))
  let regions : Plan := .values (ids 2) rows [⟨"region", .int64 false, {}⟩]
  let both : Plan := .join (ids 3) recent regions
    (.call (.compare .eq) [.column 1 (.int64 false), .mkLiteral (.int64 region)] (.boolean false))
    .inner
  let counted : Plan := .aggregate (ids 4) both [.ofList [1]]
    [⟨.count, [], none, name, .int64 false⟩] false
  let columns : Plan := .project (ids 5) counted [⟨.mkLiteral (.int64 day), name⟩]
  .sort (ids 6) columns [⟨0, .ascending, .last⟩] (some offset) (some fetch)

theorem signature_of_form_eq_ordersPage :
    let s : TableSource Unit := ⟨fun _ => .error .missingFile, fun _ => .ok none⟩
    let t : TableSource Unit :=
      ⟨fun _ => .ok ⟨⟨7, "main", "orders"⟩, [1], [⟨"day", .int64 false, {}⟩], none, [], [], none⟩,
        fun _ => .ok none⟩
    let p := ordersPage (· + 1) 20 3 [] "n" 0 10
    let q := ordersPage (9 - ·) (-4) 5 [[.int64 8], [.int64 9]] "orders" 30 25
    p.form = q.form ∧ (p.shape s).signature = (q.shape t).signature ∧
      (p.shape s).queryName = (q.shape t).queryName := by
  intro s t p q
  have hform : p.form = q.form := rfl
  exact ⟨hform, signature_of_form_eq s t hform⟩

end Plan
end Relational
