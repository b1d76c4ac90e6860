import Relational.Metadata.Rule
import Relational.Proofs.Expr.Substitution

/-!
# Expressions through projections

An expression over the rows that a projection puts out becomes one over the rows that it takes in,
when each column is replaced by the expression that computes it. Where all of these have values, the
two come to the same value or to the same error.
-/
namespace Relational.Expr
variable {ε : Type} {f : Nat → SqlType → Except ε Expr} {columns : List Projection} {e d : Expr}
  {i : Nat} {t : SqlType}

/-- A column of the projection is replaced by its expression. What becomes of any other is left
open. -/
def Unprojects (columns : List Projection) (f : Nat → SqlType → Except ε Expr) : Prop :=
  ∀ i t c, columns[i]? = some c → f i t = .ok c.expr

def unproject (columns : List Projection) : Nat → SqlType → Except Unit Expr := fun i _ =>
  match columns[i]? with
  | some c => .ok c.expr
  | none => .error ()

theorem throughProjection_eq_some :
    Metadata.throughProjection columns e = some d ↔ e.substitute (unproject columns) = .ok d :=
  toOption_eq_some

theorem unprojects_unproject (columns : List Projection) :
    Unprojects columns (unproject columns) := by
  intro i t c hc
  simp only [unproject, hc]

theorem Unprojects.eq_ok_iff (hf : Unprojects columns f) (hi : i < columns.length) :
    f i t = .ok d ↔ columns[i].expr = d := by
  rw [hf i t columns[i] (List.getElem?_eq_getElem hi), Except.ok.injEq]

section
variable (he : ∀ i ∈ e.references, i < columns.length)
include he

theorem lt_of_reading : ∀ r ∈ e.readings, r.1 < columns.length :=
  fun r hr => he r.1 (List.mem_map_of_mem hr)

theorem exists_unprojected :
    ∃ pushed, ∀ {ε : Type} {f : Nat → SqlType → Except ε Expr}, Unprojects columns f →
      e.substitute f = .ok pushed := by
  have hread := lt_of_reading he
  have hunproject := unprojects_unproject columns
  obtain ⟨pushed, hpushed⟩ : ∃ pushed, e.substitute (unproject columns) = .ok pushed :=
    exists_substitute fun r hr => ⟨_, (hunproject.eq_ok_iff (hread r hr)).2 rfl⟩
  refine ⟨pushed, fun hf => substitute_congr hpushed fun r hr d hd => ?_⟩
  exact (hf.eq_ok_iff (hread r hr)).2 ((hunproject.eq_ok_iff (hread r hr)).1 hd)

/-- Where the projected expressions have values, the expression has over these the outcome that it
has over the input of the projection. -/
theorem evaluate_unprojected (id : Nat) (input : Plan) {row out : Row}
    (hout : List.Forall₂ (fun c v => c.expr.evaluate input.schema row = .ok v) columns out) :
    ∃ pushed, (∀ {ε : Type} {f : Nat → SqlType → Except ε Expr}, Unprojects columns f →
        e.substitute f = .ok pushed) ∧
      Metadata.throughProjection columns e = some pushed ∧
      pushed.evaluate input.schema row = e.evaluate (Plan.project id input columns).schema out := by
  obtain ⟨pushed, hpushed⟩ := exists_unprojected he
  have hunproject := unprojects_unproject columns
  refine ⟨pushed, hpushed, throughProjection_eq_some.2 (hpushed hunproject), Eq.symm ?_⟩
  refine evaluate_substitute (hpushed hunproject) fun r hr d hd => ?_
  have hr : r.1 < columns.length := lt_of_reading he r hr
  obtain rfl : columns[r.1].expr = d := (hunproject.eq_ok_iff hr).1 hd
  obtain ⟨v, hv, hvalue⟩ := forall₂_exists_getElem? hout (List.getElem?_eq_getElem hr)
  have hwidth : r.1 < (Plan.project id input columns).schema.length := by simpa [Plan.schema]
  exact column_agree hwidth hv hvalue

end

/-- A sum over a difference that is null: dividing fails on both sides, a case that does not come to
divide has one value on both. -/
theorem evaluate_unprojected_quotient :
    let input : Plan := .values 1 [] [⟨"paid", .int64 false, {}⟩, ⟨"due", .int64 false, {}⟩]
    let first : Expr := .column 0 (.int64 false)
    let second : Expr := .column 1 (.int64 false)
    let columns : List Projection :=
      [⟨.call (.arith .plus) [first, second] (.int64 false), "sum"⟩,
        ⟨.call (.arith .minus) [first, second] (.int64 false), "rest"⟩]
    let quotient : Expr := .call (.arith .divide) [first, second] (.float64 false)
    let guarded : Expr := .call .case [.call (.compare .eq) [second, mkLiteral (.int64 0)]
      (.boolean false), mkLiteral .null, quotient] (.float64 true)
    let row : Row := [.int64 3, .int64 3]
    let out : Row := [.int64 6, .int64 0]
    (∀ e ∈ [quotient, guarded], ∀ i ∈ e.references, i < columns.length) ∧
      List.Forall₂ (fun c v => c.expr.evaluate input.schema row = .ok v) columns out ∧
      (∃ pushed, Metadata.throughProjection columns quotient = some pushed ∧
        pushed.evaluate input.schema row = .error (.execution .divisionByZero)) ∧
      ∃ pushed, Metadata.throughProjection columns guarded = some pushed ∧
        pushed.evaluate input.schema row = .ok .null := by
  intro input first second columns quotient guarded row out
  have hread : ∀ e ∈ [quotient, guarded], ∀ i ∈ e.references, i < columns.length := by decide
  have hout : List.Forall₂ (fun c v => c.expr.evaluate input.schema row = .ok v) columns out :=
    .cons rfl (.cons rfl .nil)
  refine ⟨hread, hout, ?_, ?_⟩
  · obtain ⟨pushed, -, hpushed, hsame⟩ :=
      evaluate_unprojected (hread quotient (by simp)) 2 input hout
    exact ⟨pushed, hpushed, hsame.trans rfl⟩
  · obtain ⟨pushed, -, hpushed, hsame⟩ :=
      evaluate_unprojected (hread guarded (by simp)) 2 input hout
    have hnull : guarded.evaluate (Plan.project 2 input columns).schema out = .ok .null := by
      simp only [guarded, quotient, first, second, columns, input, out]
      rfl
    exact ⟨pushed, hpushed, hsame.trans hnull⟩

end Relational.Expr
