import Relational.Execution.Emission
import Relational.Proofs.Outcome

/-!
# Results of emissions

The rows of an emission that comes to its end, for every way in which emissions are composed, and
the rows that pass through a step before it fails.
-/
namespace Relational.Emission
variable {e : Emission} {rows : List Row}

theorem result_eq_ok : e.result = .ok rows ↔ e = ⟨rows, none⟩ := by
  obtain ⟨emitted, failure⟩ := e
  cases failure <;> simp [result]

@[simp] theorem fail_result (error : Error) : (fail error).result = .error error := rfl

theorem ofResult_result (x : Except Error (List Row)) : (ofResult x).result = x := by
  cases x <;> rfl

theorem prepend_result (rows : List Row) (e : Emission) :
    (e.prepend rows).result = (rows ++ ·) <$> e.result := by
  obtain ⟨emitted, failure⟩ := e
  cases failure <;> rfl

theorem append_result (a b : Emission) :
    (a.append b).result = do return (← a.result) ++ (← b.result) := by
  obtain ⟨emitted, failure⟩ := a
  cases failure with
  | none => exact prepend_result emitted b
  | some error => rfl

theorem concat_result (es : List Emission) :
    (concat es).result = List.flatten <$> es.mapM result := by
  induction es with
  | nil => rfl
  | cons e rest ih =>
    rw [concat, append_result, ih, List.mapM_cons]
    cases e.result <;> cases rest.mapM result <;> rfl

theorem sequence_result (outcomes : List (Except Error (List Row))) :
    (sequence none outcomes).result = List.flatten <$> outcomes.mapM id := by
  induction outcomes with
  | nil => rfl
  | cons outcome rest ih =>
    rw [List.mapM_cons]
    cases outcome with
    | error error => rfl
    | ok rows =>
      rw [sequence, prepend_result, ih]
      cases rest.mapM id <;> rfl

theorem sequence_map_result {α : Type} (f : α → Except Error Row) (xs : List α) :
    (sequence none (xs.map fun x => do return [← f x])).result = xs.mapM f := by
  induction xs with
  | nil => rfl
  | cons x rest ih =>
    rw [List.mapM_cons, List.map_cons, ← ih]
    cases f x with
    | error error => rfl
    | ok row => exact prepend_result [row] _

theorem sequence_failed (error : Error) (outcomes : List (Except Error (List Row))) :
    (sequence (some error) outcomes).result ≠ .ok rows := by
  induction outcomes generalizing rows with
  | nil => simp [sequence, result]
  | cons outcome rest ih =>
    cases outcome with
    | error e => simp [sequence]
    | ok part =>
      rw [sequence, prepend_result]
      cases hrest : (sequence (some error) rest).result with
      | error e => simp
      | ok rows => exact absurd hrest ih

theorem through_eq_ok {f : Row → Except Error (List Row)} :
    (e.through f).result = .ok rows ↔
      ∃ source parts, e.result = .ok source ∧
        List.Forall₂ (fun row part => f row = .ok part) source parts ∧ parts.flatten = rows := by
  obtain ⟨emitted, failure⟩ := e
  cases failure with
  | some error =>
    refine iff_of_false (sequence_failed error _) ?_
    rintro ⟨source, _, hsource, -⟩
    cases hsource
  | none =>
    have hthrough : ((Emission.mk emitted none).through f).result =
        List.flatten <$> emitted.mapM f := by
      have hsequence := sequence_result (emitted.map f)
      rw [List.mapM_map] at hsequence
      exact hsequence
    rw [hthrough, map_eq_pure_bind, bind_eq_ok]
    constructor
    · rintro ⟨parts, hparts, hrows⟩
      exact ⟨emitted, parts, rfl, mapM_eq_ok.1 hparts, Except.ok.inj hrows⟩
    · rintro ⟨source, parts, hsource, hparts, rfl⟩
      cases hsource
      exact ⟨parts, mapM_eq_ok.2 hparts, rfl⟩

theorem through_rows (e : Emission) (f : Row → Except Error (List Row)) :
    ∃ read parts, read <+: e.rows ∧ List.Forall₂ (fun row part => f row = .ok part) read parts ∧
      (e.through f).rows = parts.flatten := by
  obtain ⟨rows, failure⟩ := e
  simp only [through]
  induction rows with
  | nil => exact ⟨[], [], List.nil_prefix, .nil, rfl⟩
  | cons row rest ih =>
    cases hrow : f row with
    | error error => exact ⟨[], [], List.nil_prefix, .nil, by simp [sequence, fail, hrow]⟩
    | ok part =>
      obtain ⟨read, parts, hread, hparts, hrows⟩ := ih
      refine ⟨row :: read, part :: parts, ?_, .cons hrow hparts, ?_⟩
      · exact List.cons_prefix_cons.2 ⟨rfl, hread⟩
      · simp [sequence, prepend, hrow, hrows]

end Relational.Emission
