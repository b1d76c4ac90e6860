import Mathlib.Data.List.Induction
import Mathlib.Data.List.Nodup
import Relational.Aggregation.Grouping
import Relational.Proofs.Outcome

/-!
# What grouping yields

Grouping without any state: which keys the rows have, which rows have a key, and the row that each
key of each grouping set is given.
-/
namespace Relational.Grouping

def project (set : ColumnSet) (row : Row) : List Value :=
  set.columns.map fun c => row[c]?.getD .null

/-- The distinct keys of the rows by first appearance. -/
def keys (set : ColumnSet) (rows : List Row) : List (List Value) :=
  (rows.map (project set)).eraseDups

def members (set : ColumnSet) (rows : List Row) (key : List Value) : List Row :=
  rows.filter fun row => project set row = key

/-- Over no rows the empty grouping set still has the empty key. -/
def groupKeys (set : ColumnSet) (rows : List Row) : List (List Value) :=
  if set.isEmpty && rows.isEmpty then [[]] else keys set rows

def fed (plan : CallPlan) (rows : List Row) : Except Error Accumulator := do
  rows.foldlM Accumulator.send (← plan.start)

def callResult (rows : List Row) (plan : CallPlan) : Except Error Value := do
  (← fed plan rows).finish

/-- The key's value of the column, null if the set does not have it. -/
def keyValue (set : ColumnSet) (key : List Value) (c : Nat) : Value :=
  ((set.columns.zip key).lookup c).getD .null

def groupRow (all set : ColumnSet) (plans : List CallPlan) (indicator : Bool) (rows : List Row)
    (key : List Value) : Except Error Row := do
  let marks := if indicator then all.columns.map fun c => Value.boolean (c ∈ set.columns) else []
  let results ← plans.mapM (callResult (members set rows key))
  return all.columns.map (keyValue set key) ++ marks ++ results

/-- The rows that aggregation by the grouping sets is meant to put out. -/
def groupRows (sets : List ColumnSet) (plans : List CallPlan) (indicator : Bool)
    (rows : List Row) : Except Error (List Row) := do
  let parts ← sets.mapM fun set =>
    (groupKeys set rows).mapM (groupRow (Plan.groupColumns sets) set plans indicator rows)
  return parts.flatten

variable {set : ColumnSet} {rows : List Row} {row : Row} {key : List Value} {plan : CallPlan}

theorem mem_keys : key ∈ keys set rows ↔ ∃ row ∈ rows, project set row = key := by
  rw [keys, List.mem_eraseDups, List.mem_map]

theorem keys_eq_nil : keys set rows = [] ↔ rows = [] := by
  simp only [List.eq_nil_iff_forall_not_mem, mem_keys, not_exists, not_and]
  exact ⟨fun h row hrow => h _ row hrow rfl, fun h _ row hrow => absurd hrow (h row)⟩

theorem keys_append (rows : List Row) (row : Row) :
    keys set (rows ++ [row]) =
      if project set row ∈ keys set rows then keys set rows
      else keys set rows ++ [project set row] := by
  have hadded : keys set (rows ++ [row]) = keys set rows ++
      ([project set row].removeAll (rows.map (project set))).eraseDups := by
    rw [keys, List.map_append, List.eraseDups_append]
    rfl
  have hmem : project set row ∈ keys set rows ↔
      (rows.map (project set)).contains (project set row) = true := by
    rw [keys, List.mem_eraseDups, List.contains_iff_mem]
  rw [hadded, List.cons_removeAll, List.nil_removeAll]
  by_cases h : project set row ∈ keys set rows
  · rw [if_pos h, if_neg (by rw [hmem.1 h]; decide), List.eraseDups_nil, List.append_nil]
  · rw [if_neg h, if_pos (Bool.eq_false_iff.2 (mt hmem.2 h)), List.eraseDups_cons, List.filter_nil,
      List.eraseDups_nil]

theorem nodup_keys (set : ColumnSet) (rows : List Row) : (keys set rows).Nodup := by
  induction rows using List.reverseRecOn with
  | nil => exact .nil
  | append_singleton rows row ih =>
    rw [keys_append]
    split
    · exact ih
    next hnew => exact List.concat_eq_append ▸ ih.concat hnew

theorem members_append (rows : List Row) (row : Row) (key : List Value) :
    members set (rows ++ [row]) key =
      if key = project set row then members set rows key ++ [row] else members set rows key := by
  rw [members, List.filter_append]
  split <;> simp [*, members, eq_comm]

theorem members_eq_nil (h : key ∉ keys set rows) : members set rows key = [] := by
  simpa [members, mem_keys] using h

theorem fed_append {acc : Accumulator} :
    fed plan (rows ++ [row]) = .ok acc ↔
      ∃ before, fed plan rows = .ok before ∧ before.send row = .ok acc := by
  simp only [fed, List.foldlM_append, ← bind_eq_ok, bind_assoc, List.foldlM_cons,
    List.foldlM_nil, bind_pure]

theorem position?_bind (set : ColumnSet) (key : List Value) (c : Nat) :
    ((set.position? c).bind fun p => key[p]?) = (set.columns.zip key).lookup c := by
  unfold ColumnSet.position?
  generalize set.columns = columns
  induction columns generalizing key with
  | nil => rfl
  | cons d rest ih =>
    cases key with
    | nil => simp
    | cons v key =>
      rw [List.zip_cons_cons, List.lookup_cons, List.findIdx?_cons, ← ih, BEq.comm]
      cases c == d with
      | true => rfl
      | false => cases rest.findIdx? (· == c) <;> rfl

end Relational.Grouping
