import Relational.Proofs.Metadata.Caching
import Relational.Proofs.Metadata.ExactCount
import Relational.Proofs.Metadata.RowBound

/-!
# Row counts of executed plans

Where quantities count exactly, the built-in rules derive both bounds for every node that is
executed, and the number of its rows lies between them.
-/
namespace Relational

namespace Grouping
variable {source : List Row} {all : ColumnSet} {indicator : Bool} {plans : List CallPlan}
  {sets : List ColumnSet} {states : List SetState} {parts : List (List Row)}

theorem le_length_flatten (f : ColumnSet → Bool)
    (h : List.Forall₂ (fun set part => f set = true → 1 ≤ part.length) sets parts) :
    (sets.filter f).length ≤ parts.flatten.length := by
  induction h with
  | nil => exact Nat.zero_le _
  | @cons set part sets parts hpart _ ih =>
    rw [List.flatten_cons, List.length_append]
    cases hset : f set with
    | true =>
      rw [List.filter_cons_of_pos hset, List.length_cons]
      have := hpart hset
      omega
    | false =>
      rw [List.filter_cons_of_neg (by simp [hset])]
      omega

variable (hstates : source.foldlM (sendRow plans) (start sets) = .ok states)
  (hparts : List.Forall₂ (fun s part => ExecUnit.emitted all plans indicator s = .ok part)
    states parts)
include hstates hparts

theorem emptySets_le : Metadata.emptySets sets ≤ parts.flatten.length := by
  refine le_length_flatten _ ((forall₂_comp.1
    ⟨states, foldlM_sendRow_opened hstates, hparts⟩).imp ?_)
  rintro set part ⟨s, hs, hpart⟩ hset
  exact length_emitted_pos (.inr (hs.columns ▸ hset)) hpart

theorem length_sets_le (hsource : source ≠ []) : sets.length ≤ parts.flatten.length := by
  have hgroups := groups_ne_nil hsource hstates
  have hsome : List.Forall₂ (fun (_ : ColumnSet) (part : List Row) => true = true →
      1 ≤ part.length) sets parts := by
    refine (forall₂_comp.1 ⟨states, foldlM_sendRow_opened hstates,
      (List.forall₂_and_left _ _).2 ⟨hgroups, hparts⟩⟩).imp ?_
    rintro set part ⟨s, -, hs, hpart⟩ -
    exact length_emitted_pos (.inl hs) hpart
  simpa using le_length_flatten (fun _ => true) hsome

end Grouping

namespace Metadata

namespace Basis
open ExactCount
variable {b : Basis ℕ∞} {p input : Plan} {id : Nat} {registry : UserAggregate.Registry}
  {contents : Contents} {rows source : List Row} {x : ℕ∞}

structure Bounds (b : Basis ℕ∞) (p : Plan) (low high : ℕ∞) : Prop where
  low : b.Answers p ⟨.minRowCount, .none⟩ (.ok (some (.number low)))
  high : b.Answers p ⟨.maxRowCount, .none⟩ (.ok (some (.number high)))

namespace Bounds
variable {low high : ℕ∞}

theorem gives_min (h : b.Bounds p low high) {node : Plan} {s : Subject}
    (hs : b.node? node s = some p) : b.Gives node (minRowCount s) (.ok (some low)) :=
  gives_askAmount.2 ⟨p, low, hs, h.low, atLeastZero_eq low⟩

theorem gives_max (h : b.Bounds p low high) {node : Plan} {s : Subject}
    (hs : b.node? node s = some p) : b.Gives node (maxRowCount s) (.ok (some high)) :=
  gives_askAmount.2 ⟨p, high, hs, h.high, atLeastZero_eq high⟩

theorem max_passedOn (h : b.Bounds input low high) (hrules : b.rules = .builtin)
    (hinput : p.children = [input])
    (hmax : RuleTable.builtin.lookup p.kind .maxRowCount = some (RowBound.maxPassedOn (Q := ℕ∞))) :
    b.Answers p ⟨.maxRowCount, .none⟩ (.ok (some (.number high))) :=
  answers_of_builtin hrules hmax
    (gives_fromInput_ok (by simp [hinput]) (h.gives_max (by simp [node?, hinput])))

theorem min_passedOn (h : b.Bounds input low high) (hrules : b.rules = .builtin)
    (hinput : p.children = [input])
    (hmin : RuleTable.builtin.lookup p.kind .minRowCount = some (RowBound.minPassedOn (Q := ℕ∞))) :
    b.Answers p ⟨.minRowCount, .none⟩ (.ok (some (.number low))) :=
  answers_of_builtin hrules hmin
    (gives_fromInput_ok (by simp [hinput]) (h.gives_min (by simp [node?, hinput])))

end Bounds

def Reached (b : Basis ℕ∞) (p : Plan) (rows : List Row) : Prop :=
  ∃ low high, b.Bounds p low high ∧ low ≤ rows.length

theorem Bounds.min_aggregate {sets : List ColumnSet} {calls : List AggregateCall}
    {indicator : Bool} {low high : ℕ∞} (h : b.Bounds input low high)
    (hrules : b.rules = .builtin) :
    b.Answers (.aggregate id input sets calls indicator) ⟨.minRowCount, .none⟩
      (.ok (some (.number (if 1 ≤ low then (sets.length : ℕ∞) else emptySets sets)))) := by
  refine answers_of_builtin hrules rfl (gives_bind.2 ⟨some low, h.gives_min rfl, ?_⟩)
  simp only [le_eq, one_eq, decide_eq_true_eq]
  split <;> exact gives_known.2 rfl

theorem Bounds.max_aggregate {sets : List ColumnSet} {calls : List AggregateCall}
    {indicator : Bool} {low high : ℕ∞} (h : b.Bounds input low high)
    (hrules : b.rules = .builtin) :
    ∃ x, b.Answers (.aggregate id input sets calls indicator) ⟨.maxRowCount, .none⟩
      (.ok (some (.number x))) := by
  by_cases hkeyed : keyedSets sets = 0
  · refine ⟨emptySets sets, answers_of_builtin hrules rfl ?_⟩
    simp only [RowBound.maxOfAggregate, hkeyed, if_true]
    exact gives_known.2 rfl
  · refine ⟨emptySets sets + Quantity.times high (keyedSets sets),
      answers_of_builtin hrules rfl ?_⟩
    simp only [RowBound.maxOfAggregate, hkeyed, if_false]
    exact gives_report.2 ⟨high, h.gives_max rfl, rfl⟩

theorem reached_aggregate {sets : List ColumnSet} {calls : List AggregateCall} {indicator : Bool}
    {plans : List CallPlan} {states : List Grouping.SetState} {parts : List (List Row)}
    (hrules : b.rules = .builtin) (hinput : b.Reached input source)
    (hstates : source.foldlM (Grouping.sendRow plans) (Grouping.start sets) = .ok states)
    (hparts : List.Forall₂ (fun s part =>
      ExecUnit.emitted (Plan.groupColumns sets) plans indicator s = .ok part) states parts) :
    b.Reached (.aggregate id input sets calls indicator) parts.flatten := by
  obtain ⟨low, high, hbounds, hlow⟩ := hinput
  obtain ⟨x, hmax⟩ := hbounds.max_aggregate hrules
  refine ⟨_, x, ⟨hbounds.min_aggregate hrules, hmax⟩, ?_⟩
  split
  next hone =>
    have hsource : source ≠ [] := by
      rintro rfl
      exact absurd (hone.trans hlow) (by simp)
    exact_mod_cast Grouping.length_sets_le hstates hparts hsource
  · exact_mod_cast Grouping.emptySets_le hstates hparts

theorem reached_union {inputs : List Plan} {parts : List (List Row)} (hrules : b.rules = .builtin)
    (hinputs : List.Forall₂ (fun child part => b.Reached child part) inputs parts) :
    b.Reached (.setOp id .union inputs true) parts.flatten := by
  obtain ⟨counts, hbounds, hlow⟩ := forall₂_comp.2 (hinputs.imp
    (S := fun child part => ∃ c : ℕ∞ × ℕ∞, b.Bounds child c.1 c.2 ∧ c.1 ≤ part.length)
    fun child part ⟨low, high, hb, hl⟩ => ⟨(low, high), hb, hl⟩)
  have hmin : b.Gives (.setOp id .union inputs true) (forInputs minRowCount inputs.length)
      (.ok (some (counts.map (·.1)))) :=
    gives_inputs_ok (p := .setOp id .union inputs true)
      (List.forall₂_map_right_iff.2 (hbounds.imp fun _ _ hb _ => hb.gives_min))
  have hmax : b.Gives (.setOp id .union inputs true) (forInputs maxRowCount inputs.length)
      (.ok (some (counts.map (·.2)))) :=
    gives_inputs_ok (p := .setOp id .union inputs true)
      (List.forall₂_map_right_iff.2 (hbounds.imp fun _ _ hb _ => hb.gives_max))
  refine ⟨_, _, ⟨answers_of_builtin hrules rfl (gives_report.2 ⟨_, hmin, rfl⟩),
    answers_of_builtin hrules rfl (gives_report.2 ⟨_, hmax, rfl⟩)⟩, ?_⟩
  rw [sum_eq]
  clear hinputs hbounds hmin hmax
  induction hlow with
  | nil => exact le_rfl
  | cons hpart _ ih =>
    rw [List.map_cons, List.sum_cons, List.flatten_cons, List.length_append, Nat.cast_add]
    exact add_le_add hpart ih

theorem reached (hrules : b.rules = .builtin) (hrows : p.collect registry contents = .ok rows) :
    b.Reached p rows := by
  induction p using Plan.inputInduction generalizing rows with
  | node p ih =>
    cases Plan.executed_of_collect hrows with
    | scan =>
      exact ⟨0, ⊤, ⟨answers_of_builtin hrules rfl (gives_known.2 rfl),
        answers_of_builtin hrules rfl (gives_known.2 rfl)⟩, bot_le⟩
    | values =>
      exact ⟨rows.length, rows.length, ⟨answers_of_builtin hrules rfl (gives_known.2 rfl),
        answers_of_builtin hrules rfl (gives_known.2 rfl)⟩, le_rfl⟩
    | filter hinput _ =>
      obtain ⟨low, high, hbounds, -⟩ := ih _ List.mem_cons_self hinput
      exact ⟨0, high, ⟨answers_of_builtin hrules rfl (gives_known.2 rfl),
        hbounds.max_passedOn hrules rfl rfl⟩, bot_le⟩
    | project hinput hcopied =>
      obtain ⟨low, high, hbounds, hlow⟩ := ih _ List.mem_cons_self hinput
      rw [hcopied.length_eq] at hlow
      exact ⟨low, high,
        ⟨hbounds.min_passedOn hrules rfl rfl, hbounds.max_passedOn hrules rfl rfl⟩, hlow⟩
    | aggregate hinput hstates hparts =>
      exact reached_aggregate hrules (ih _ List.mem_cons_self hinput) hstates hparts
    | union hinputs =>
      exact reached_union hrules
        (forall₂_imp_of_mem hinputs fun child hchild _ hpart => ih child hchild hpart)
    | @sort id input collation offset fetch source hinput =>
      obtain ⟨low, high, hbounds, hlow⟩ := ih _ List.mem_cons_self hinput
      refine ⟨limit low offset fetch, limit high offset fetch, ⟨answers_of_builtin hrules rfl
        (gives_report.2 ⟨low, hbounds.gives_min rfl, rfl⟩), answers_of_builtin hrules rfl
        (gives_bind.2 ⟨some high, hbounds.gives_max rfl, gives_known.2 rfl⟩)⟩, ?_⟩
      rw [length_window, length_sort]
      exact limit_le hlow offset fetch
    | exchange hinput =>
      obtain ⟨low, high, hbounds, hlow⟩ := ih _ List.mem_cons_self hinput
      exact ⟨low, high,
        ⟨hbounds.min_passedOn hrules rfl rfl, hbounds.max_passedOn hrules rfl rfl⟩, hlow⟩

end Basis

namespace Query
open Metadata.Basis
variable {root node : Plan} {fresh q : Query ℕ∞} {registry : UserAggregate.Registry}
  {contents : Contents} {rows : List Row}

/-- Whatever was asked before, both bounds are known for a node that is executed, and the number
of its rows lies between them. -/
theorem rowCount_between {α : Type} {source : TableSource ℕ∞} {scanRows : ℕ∞} {splits : Nat}
    {caching : Bool} {earlier : List (Plan × Inquiry ℕ∞ α)} {outcomes : List (Except Error α)}
    (hfresh : ofPlan root .builtin source scanRows splits caching = .ok fresh)
    (hearlier : ∀ r ∈ earlier, r.1 ∈ root.nodes)
    (hserve : fresh.serve earlier = some (outcomes, q)) (hnode : node ∈ root.nodes)
    (hrows : node.collect registry contents = .ok rows) :
    ∃ low high q₁ q₂, q.inquire node (minRowCount .self) = some (.ok (some low), q₁) ∧
      q₁.inquire node (maxRowCount .self) = some (.ok (some high), q₂) ∧
      low ≤ rows.length ∧ rows.length ≤ high := by
  obtain ⟨hbasis, hids, hsound⟩ := serve_fresh hfresh hearlier hserve
  have hrules : q.rules = .builtin := by rw [hbasis]
  have hmem : node ∈ q.root.nodes := by rw [hbasis]; exact hnode
  obtain ⟨low, high, hbounds, hlow⟩ := reached (b := q.toBasis) hrules hrows
  have hhigh : (rows.length : ℕ∞) ≤ high :=
    bounded hrules (fun _ _ _ _ _ _ _ _ _ => trivial) high rows hbounds.high hrows
  obtain ⟨q₁, hmin⟩ := inquire_of_gives hids hsound hmem (hbounds.gives_min (s := .self) rfl)
  obtain ⟨hsame, hsound₁, -⟩ := inquire_sound hids hsound hmem hmin
  have hgives : q₁.Gives node (maxRowCount .self) (.ok (some high)) := by
    rw [hsame]
    exact hbounds.gives_max rfl
  obtain ⟨q₂, hmax⟩ :=
    inquire_of_gives (by rw [hsame]; exact hids) (by rw [hsame]; exact hsound₁)
      (by rw [hsame]; exact hmem) hgives
  exact ⟨low, high, q₁, q₂, hmin, hmax, hlow, hhigh⟩

theorem rowCount_between_grouped :
    let table : TableRef := ⟨7, "main", "orders"⟩
    let shape : Schema := [⟨"customer", .int64 false, {}⟩]
    let source : TableSource ℕ∞ := ⟨fun _ => .error (.planning (.unknownTableId 7)), fun _ => .ok none⟩
    let contents : Contents := fun _ => []
    let grouped : Plan := .aggregate 1 (.scan 0 table shape) [.empty, .ofList [0]] [] false
    let p : Plan := .sort 2 grouped [] none (some 5)
    ∃ fresh, ofPlan p .builtin source 1 1 true = .ok fresh ∧
      grouped.collect {} contents = .ok [[.null]] ∧
      ∃ low high q₁ q₂, fresh.inquire grouped (minRowCount .self) = some (.ok (some low), q₁) ∧
        q₁.inquire grouped (maxRowCount .self) = some (.ok (some high), q₂) ∧
        low ≤ (1 : ℕ) ∧ (1 : ℕ) ≤ high := by
  intro table shape source contents grouped p
  obtain ⟨fresh, hfresh⟩ : ∃ fresh : Query ℕ∞, ofPlan p .builtin source 1 1 true = .ok fresh :=
    ⟨_, rfl⟩
  have hrows : grouped.collect {} contents = .ok [[.null]] := rfl
  have hserve : fresh.serve ([] : List (Plan × Inquiry ℕ∞ Unit)) = some ([], fresh) := rfl
  have hnode : grouped ∈ p.nodes := Plan.mem_nodes_of_mem_children List.mem_cons_self
  exact ⟨fresh, hfresh, hrows, rowCount_between hfresh (by simp) hserve hnode hrows⟩

end Query
end Metadata
end Relational
