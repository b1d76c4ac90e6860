import Relational.Proofs.Execution.Collecting
import Relational.Proofs.Grouping.Encoding
import Relational.Proofs.Grouping.Reference
import Relational.Proofs.Plan.Columns

/-!
# Grouping by encoded keys

After any rows a grouping set has one group for each of their keys, in order, and its accumulators
took in the rows with the key. A row keeps this because codes tell keys apart, so that what the
groups put out in the end is what grouping is meant to yield.
-/
namespace Relational.Grouping
variable {plans : List CallPlan} {key : List Value} {rows : List Row} {row : Row} {g : Group}
  {groups : List Group} {set : ColumnSet} {s : SetState}

/-- The group of the key once it took in the rows. -/
structure Group.Holds (plans : List CallPlan) (k : List Value) (rows : List Row) (g : Group) :
    Prop where
  code : g.code = encodeKey k
  key : g.key = k
  accumulators : List.Forall₂ (fun plan acc => fed plan rows = .ok acc) plans g.accumulators

theorem fed_nil (plan : CallPlan) : fed plan [] = plan.start := by
  simp only [fed, List.foldlM_nil, bind_pure]

theorem open_eq_ok : Group.open plans key = .ok g ↔ g.Holds plans key [] := by
  simp only [Group.open, bind_eq_ok, mapM_eq_ok, pure_eq_ok, Except.ok.injEq]
  constructor
  · rintro ⟨accumulators, hstart, rfl⟩
    exact ⟨rfl, rfl, by simpa only [fed_nil] using hstart⟩
  · rintro ⟨hcode, rfl, haccumulators⟩
    exact ⟨g.accumulators, by simpa only [fed_nil] using haccumulators, by rw [← hcode]⟩

theorem holds_append :
    g.Holds plans key (rows ++ [row]) ↔
      ∃ before : Group, before.Holds plans key rows ∧ before.send row = .ok g := by
  simp only [Group.send, bind_eq_ok, mapM_eq_ok, pure_eq_ok, Except.ok.injEq]
  constructor
  · rintro ⟨hcode, hkey, haccumulators⟩
    simp only [fed_append] at haccumulators
    obtain ⟨before, hfed, hsend⟩ := forall₂_comp.2 haccumulators
    exact ⟨⟨g.code, g.key, before⟩, ⟨hcode, hkey, hfed⟩, g.accumulators, hsend, rfl⟩
  · rintro ⟨before, ⟨hcode, hkey, hfed⟩, accumulators, hsend, rfl⟩
    refine ⟨hcode, hkey, ?_⟩
    simp only [fed_append]
    exact forall₂_comp.1 ⟨before.accumulators, hfed, hsend⟩

theorem collect_eq_ok {ks : List (List Value)} (hnodup : ks.Nodup)
    (hcode : ∀ k ∈ ks, encodeKey k = encodeKey key → k = key) (part : List Value → List Row)
    (hnew : key ∉ ks → part key = []) :
    (∃ before, List.Forall₂ (fun k g => Group.Holds plans k (part k) g) ks before ∧
        collect plans key row before = .ok groups) ↔
      List.Forall₂ (fun k g => Group.Holds plans k (if k = key then part k ++ [row] else part k) g)
        (if key ∈ ks then ks else ks ++ [key]) groups := by
  induction ks generalizing groups with
  | nil =>
    have hfirst (g : Group) : g.Holds plans key [row] ↔
        ∃ before, Group.open plans key = .ok before ∧ before.send row = .ok g := by
      simp only [open_eq_ok, ← holds_append, List.nil_append]
    simp only [List.forall₂_nil_left_iff, exists_eq_left, List.not_mem_nil, if_false,
      List.nil_append, List.forall₂_cons_left_iff, if_true, hnew List.not_mem_nil, hfirst,
      collect, bind_eq_ok, pure_eq_ok, Except.ok.injEq]
    constructor
    · rintro ⟨g, hopen, g', hsend, rfl⟩
      exact ⟨g', [], ⟨g, hopen, hsend⟩, rfl, rfl⟩
    · rintro ⟨g', _, ⟨g, hopen, hsend⟩, rfl, rfl⟩
      exact ⟨g, hopen, g', hsend, rfl⟩
  | cons k rest ih =>
    obtain ⟨hk, hrest⟩ := List.nodup_cons.1 hnodup
    obtain ⟨hcodek, hcoderest⟩ := List.forall_mem_cons.1 hcode
    by_cases h : k = key
    · subst h
      have hsame : ∀ k' ∈ rest, ∀ g : Group,
          g.Holds plans k' (if k' = k then part k' ++ [row] else part k') ↔
            g.Holds plans k' (part k') := by
        intro k' hk' g
        rw [if_neg (ne_of_mem_of_not_mem hk' hk)]
      simp only [List.mem_cons_self, if_true, List.forall₂_cons_left_iff, forall₂_congr hsame,
        holds_append]
      constructor
      · rintro ⟨_, ⟨g, others, hg, hothers, rfl⟩, hcollect⟩
        simp only [collect, hg.code, if_true, bind_eq_ok, pure_eq_ok, Except.ok.injEq] at hcollect
        obtain ⟨g', hsend, rfl⟩ := hcollect
        exact ⟨g', others, ⟨g, hg, hsend⟩, hothers, rfl⟩
      · rintro ⟨g', others, ⟨g, hg, hsend⟩, hothers, rfl⟩
        refine ⟨g :: others, ⟨g, others, hg, hothers, rfl⟩, ?_⟩
        simp only [collect, hg.code, if_true, hsend, ok_bind, pure_eq_ok]
    · have hmem : key ∈ k :: rest ↔ key ∈ rest := by simp [Ne.symm h]
      have hlist : (if key ∈ k :: rest then k :: rest else k :: rest ++ [key]) =
          k :: (if key ∈ rest then rest else rest ++ [key]) := by
        simp only [hmem]
        split <;> rfl
      rw [hlist]
      simp only [List.forall₂_cons_left_iff, ← ih hrest hcoderest (fun hkey => hnew (mt hmem.1 hkey)),
        if_neg h]
      constructor
      · rintro ⟨_, ⟨g, others, hg, hothers, rfl⟩, hcollect⟩
        simp only [collect, hg.code, mt hcodek h, if_false, bind_eq_ok, pure_eq_ok,
          Except.ok.injEq] at hcollect
        obtain ⟨others', hcollect, rfl⟩ := hcollect
        exact ⟨g, others', hg, ⟨others, hothers, hcollect⟩, rfl⟩
      · rintro ⟨g, others', hg, ⟨others, hothers, hcollect⟩, rfl⟩
        refine ⟨g :: others, ⟨g, others, hg, hothers, rfl⟩, ?_⟩
        simp only [collect, hg.code, mt hcodek h, if_false, hcollect, ok_bind, pure_eq_ok]

theorem keyOf_eq_ok (hrow : ∀ c ∈ set, c < row.length) : keyOf set row = .ok (project set row) := by
  rw [keyOf, mapM_eq_ok, project, List.forall₂_map_right_iff, List.forall₂_same]
  intro c hc
  simp [List.getElem?_eq_getElem (hrow c hc)]

theorem project_sized (hrow : ∀ v ∈ row, v.Sized) : ∀ v ∈ project set row, v.Sized := by
  intro v hv
  obtain ⟨c, -, rfl⟩ := List.mem_map.1 hv
  cases hc : row[c]? with
  | none => trivial
  | some v => exact hrow v (List.mem_of_getElem? hc)

structure SetState.Tracks (plans : List CallPlan) (rows : List Row) (set : ColumnSet)
    (s : SetState) : Prop where
  columns : s.columns = set
  groups : List.Forall₂ (fun k g => Group.Holds plans k (members set rows k) g) (keys set rows)
    s.groups

theorem tracks_append (hcolumns : ∀ c ∈ set, c < row.length)
    (hsized : ∀ r ∈ rows ++ [row], ∀ v ∈ r, v.Sized) :
    s.Tracks plans (rows ++ [row]) set ↔
      ∃ before : SetState, before.Tracks plans rows set ∧ before.send plans row = .ok s := by
  have hcode : ∀ k ∈ keys set rows, encodeKey k = encodeKey (project set row) →
      k = project set row := by
    intro k hk h
    obtain ⟨r, hr, rfl⟩ := mem_keys.1 hk
    refine encodeKey_injective (by simp [project]) ?_ ?_ h
    · exact project_sized (hsized r (List.mem_append_left _ hr))
    · exact project_sized (hsized row (by simp))
  constructor
  · rintro ⟨rfl, hgroups⟩
    simp only [members_append, keys_append] at hgroups
    obtain ⟨before, hbefore, hcollect⟩ :=
      (collect_eq_ok (nodup_keys _ rows) hcode _ members_eq_nil).2 hgroups
    refine ⟨⟨s.columns, before⟩, ⟨rfl, hbefore⟩, ?_⟩
    simp only [SetState.send, keyOf_eq_ok hcolumns, hcollect, ok_bind, pure_eq_ok]
  · rintro ⟨⟨_, before⟩, ⟨rfl, hbefore⟩, hsend⟩
    simp only [SetState.send, keyOf_eq_ok hcolumns, ok_bind, bind_eq_ok, pure_eq_ok,
      Except.ok.injEq] at hsend
    obtain ⟨groups, hcollect, rfl⟩ := hsend
    refine ⟨rfl, ?_⟩
    simp only [members_append, keys_append]
    exact (collect_eq_ok (nodup_keys _ rows) hcode _ members_eq_nil).1 ⟨before, hbefore, hcollect⟩

/-- Every grouping set keeps track of all rows. -/
theorem foldlM_sendRow_eq_ok {sets : List ColumnSet} {states : List SetState}
    (hcolumns : ∀ row ∈ rows, ∀ set ∈ sets, ∀ c ∈ set, c < row.length)
    (hsized : ∀ row ∈ rows, ∀ v ∈ row, v.Sized) :
    rows.foldlM (sendRow plans) (start sets) = .ok states ↔
      List.Forall₂ (fun set s => SetState.Tracks plans rows set s) sets states := by
  induction rows using List.reverseRecOn generalizing states with
  | nil =>
    have hstart (set : ColumnSet) (s : SetState) :
        s.Tracks plans [] set ↔ (⟨set, []⟩ : SetState) = s := by
      constructor
      · rintro ⟨rfl, hgroups⟩
        rw [← List.forall₂_nil_left_iff.1 hgroups]
      · rintro rfl
        exact ⟨rfl, .nil⟩
    simp only [List.foldlM_nil, pure_eq_ok, Except.ok.injEq, hstart, start,
      ← List.forall₂_map_left_iff, List.forall₂_eq_eq_eq]
  | append_singleton rows row ih =>
    have hbefore : ∀ r ∈ rows, r ∈ rows ++ [row] := fun r hr => List.mem_append_left _ hr
    have ih (states : List SetState) := @ih states (fun r hr => hcolumns r (hbefore r hr))
      fun r hr => hsized r (hbefore r hr)
    have hstep : ∀ set ∈ sets, ∀ s : SetState, s.Tracks plans (rows ++ [row]) set ↔
        ∃ before : SetState, before.Tracks plans rows set ∧ before.send plans row = .ok s :=
      fun set hset s => tracks_append (hcolumns row (by simp) set hset) hsized
    rw [forall₂_congr hstep, ← forall₂_comp]
    simp only [List.foldlM_append, List.foldlM_cons, List.foldlM_nil, bind_pure, bind_eq_ok, ih,
      sendRow, mapM_eq_ok]

theorem SetState.Tracks.isEmpty (h : s.Tracks plans rows set) :
    (s.columns.isEmpty && s.groups.isEmpty) = (set.isEmpty && rows.isEmpty) := by
  obtain ⟨rfl, hgroups⟩ := h
  have hlength := hgroups.length_eq
  have hrows : s.groups = [] ↔ rows = [] := by
    rw [← keys_eq_nil, ← List.length_eq_zero_iff, ← hlength, List.length_eq_zero_iff]
  congr 1
  rw [Bool.eq_iff_iff, List.isEmpty_iff, List.isEmpty_iff, hrows]

theorem close_eq_ok :
    (∃ s : SetState, s.Tracks plans rows set ∧ s.close plans = .ok groups) ↔
      List.Forall₂ (fun k g => Group.Holds plans k (members set rows k) g) (groupKeys set rows)
        groups := by
  unfold groupKeys
  split
  next hempty =>
    obtain ⟨-, hrows⟩ := Bool.and_eq_true_iff.1 hempty
    obtain rfl := List.isEmpty_iff.1 hrows
    simp only [List.forall₂_cons_left_iff, List.forall₂_nil_left_iff]
    constructor
    · rintro ⟨s, htracks, hclose⟩
      rw [SetState.close, if_pos (htracks.isEmpty.trans hempty)] at hclose
      simp only [bind_eq_ok, pure_eq_ok, Except.ok.injEq] at hclose
      obtain ⟨g, hopen, rfl⟩ := hclose
      exact ⟨g, [], open_eq_ok.1 hopen, rfl, rfl⟩
    · rintro ⟨g, _, hg, rfl, rfl⟩
      have htracks : SetState.Tracks plans [] set ⟨set, []⟩ := ⟨rfl, .nil⟩
      refine ⟨_, htracks, ?_⟩
      rw [SetState.close, if_pos (htracks.isEmpty.trans hempty), open_eq_ok.2 hg]
      rfl
  next hempty =>
    constructor
    · rintro ⟨s, htracks, hclose⟩
      rw [SetState.close, if_neg (htracks.isEmpty ▸ hempty)] at hclose
      cases hclose
      obtain ⟨rfl, hgroups⟩ := htracks
      exact hgroups
    · intro hgroups
      have htracks : SetState.Tracks plans rows set ⟨set, groups⟩ := ⟨rfl, hgroups⟩
      exact ⟨_, htracks, if_neg (htracks.isEmpty ▸ hempty)⟩

theorem finish_eq_ok {results : List Value} :
    (∃ accumulators, List.Forall₂ (fun plan acc => fed plan rows = .ok acc) plans accumulators ∧
        accumulators.mapM Accumulator.finish = .ok results) ↔
      plans.mapM (callResult rows) = .ok results := by
  simp only [mapM_eq_ok, forall₂_comp, callResult, bind_eq_ok]

theorem outputRow_eq (all set : ColumnSet) (indicator : Bool) (g : Group) :
    outputRow all set indicator g = do
      let marks := if indicator then all.columns.map fun c => Value.boolean (c ∈ set.columns)
        else []
      return all.columns.map (keyValue set g.key) ++ marks ++
        (← g.accumulators.mapM Accumulator.finish) := by
  have hcontains (c : Nat) : set.contains c = decide (c ∈ set.columns) := List.elem_eq_mem c _
  simp only [outputRow, position?_bind, hcontains]
  rfl

theorem outputRow_eq_ok {all : ColumnSet} {indicator : Bool} {out : Row} :
    (∃ g : Group, g.Holds plans key (members set rows key) ∧
        outputRow all set indicator g = .ok out) ↔
      groupRow all set plans indicator rows key = .ok out := by
  simp only [groupRow, outputRow_eq, bind_eq_ok, ← finish_eq_ok, pure_eq_ok, Except.ok.injEq]
  constructor
  · rintro ⟨g, ⟨hcode, rfl, hfed⟩, results, hresults, rfl⟩
    exact ⟨results, ⟨_, hfed, hresults⟩, rfl⟩
  · rintro ⟨results, ⟨accumulators, hfed, hresults⟩, rfl⟩
    exact ⟨⟨encodeKey key, key, accumulators⟩, ⟨rfl, rfl, hfed⟩, results, hresults, rfl⟩

end Relational.Grouping

namespace Relational.ExecUnit
open Grouping

/-- What the groups of the sets put out is what grouping is meant to yield. -/
theorem aggregated_eq_ok {sets : List ColumnSet} {plans : List CallPlan} {indicator : Bool}
    {rows out : List Row} (hcolumns : ∀ row ∈ rows, ∀ c ∈ Plan.groupColumns sets, c < row.length)
    (hsized : ∀ row ∈ rows, ∀ v ∈ row, v.Sized) :
    (aggregated sets plans indicator ⟨rows, none⟩).result = .ok out ↔
      groupRows sets plans indicator rows = .ok out := by
  have hcolumns : ∀ row ∈ rows, ∀ set ∈ sets, ∀ c ∈ set, c < row.length :=
    fun row hrow set hset c hc => hcolumns row hrow c (Plan.mem_groupColumns.2 ⟨set, hset, hc⟩)
  have hpart (set : ColumnSet) (part : List Row) :
      (∃ s : SetState, s.Tracks plans rows set ∧
          emitted (Plan.groupColumns sets) plans indicator s = .ok part) ↔
        (groupKeys set rows).mapM (groupRow (Plan.groupColumns sets) set plans indicator rows) =
          .ok part := by
    simp only [emitted, bind_eq_ok, mapM_eq_ok, ← outputRow_eq_ok, ← forall₂_comp, ← close_eq_ok]
    constructor
    · rintro ⟨s, htracks, groups, hclose, hpart⟩
      exact ⟨groups, ⟨s, htracks, hclose⟩, htracks.columns ▸ hpart⟩
    · rintro ⟨groups, ⟨s, htracks, hclose⟩, hpart⟩
      exact ⟨s, htracks, groups, hclose, htracks.columns ▸ hpart⟩
  simp only [aggregated_result, groupRows, bind_eq_ok, foldlM_sendRow_eq_ok hcolumns hsized,
    map_eq_pure_bind, mapM_eq_ok, ← hpart, ← forall₂_comp]
  constructor
  · rintro ⟨states, htracks, _, -, parts, hparts, hout⟩
    exact ⟨parts, ⟨states, htracks, hparts⟩, hout⟩
  · rintro ⟨parts, ⟨states, htracks, hparts⟩, hout⟩
    exact ⟨states, htracks, rows, rfl, parts, hparts, hout⟩

/-- Over rows that have all grouping columns, aggregation comes to its end with exactly the rows
that grouping is meant to yield, unless an accumulator fails. -/
theorem aggregate_refines_grouping {input : ExecUnit} {contents : Contents} {rows : List Row}
    {sets : List ColumnSet} {calls : List AggregateCall} {plans : List CallPlan}
    {registry : UserAggregate.Registry} (indicator : Bool) (shape : Schema) (hsets : sets ≠ [])
    (hplans : calls.mapM (fun c => CallPlan.ofCall c input.schema registry) = .ok plans)
    (hinput : input.run contents = .ok ⟨rows, none⟩)
    (hcolumns : ∀ row ∈ rows, ∀ c ∈ Plan.groupColumns sets, c < row.length)
    (hsized : ∀ row ∈ rows, ∀ v ∈ row, v.Sized) :
    ∃ unit e, aggregate input sets calls indicator shape registry = .ok unit ∧
      unit.run contents = .ok e ∧
      ∀ out, e.result = .ok out ↔ groupRows sets plans indicator rows = .ok out := by
  refine ⟨grouped input sets plans indicator shape, aggregated sets plans indicator ⟨rows, none⟩,
    ?_, ?_, fun out => aggregated_eq_ok hcolumns hsized⟩
  · have hnonempty : sets.isEmpty = false := by simpa using hsets
    simp [aggregate, hplans, hnonempty]
  · simp only [grouped, hinput, ok_bind, pure_eq_ok]

theorem aggregate_refines_grouping_sales :
    let sales := values [[.boolean true, .int64 3], [.null, .int64 4], [.boolean true, .int64 5]]
      [⟨"online", .boolean true, {}⟩, ⟨"amount", .int64 true, {}⟩]
    ∃ unit e, aggregate sales [.ofList [0], .empty] [⟨.sum, [1], none, "total", .int64 true⟩] true
        [] {} = .ok unit ∧ unit.run (fun _ => []) = .ok e ∧
      e.result = .ok [[.boolean true, .boolean true, .int64 8],
        [.null, .boolean true, .int64 4], [.null, .boolean false, .int64 12]] := by
  intro sales
  have hplans : [⟨.sum, [1], none, "total", .int64 true⟩].mapM
      (fun c => CallPlan.ofCall c sales.schema {}) = .ok [⟨.sum 1 .int64 false, none⟩] := rfl
  have hinput : sales.run (fun _ => []) = .ok ⟨[[.boolean true, .int64 3], [.null, .int64 4],
      [.boolean true, .int64 5]], none⟩ := rfl
  obtain ⟨unit, e, hunit, he, hresult⟩ := aggregate_refines_grouping true []
    (List.cons_ne_nil (.ofList [0]) [.empty]) hplans hinput (by decide) (by simp [Value.Sized])
  exact ⟨unit, e, hunit, he, (hresult _).2 rfl⟩

end Relational.ExecUnit
