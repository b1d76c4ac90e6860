import Relational.Proofs.Aggregation.Rearranging
import Relational.Proofs.Grouping.Opening
import Relational.Proofs.Grouping.Refinement

/-!
# Groups of rearranged rows

Rows in another order open the same groups in another order, and each group has the same members.
Where no call depends on the order of the members, the same rows are put out.
-/
namespace Relational.Grouping
variable {input : Schema} {calls : List AggregateCall} {registry : UserAggregate.Registry}
  {plans : List CallPlan} {all set : ColumnSet} {sets : List ColumnSet} {indicator : Bool}
  {rows rows' : List Row} {key : List Value} {out out' : Row}

theorem keys_perm (h : rows.Perm rows') : (keys set rows).Perm (keys set rows') := by
  refine (List.perm_ext_iff_of_nodup (nodup_keys set rows) (nodup_keys set rows')).2 fun key => ?_
  simp only [mem_keys, h.mem_iff]

theorem groupKeys_perm (h : rows.Perm rows') :
    (groupKeys set rows).Perm (groupKeys set rows') := by
  unfold groupKeys
  rw [h.isEmpty_eq]
  split
  · exact .refl _
  · exact keys_perm h

theorem members_perm (h : rows.Perm rows') :
    (members set rows key).Perm (members set rows' key) :=
  h.filter _

section
variable (hplans : calls.mapM (fun c => CallPlan.ofCall c input registry) = .ok plans)
  (hfree : ∀ c ∈ calls, c.OrderFree input) (hrows : ∀ row ∈ rows, row.Conforms input)
  (hperm : rows.Perm rows')
include hplans hfree hrows hperm

theorem groupRow_unique (h : groupRow all set plans indicator rows key = .ok out)
    (h' : groupRow all set plans indicator rows' key = .ok out') : out = out' := by
  simp only [groupRow, bind_eq_ok, pure_eq_ok, Except.ok.injEq] at h h'
  obtain ⟨results, hresults, rfl⟩ := h
  obtain ⟨results', hresults', rfl⟩ := h'
  have hmembers : ∀ row ∈ members set rows key, row.Conforms input :=
    fun row hrow => hrows row (List.mem_of_mem_filter hrow)
  have hcall : ∀ plan ∈ plans, ∀ v w, callResult (members set rows key) plan = .ok v →
      callResult (members set rows' key) plan = .ok w → v = w := by
    intro plan hmem v w
    obtain ⟨c, hc, hplan⟩ := forall₂_exists_mem (mapM_eq_ok.1 hplans) hmem
    exact callResult_perm hplan (hfree c hc) hmembers (members_perm hperm)
  rw [mapM_unique hcall hresults hresults']

theorem groupRows_perm {out out' : List Row} (h : groupRows sets plans indicator rows = .ok out)
    (h' : groupRows sets plans indicator rows' = .ok out') : out.Perm out' := by
  simp only [groupRows, bind_eq_ok, pure_eq_ok, Except.ok.injEq] at h h'
  obtain ⟨parts, hparts, rfl⟩ := h
  obtain ⟨parts', hparts', rfl⟩ := h'
  have hboth := forall₂_comp.1 ⟨sets, (mapM_eq_ok.1 hparts).flip, mapM_eq_ok.1 hparts'⟩
  refine List.Perm.flatten_congr (hboth.imp ?_)
  rintro part part' ⟨set, hpart, hpart'⟩
  exact mapM_perm (groupKeys_perm hperm)
    (fun key _ out out' => groupRow_unique hplans hfree hrows hperm) hpart hpart'

end

theorem lt_of_foldlM_sendRow {states : List SetState}
    (h : rows.foldlM (sendRow plans) (start sets) = .ok states) :
    ∀ row ∈ rows, ∀ c ∈ Plan.groupColumns sets, c < row.length := by
  induction rows using List.reverseRecOn generalizing states with
  | nil => simp
  | append_singleton rows row ih =>
    simp only [List.foldlM_append, List.foldlM_cons, List.foldlM_nil, bind_pure, bind_eq_ok] at h
    obtain ⟨before, hbefore, hsend⟩ := h
    simp only [List.forall_mem_append, List.forall_mem_singleton]
    refine ⟨ih hbefore, fun c hc => ?_⟩
    obtain ⟨set, hset, hc⟩ := Plan.mem_groupColumns.1 hc
    have hsent := forall₂_comp.1 ⟨before, foldlM_sendRow_opened hbefore, mapM_eq_ok.1 hsend⟩
    obtain ⟨s', -, s, ⟨rfl, -⟩, hs⟩ := forall₂_exists_mem hsent.flip hset
    simp only [SetState.send, bind_eq_ok] at hs
    obtain ⟨key, hkey, -⟩ := hs
    obtain ⟨v, -, hv⟩ := forall₂_exists_mem (eq_of_keyOf hkey).flip hc
    exact (List.getElem?_eq_some_iff.1 hv).1

end Relational.Grouping

namespace Relational.ExecUnit
open Grouping

/-- An aggregate that comes to its end over conforming rows and over the same rows in another order
emits the same rows both times, in some order. -/
theorem aggregate_perm {input unit : ExecUnit} {contents contents' : Contents}
    {sets : List ColumnSet} {calls : List AggregateCall} {indicator : Bool} {shape : Schema}
    {registry : UserAggregate.Registry} {rows rows' out out' : List Row}
    (hunit : aggregate input sets calls indicator shape registry = .ok unit)
    (hfree : ∀ c ∈ calls, c.OrderFree input.schema)
    (hinput : input.run contents = .ok ⟨rows, none⟩)
    (hinput' : input.run contents' = .ok ⟨rows', none⟩) (hperm : rows.Perm rows')
    (hrows : ∀ row ∈ rows, row.Conforms input.schema) (hsized : ∀ row ∈ rows, ∀ v ∈ row, v.Sized)
    (hout : unit.run contents = .ok ⟨out, none⟩)
    (hout' : unit.run contents' = .ok ⟨out', none⟩) : out.Perm out' := by
  simp only [aggregate, bind_eq_ok] at hunit
  obtain ⟨plans, hplans, hunit⟩ := hunit
  obtain rfl : grouped input sets plans indicator shape = unit := by
    split at hunit
    · cases hunit
    · exact Except.ok.inj hunit
  simp only [grouped, hinput, hinput', ok_bind, pure_eq_ok, Except.ok.injEq,
    ← Emission.result_eq_ok] at hout hout'
  have hcolumns : ∀ row ∈ rows, ∀ c ∈ Plan.groupColumns sets, c < row.length := by
    have htaken := hout
    simp only [aggregated_result, bind_eq_ok] at htaken
    obtain ⟨states, hstates, -⟩ := htaken
    exact lt_of_foldlM_sendRow hstates
  have hcolumns' : ∀ row ∈ rows', ∀ c ∈ Plan.groupColumns sets, c < row.length :=
    fun row hrow => hcolumns row (hperm.mem_iff.2 hrow)
  have hsized' : ∀ row ∈ rows', ∀ v ∈ row, v.Sized :=
    fun row hrow => hsized row (hperm.mem_iff.2 hrow)
  exact groupRows_perm hplans hfree hrows hperm ((aggregated_eq_ok hcolumns hsized).1 hout)
    ((aggregated_eq_ok hcolumns' hsized').1 hout')

theorem aggregate_perm_reversed :
    let sales : Schema := [⟨"shop", ⟨.int32, true⟩, {}⟩, ⟨"amount", .int64 true, {}⟩,
      ⟨"online", .boolean true, {}⟩]
    let rows : List Row := [[.int32 7, .int64 3, .boolean true], [.int32 2, .int64 4, .null],
      [.int32 7, .int64 5, .boolean true], [.null, .int64 6, .boolean false]]
    let calls : List AggregateCall := [⟨.sum, [1], some 2, "total", .int64 true⟩,
      ⟨.min, [1], none, "least", .int64 true⟩]
    let shop : Row := [.int32 7, .int64 8, .int64 3]
    let other : Row := [.int32 2, .null, .int64 4]
    let unknown : Row := [.null, .null, .int64 6]
    let all : Row := [.null, .int64 8, .int64 3]
    let input := scan ⟨0, "main", "sales"⟩ sales
    ∃ unit, aggregate input [.ofList [0], .empty] calls false [] {} = .ok unit ∧
      unit.run (fun _ => rows) = .ok ⟨[shop, other, unknown, all], none⟩ ∧
      unit.run (fun _ => rows.reverse) = .ok ⟨[unknown, shop, other, all], none⟩ ∧
      [shop, other, unknown, all].Perm [unknown, shop, other, all] := by
  intro sales rows calls shop other unknown all input
  have hconforms : ∀ row ∈ rows, row.Conforms sales := by
    simp [rows, sales, Row.Conforms, Value.Conforms, Value.dataType, SqlType.int64,
      SqlType.boolean]
  have hsized : ∀ row ∈ rows, ∀ v ∈ row, v.Sized := by simp [rows, Value.Sized]
  have hfree : ∀ c ∈ calls, c.OrderFree sales := by
    simp [calls, AggregateCall.OrderFree, AggregateCall.argumentType, sales, SqlType.int64,
      DataType.Ordered]
  have hinput : input.run (fun _ => rows) = .ok ⟨rows, none⟩ := rfl
  have hinput' : input.run (fun _ => rows.reverse) = .ok ⟨rows.reverse, none⟩ := rfl
  have hunit : aggregate input [.ofList [0], .empty] calls false [] {} = .ok (grouped input
      [.ofList [0], .empty] [⟨.sum 1 .int64 false, some 2⟩, ⟨.pick .min 1 .int64, none⟩] false []) :=
    rfl
  exact ⟨_, hunit, rfl, rfl, aggregate_perm hunit hfree hinput hinput' rows.reverse_perm.symm
    hconforms hsized rfl rfl⟩

end Relational.ExecUnit
