import Relational.Plan.Shape
import Relational.Proofs.Expr.Pinned
import Relational.Proofs.Ordered
import Relational.Proofs.Plan.Nodes

/-!
# Pruning partitions

A shape keeps, for the scan of a partitioned table, the texts of the values that the filter above
the scan pins the partition column to. No row that the filter would pass has another text there.
-/
namespace Relational

theorem mem_foldl {α β : Type} {step : List β → α → List β} {b : β} {P : α → Prop}
    {known : List β} {xs : List α} (hstep : ∀ known a, b ∈ step known a → b ∈ known ∨ P a)
    (h : b ∈ xs.foldl step known) : b ∈ known ∨ ∃ a ∈ xs, P a := by
  induction xs generalizing known with
  | nil => exact .inl h
  | cons a rest ih =>
    rcases ih h with h | ⟨later, hlater, hP⟩
    · exact (hstep known a h).imp_right fun hP => ⟨a, List.mem_cons_self, hP⟩
    · exact .inr ⟨later, List.mem_cons_of_mem _ hlater, hP⟩

namespace PlanShape
variable {id key : Nat} {values kept : List String} {known : List (Nat × List String)}

theorem mem_addValues (h : (key, kept) ∈ addValues id values known) :
    (key, kept) ∈ known ∨ key = id ∧ ∀ t ∈ values, t ∈ kept := by
  induction known with
  | nil =>
    cases List.mem_singleton.1 h
    exact .inr ⟨rfl, fun t ht => mem_mergeOrdered (.inr ht)⟩
  | cons entry rest ih =>
    obtain ⟨other, old⟩ := entry
    unfold addValues at h
    split at h
    · rcases List.mem_cons.1 h with h | h
      · cases h
        exact .inr ⟨rfl, fun t ht => mem_mergeOrdered (.inr ht)⟩
      · exact .inl h
    · split at h
      next hid =>
        rcases List.mem_cons.1 h with h | h
        · cases h
          exact .inr ⟨hid.symm, fun t ht => mem_mergeOrdered (.inr ht)⟩
        · exact .inl (List.mem_cons_of_mem _ h)
      · rcases List.mem_cons.1 h with h | h
        · cases h
          exact .inl List.mem_cons_self
        · exact (ih h).imp_left (List.mem_cons_of_mem _)

end PlanShape

theorem TableDescriptor.partitionIndex?_eq_some {d : TableDescriptor} {id c : Nat}
    (hpartition : d.partitionColumn = some id) (hdistinct : d.columnIds.Nodup)
    (hcolumn : d.columnIds[c]? = some id) : d.partitionIndex? = some c := by
  obtain ⟨hc, rfl⟩ := List.getElem?_eq_some_iff.1 hcolumn
  rw [partitionIndex?, hpartition, Option.bind_some, List.findIdx?_eq_some_iff_getElem]
  refine ⟨hc, beq_self_eq_true _, fun j hj => ?_⟩
  have hbelow : j < d.columnIds.length := Nat.lt_trans hj hc
  have hne : d.columnIds[j] ≠ d.columnIds[c] := fun heq =>
    Nat.ne_of_lt hj ((List.Nodup.getElem_inj_iff hdistinct).1 heq)
  simpa using hne

namespace Plan
variable {Q : Type} {source : TableSource Q} {p node : Plan} {key : Nat} {kept : List String}
  {ws : List Value}

theorem pinnedPartition?_eq_some (h : node.pinnedPartition? source = some (key, ws)) :
    ∃ id table shape notes predicate d c,
      node = .filter id (.scan key table shape notes) predicate ∧
      source.table table.id = .ok d ∧ d.partitionIndex? = some c ∧
      predicate.pinned? c = some ws := by
  unfold pinnedPartition? at h
  split at h
  next id scanId table shape notes predicate =>
    simp only [Option.bind_eq_bind, Option.bind_eq_some_iff, Option.pure_def, Option.some.injEq,
      Prod.mk.injEq] at h
    obtain ⟨d, hd, c, hc, us, hus, rfl, rfl⟩ := h
    cases hknown : source.table table.id with
    | error e => rw [hknown] at hd; cases hd
    | ok found =>
      rw [hknown] at hd
      cases hd
      exact ⟨id, table, shape, notes, predicate, d, c, rfl, hknown, hc, hus⟩
  · cases h

/-- Every entry has the texts of what some filter pins, which is not nothing. -/
theorem exists_pinnedPartition? (h : (key, kept) ∈ (p.shape source).partitionValues) :
    ∃ node ∈ p.nodes, ∃ ws, node.pinnedPartition? source = some (key, ws) ∧ ws ≠ [] ∧
      ∀ w ∈ ws, w.text ∈ kept := by
  refine (mem_foldl ?_ h).resolve_left List.not_mem_nil
  intro known node h
  split at h
  · exact .inl h
  · exact .inl h
  next other vs hvs hnode =>
    rcases PlanShape.mem_addValues h with h | ⟨rfl, htexts⟩
    · exact .inl h
    · exact .inr ⟨vs, hnode, hvs, fun w hw => htexts _ (List.mem_map_of_mem hw)⟩

end Plan

theorem Row.Conforms.not_isFloat {row : Row} {schema : Schema} {c : Nat} {field : Field}
    {v : Value} (hrow : row.Conforms schema) (hfield : schema[c]? = some field)
    (htype : field.type.dataType ∈ [DataType.boolean, .int32, .int64, .utf8])
    (hv : row[c]? = some v) : ¬ v.IsFloat := by
  obtain ⟨w, hw, hconforms⟩ := hrow.getElem hfield
  obtain rfl := Option.some.inj (hw.symm.trans hv)
  intro hfloat
  have hdata : w.dataType = .float32 ∨ w.dataType = .float64 := by
    cases w <;> simp_all [Value.IsFloat, Value.dataType]
  rcases hconforms with rfl | hsame | ⟨htext, -⟩
  · exact hfloat
  · rcases hdata with hdata | hdata <;> rw [← hsame, hdata] at htype <;> simp at htype
  · rw [htext] at hdata
    simp at hdata

namespace Plan
variable {Q : Type} {source : TableSource Q} {p : Plan} {kept : List String}

/-- No row is lost by reading only the partitions that the shape keeps for a scan: where the
filter right above it is true, the text of the partition column is among them. -/
theorem partitionValues_sound {id scanId partition c : Nat} {table : TableRef} {notes : Notes}
    {predicate : Expr} {d : TableDescriptor} {field : Field} {code : Compiled} {row : Row}
    (ids : p.checkIds = .ok ())
    (hfilter : .filter id (.scan scanId table d.schema notes) predicate ∈ p.nodes)
    (htable : source.table table.id = .ok d)
    (hdistinct : d.columnIds.Nodup)
    (hpartition : d.partitionColumn = some partition)
    (hcolumn : d.columnIds[c]? = some partition)
    (hfield : d.schema[c]? = some field)
    (htype : field.type.dataType ∈ [DataType.boolean, .int32, .int64, .utf8])
    (hfloat : ∀ part ∈ predicate.conjuncts, ¬ part.FacesFloat c)
    (hkept : (scanId, kept) ∈ (p.shape source).partitionValues)
    (hrow : row.Conforms d.schema)
    (hcompile : predicate.compile d.schema = .ok code)
    (htrue : code.eval row = .ok (.boolean true)) :
    ∃ v, row[c]? = some v ∧ v.text ∈ kept := by
  obtain ⟨node, hnode, ws, hpinned, hws, htexts⟩ := exists_pinnedPartition? hkept
  obtain ⟨id', table', shape', notes', predicate', d', c', rfl, htable', hc', hvalues⟩ :=
    pinnedPartition?_eq_some hpinned
  have hsame := parent_unique (nodup_ids_of_checkIds ids) hnode hfilter
    (List.mem_singleton_self _) (List.mem_singleton_self _) rfl
  cases hsame
  obtain rfl := Except.ok.inj (htable'.symm.trans htable)
  have hindex := TableDescriptor.partitionIndex?_eq_some hpartition hdistinct hcolumn
  obtain rfl := Option.some.inj (hc'.symm.trans hindex)
  obtain ⟨v, hv, -⟩ := hrow.getElem hfield
  have hexact := hrow.not_isFloat hfield htype hv
  have heval := (Expr.evaluate_of_compile hcompile).trans htrue
  obtain ⟨w, hw, htext⟩ := (Expr.pins_of_true hv hexact hfloat hvalues heval).resolve_left hws
  exact ⟨v, hv, htext ▸ htexts w hw⟩

theorem partitionValues_sound_regions :
    let table : TableRef := ⟨7, "main", "orders"⟩
    let shape : Schema := [⟨"id", .int64 false, {}⟩, ⟨"region", ⟨.utf8, true⟩, {}⟩]
    let d : TableDescriptor := ⟨table, [1, 2], shape, some 2, [], [], none⟩
    let source : TableSource Unit := ⟨fun _ => .ok d, fun _ => .ok none⟩
    let regions : Expr := .call .isIn [.column 1 ⟨.utf8, true⟩, .mkLiteral (.utf8 "north"),
      .mkLiteral (.utf8 "east")] (.boolean true)
    let recent : Expr := .call (.compare .gt) [.column 0 (.int64 false), .mkLiteral (.int64 5)]
      (.boolean false)
    let predicate : Expr := .call .and [regions, recent] (.boolean true)
    let p : Plan := .filter 1 (.scan 0 table shape) predicate
    let row : Row := [.int64 8, .utf8 "east"]
    p.checkIds = .ok () ∧ (0, ["east", "north"]) ∈ (p.shape source).partitionValues ∧
      ∃ code, predicate.compile shape = .ok code ∧ code.eval row = .ok (.boolean true) ∧
        ∃ v, row[1]? = some v ∧ v.text ∈ ["east", "north"] := by
  intro table shape d source regions recent predicate p row
  have ids : p.checkIds = .ok () := rfl
  obtain ⟨code, hcompile, htrue⟩ : ∃ code, predicate.compile shape = .ok code ∧
      code.eval row = .ok (.boolean true) := ⟨_, rfl, rfl⟩
  have hfloat : ∀ part ∈ predicate.conjuncts, ¬ part.FacesFloat 1 := by
    intro part hpart
    have hparts : part = regions ∨ part = recent := by
      simpa [predicate, regions, recent, Expr.conjuncts, Expr.conjunctsOf] using hpart
    rintro hfaces
    rcases hparts with rfl | rfl <;>
      simp [regions, recent, Expr.FacesFloat, Expr.mkLiteral, Expr.literal?, Expr.column?,
        Value.IsFloat] at hfaces
  have hkept : (0, ["east", "north"]) ∈ (p.shape source).partitionValues := by
    decide +kernel
  have hrow : row.Conforms shape := .cons (.inr (.inl rfl)) (.cons (.inr (.inl rfl)) .nil)
  exact ⟨ids, hkept, code, hcompile, htrue, partitionValues_sound ids (self_mem_nodes p) rfl
    (by decide) rfl rfl rfl (by decide) hfloat hkept hrow hcompile htrue⟩

end Plan
end Relational
