import Relational.Execution.Unit
import Relational.Proofs.Aggregation.Extremes
import Relational.Proofs.Execution.Ordering

/-!
# Stable sorting

Which of two rows a collation puts first, said without comparing. A sort emits a window of the only
arrangement of its rows in which none precedes an earlier one and rows that tie stand as they
arrived.
-/
namespace Relational

namespace Value
variable {t : DataType} {v w : Value}

def Below (v w : Value) : Prop := v.AtMost w ∧ v ≠ w

theorem compare_iff {α : Type} [LinearOrder α] (a b : α) :
    (compare a b = .lt ↔ a ≤ b ∧ a ≠ b) ∧ (compare a b = .eq ↔ a = b) ∧
      (compare a b = .gt ↔ b ≤ a ∧ b ≠ a) := by
  rw [compare_lt_iff_lt, compare_eq_iff_eq, compare_gt_iff_gt, ← lt_iff_le_and_ne,
    ← lt_iff_le_and_ne]
  exact ⟨Iff.rfl, Iff.rfl, Iff.rfl⟩

theorem compare?_of_sortable (ht : t.Sortable) (hv : v.dataType = t) (hw : w.dataType = t) :
    ∃ o, v.compare? w = some o ∧ (o = .lt ↔ v.Below w) ∧ (o = .eq ↔ v = w) ∧
      (o = .gt ↔ w.Below v) := by
  cases ht <;> cases v <;> cases hv <;> cases w <;> cases hw <;> refine ⟨_, rfl, ?_⟩
  case boolean.boolean.refl.boolean.refl a b =>
    simpa only [Below, AtMost, Ne, boolean.injEq] using compare_iff a b
  case int32.int32.refl.int32.refl a b =>
    simpa only [Below, AtMost, Ne, int32.injEq, Int32.toInt_inj] using compare_iff a.toInt b.toInt
  case int64.int64.refl.int64.refl a b =>
    simpa only [Below, AtMost, Ne, int64.injEq, Int64.toInt_inj] using compare_iff a.toInt b.toInt
  case utf8.utf8.refl.utf8.refl a b =>
    simpa only [Below, AtMost, Ne, utf8.injEq] using compare_iff a b

theorem not_below_null : ¬v.Below .null ∧ ¬Below .null v := by
  constructor
  · rintro ⟨h, -⟩
    cases v <;> exact h
  · rintro ⟨h, -⟩
    exact h

end Value

namespace SortKey
open Value
variable {k : SortKey} {t : DataType} {v w : Value}

/-- The value comes first under the key: nulls on their side whatever the direction. -/
inductive Precedes (k : SortKey) : Value → Value → Prop
  | nullFirst {v : Value} (hk : k.nulls = .first) (hv : v ≠ .null) : Precedes k .null v
  | nullLast {v : Value} (hk : k.nulls = .last) (hv : v ≠ .null) : Precedes k v .null
  | ascending {v w : Value} (hk : k.direction = .ascending) (h : v.Below w) : Precedes k v w
  | descending {v w : Value} (hk : k.direction = .descending) (h : w.Below v) : Precedes k v w

theorem precedes_null (hv : v ≠ .null) :
    (k.Precedes .null v ↔ k.nulls = .first) ∧ (k.Precedes v .null ↔ k.nulls = .last) := by
  constructor
  · refine ⟨fun h => ?_, fun hk => .nullFirst hk hv⟩
    cases h with
    | nullFirst hk => exact hk
    | nullLast _ hnull => exact absurd rfl hnull
    | ascending _ h => exact absurd h not_below_null.2
    | descending _ h => exact absurd h not_below_null.1
  · refine ⟨fun h => ?_, fun hk => .nullLast hk hv⟩
    cases h with
    | nullFirst _ hnull => exact absurd rfl hnull
    | nullLast hk => exact hk
    | ascending _ h => exact absurd h not_below_null.1
    | descending _ h => exact absurd h not_below_null.2

theorem precedes_iff (hv : v ≠ .null) (hw : w ≠ .null) :
    k.Precedes v w ↔ match k.direction with
      | .ascending => v.Below w
      | .descending => w.Below v := by
  constructor
  · rintro (⟨hk, -⟩ | ⟨hk, -⟩ | ⟨hk, h⟩ | ⟨hk, h⟩)
    · exact absurd rfl hv
    · exact absurd rfl hw
    · rwa [hk]
    · rwa [hk]
  · cases hk : k.direction with
    | ascending => exact .ascending hk
    | descending => exact .descending hk

theorem compare_iff_precedes (ht : t.Sortable) (hv : v.Conforms t) (hw : w.Conforms t) :
    (k.compare v w = .lt ↔ k.Precedes v w) ∧ (k.compare v w = .eq ↔ v = w) := by
  by_cases hvn : v = .null <;> by_cases hwn : w = .null
  · subst hvn hwn
    have hnot : ¬k.Precedes .null .null := by
      rintro (⟨-, h⟩ | ⟨-, h⟩ | ⟨-, h⟩ | ⟨-, h⟩)
      · exact h rfl
      · exact h rfl
      · exact not_below_null.1 h
      · exact not_below_null.1 h
    simp [compare, isNull, hnot]
  · subst hvn
    rw [(precedes_null hwn).1]
    cases hk : k.nulls <;> simp [compare, isNull, hk, Ne.symm hwn]
  · subst hwn
    rw [(precedes_null hvn).2]
    cases hk : k.nulls <;> simp [compare, isNull, hk, hvn]
  · have hvs : v.isNull = false := by simpa [← Bool.not_eq_true] using hvn
    have hws : w.isNull = false := by simpa [← Bool.not_eq_true] using hwn
    obtain ⟨o, ho, hlt, heq, hgt⟩ :=
      compare?_of_sortable ht (hv.dataType_eq ht hvs) (hw.dataType_eq ht hws)
    rw [precedes_iff hvn hwn]
    cases hk : k.direction with
    | ascending => simp [compare, sortOrder, hvs, hws, ho, hk, hlt, heq]
    | descending => simp [compare, sortOrder, hvs, hws, ho, hk, Ordering.swap_eq_lt, heq, hgt]

end SortKey

namespace Collation
variable {c : Collation} {a b : Row} {rows : List Row}

/-- The row comes first by the first key in whose column the rows differ. -/
inductive Precedes : Collation → Row → Row → Prop
  | here {k : SortKey} {rest : Collation} {a b : Row} {v w : Value} (hv : a[k.column]? = some v)
      (hw : b[k.column]? = some w) (h : k.Precedes v w) : Precedes (k :: rest) a b
  | later {k : SortKey} {rest : Collation} {a b : Row} (hk : a[k.column]? = b[k.column]?)
      (h : Precedes rest a b) : Precedes (k :: rest) a b

def Ties (c : Collation) (a b : Row) : Prop := ∀ k ∈ c, a[k.column]? = b[k.column]?

theorem compare_iff_precedes (hcolumns : ∀ k ∈ c, ∀ row ∈ rows, k.column < row.length)
    (huniform : ∀ k ∈ c, Uniform rows k.column) (ha : a ∈ rows) (hb : b ∈ rows) :
    (c.compare a b = .lt ↔ c.Precedes a b) ∧ (c.compare a b = .eq ↔ c.Ties a b) := by
  induction c with
  | nil =>
    have hnot : ¬Precedes [] a b := nofun
    simp [compare, hnot, Ties]
  | cons k rest ih =>
    obtain ⟨hk, hcolumns⟩ := List.forall_mem_cons.1 hcolumns
    obtain ⟨⟨t, ht, hvalues⟩, huniform⟩ := List.forall_mem_cons.1 huniform
    obtain ⟨hlt, heq⟩ := ih hcolumns huniform
    obtain ⟨v, hv⟩ : ∃ v, a[k.column]? = some v := ⟨_, List.getElem?_eq_getElem (hk a ha)⟩
    obtain ⟨w, hw⟩ : ∃ w, b[k.column]? = some w := ⟨_, List.getElem?_eq_getElem (hk b hb)⟩
    obtain ⟨hklt, hkeq⟩ :=
      SortKey.compare_iff_precedes (k := k) ht (hvalues a ha v hv) (hvalues b hb w hw)
    have hprecedes : Precedes (k :: rest) a b ↔ k.Precedes v w ∨ v = w ∧ Precedes rest a b := by
      constructor
      · rintro (⟨hv', hw', h⟩ | ⟨hsame, h⟩)
        · cases hv.symm.trans hv'
          cases hw.symm.trans hw'
          exact .inl h
        · rw [hv, hw, Option.some.injEq] at hsame
          exact .inr ⟨hsame, h⟩
      · rintro (h | ⟨hsame, h⟩)
        · exact .here hv hw h
        · exact .later (by rw [hv, hw, hsame]) h
    have hties : Ties (k :: rest) a b ↔ v = w ∧ Ties rest a b := by
      simp [Ties, hv, hw]
    rw [compare_cons hv hw, Ordering.then_eq_lt, Ordering.then_eq_eq, hprecedes, hties, hklt, hkeq,
      hlt, heq]
    exact ⟨Iff.rfl, Iff.rfl⟩

/-- Every position once, none in front of one whose row precedes its own, and those of rows that tie
as they arrived. -/
structure Arranges (c : Collation) (rows : List Row) (order : List Nat) : Prop where
  positions : order.Perm (List.range rows.length)
  sorted : order.Pairwise fun i j => ∀ a ∈ rows[i]?, ∀ b ∈ rows[j]?, ¬c.Precedes b a
  stable : order.Pairwise fun i j => ∀ a ∈ rows[i]?, ∀ b ∈ rows[j]?, c.Ties a b → i < j

def arrangement (c : Collation) (rows : List Row) : List Nat :=
  stableSort (fun i j => c.compare (rows.getD i []) (rows.getD j []) == .lt)
    (List.range rows.length)

theorem sort_eq_map (c : Collation) (rows : List Row) :
    c.sort rows = (c.arrangement rows).map fun i => rows.getD i [] := by
  have hrows : (List.range rows.length).map (fun i => rows.getD i []) = rows := by
    refine List.ext_getElem (by simp) fun i hi hj => ?_
    simp [hj]
  exact (congrArg c.sort hrows).symm.trans (stableSort_map _ _)

section Arrangement
variable {order other : List Nat} (hcolumns : ∀ k ∈ c, ∀ row ∈ rows, k.column < row.length)
  (huniform : ∀ k ∈ c, Uniform rows k.column)
include hcolumns huniform

/-- Among the rows at hand what a collation compares is an order. -/
theorem exists_order : ∃ cmp : Nat → Nat → Ordering, Std.TransCmp cmp ∧
    ∀ i < rows.length, ∀ j < rows.length,
      c.compare (rows.getD i []) (rows.getD j []) = cmp i j := by
  obtain ⟨cmp, hcmp, hsame⟩ := compare_eq (fun k hk => .inl (hcolumns k hk)) huniform
  refine ⟨fun i j => cmp (rows.getD i []) (rows.getD j []),
    transCmp_comap fun i => rows.getD i [], fun i hi j hj => ?_⟩
  exact hsame _ (by simp [hi]) _ (by simp [hj])

theorem arranges_iff {cmp : Nat → Nat → Ordering} [Std.TransCmp cmp]
    (hcmp : ∀ i < rows.length, ∀ j < rows.length,
      c.compare (rows.getD i []) (rows.getD j []) = cmp i j) :
    Arranges c rows order ↔
      order.Perm (List.range rows.length) ∧ order.Pairwise (Leads cmp (· < ·)) := by
  have hpair {i j : Nat} (hi : i < rows.length) (hj : j < rows.length) :
      ((∀ a ∈ rows[i]?, ∀ b ∈ rows[j]?, ¬c.Precedes b a) ∧
        ∀ a ∈ rows[i]?, ∀ b ∈ rows[j]?, c.Ties a b → i < j) ↔ Leads cmp (· < ·) i j := by
    have ha : rows[i]? = some (rows.getD i []) := by simp [hi]
    have hb : rows[j]? = some (rows.getD j []) := by simp [hj]
    have hmema := List.mem_of_getElem? ha
    have hmemb := List.mem_of_getElem? hb
    obtain ⟨hlt, -⟩ := compare_iff_precedes hcolumns huniform hmemb hmema
    obtain ⟨-, heq⟩ := compare_iff_precedes hcolumns huniform hmema hmemb
    rw [hcmp j hj i hi, ← Std.OrientedCmp.gt_iff_lt] at hlt
    rw [hcmp i hi j hj] at heq
    simp only [ha, hb, Option.mem_def, Option.some.injEq, forall_eq', ← hlt, ← heq, Leads]
    cases cmp i j <;> simp
  constructor
  · rintro ⟨hpositions, hsorted, hstable⟩
    have hlt {i : Nat} (hi : i ∈ order) : i < rows.length := List.mem_range.1 (hpositions.subset hi)
    refine ⟨hpositions, (hsorted.and hstable).imp_of_mem fun hi hj h => ?_⟩
    exact (hpair (hlt hi) (hlt hj)).1 h
  · rintro ⟨hpositions, hleads⟩
    have hlt {i : Nat} (hi : i ∈ order) : i < rows.length := List.mem_range.1 (hpositions.subset hi)
    have hboth := hleads.imp_of_mem fun hi hj h => (hpair (hlt hi) (hlt hj)).2 h
    exact ⟨hpositions, hboth.imp And.left, hboth.imp And.right⟩

theorem arranges_arrangement : Arranges c rows (c.arrangement rows) := by
  obtain ⟨cmp, _, hcmp⟩ := exists_order hcolumns huniform
  refine (arranges_iff hcolumns huniform hcmp).2 ⟨stableSort_perm _, ?_⟩
  refine stableSort_leads (fun i hi j hj => ?_) List.pairwise_lt_range
  rw [beq_iff_eq, hcmp i (List.mem_range.1 hi) j (List.mem_range.1 hj)]

theorem Arranges.unique (h : Arranges c rows order) (hother : Arranges c rows other) :
    other = order := by
  obtain ⟨cmp, _, hcmp⟩ := exists_order hcolumns huniform
  obtain ⟨hpositions, hleads⟩ := (arranges_iff hcolumns huniform hcmp).1 h
  obtain ⟨hpositions', hleads'⟩ := (arranges_iff hcolumns huniform hcmp).1 hother
  refine List.Perm.eq_of_pairwise (fun i j _ _ hij hji => ?_) hleads' hleads
    (hpositions'.trans hpositions.symm)
  -- neither position is before the other, in the order or on arrival
  have hswap : cmp i j = (cmp j i).swap := Std.OrientedCmp.eq_swap
  rcases hij with hij | ⟨hij, hlt⟩ <;> rcases hji with hji | ⟨hji, hlt'⟩ <;>
    rw [hij, hji] at hswap
  · cases hswap
  · cases hswap
  · cases hswap
  · exact absurd hlt (Nat.lt_asymm hlt')

end Arrangement
end Collation

namespace ExecUnit
variable {input : ExecUnit} {contents : Contents} {rows : List Row} {c : Collation}

/-- A sort emits the rows from the offset on, as many as are fetched, of the only arrangement of its
input that is in order and keeps the order of rows that tie. -/
theorem sort_emits (hinput : input.run contents = .ok ⟨rows, none⟩)
    (hcolumns : ∀ k ∈ c, ∀ row ∈ rows, k.column < row.length)
    (huniform : ∀ k ∈ c, Uniform rows k.column) (offset fetch : Option Nat) :
    ∃ order, c.Arranges rows order ∧ (∀ other, c.Arranges rows other → other = order) ∧
      ∃ out, (sort input c offset fetch).run contents = .ok ⟨out, none⟩ ∧
        ∀ i, out[i]? =
          if ∀ n ∈ fetch, i < n then order[offset.getD 0 + i]?.bind (rows[·]?) else none := by
  have harranges := Collation.arranges_arrangement hcolumns huniform
  refine ⟨c.arrangement rows, harranges, fun other => harranges.unique hcolumns huniform,
    window offset fetch (c.sort rows), ?_, fun i => ?_⟩
  · simp only [sort, hinput, ok_bind, pure_eq_ok]
    rfl
  · rw [getElem?_window, Collation.sort_eq_map, List.getElem?_map]
    refine if_congr Iff.rfl ?_ rfl
    cases hposition : (c.arrangement rows)[offset.getD 0 + i]? with
    | none => rfl
    | some j =>
      have hj : j < rows.length :=
        List.mem_range.1 (harranges.positions.subset (List.mem_of_getElem? hposition))
      simp [hj]

theorem sort_emits_second_page :
    let rows : List Row := [[.null, .int64 1, .utf8 "a"], [.boolean true, .int64 2, .utf8 "b"],
      [.boolean false, .int64 0, .utf8 "c"], [.boolean true, .int64 2, .utf8 "d"],
      [.boolean true, .null, .utf8 "e"]]
    let c : Collation := [⟨0, .descending, .last⟩, ⟨1, .ascending, .first⟩]
    (∀ k ∈ c, ∀ row ∈ rows, k.column < row.length) ∧ (∀ k ∈ c, Uniform rows k.column) ∧
      c.Arranges rows [4, 1, 3, 2, 0] ∧
      ∃ out, (sort (values rows []) c (some 1) (some 3)).run (fun _ => []) = .ok ⟨out, none⟩ ∧
        out[0]? = rows[1]? ∧ out[1]? = rows[3]? ∧ out[2]? = rows[2]? ∧ out[3]? = none := by
  intro rows c
  have hcolumns : ∀ k ∈ c, ∀ row ∈ rows, k.column < row.length := by decide
  have huniform : ∀ k ∈ c, Uniform rows k.column := by
    simp only [c, List.forall_mem_cons, List.not_mem_nil, false_implies, implies_true, and_true]
    refine ⟨⟨.boolean, .boolean, ?_⟩, ⟨.int64, .int64, ?_⟩⟩ <;>
      simp [rows, Value.Conforms, Value.dataType]
  have harranges := Collation.arranges_arrangement hcolumns huniform
  have harrangement : c.arrangement rows = [4, 1, 3, 2, 0] := by decide
  have hinput : (values rows []).run (fun _ => []) = .ok ⟨rows, none⟩ := rfl
  obtain ⟨order, -, hunique, out, hout, hrows⟩ :=
    sort_emits hinput hcolumns huniform (some 1) (some 3)
  obtain rfl := hunique _ harranges
  rw [harrangement] at harranges hrows
  exact ⟨hcolumns, huniform, harranges, out, hout, hrows 0, hrows 1, hrows 2, hrows 3⟩

end ExecUnit
end Relational
