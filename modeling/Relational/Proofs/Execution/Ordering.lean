import Relational.Proofs.Execution.Sorting
import Relational.Proofs.Typing.Conformance

/-!
# Rows in order

Among rows of one width, whose sort columns hold nulls and values of one sortable type, what a
collation compares is an order up to ties. A sort puts such rows in order. Rows stay in order when
some are left out, and when the columns of the collation are copied elsewhere.
-/
namespace Relational

/-- Booleans, integers and text. Floats are not among them: a NaN ties with every number. -/
inductive DataType.Sortable : DataType → Prop
  | boolean : Sortable .boolean
  | int32 : Sortable .int32
  | int64 : Sortable .int64
  | utf8 : Sortable .utf8

theorem transCmp_comap {α β : Type} {cmp : β → β → Ordering} [Std.TransCmp cmp] (f : α → β) :
    Std.TransCmp fun a b => cmp (f a) (f b) where
  eq_swap := Std.OrientedCmp.eq_swap
  isLE_trans := Std.TransCmp.isLE_trans

namespace Value
variable {t : DataType} {v : Value}

theorem Conforms.dataType_eq (h : v.Conforms t) (ht : t.Sortable) (hv : v.isNull = false) :
    v.dataType = t := by
  rcases h with rfl | h | ⟨-, rfl⟩
  · cases hv
  · exact h
  · cases ht

theorem compare?_eq_some (ht : t.Sortable) :
    ∃ cmp : Value → Value → Ordering, Std.TransCmp cmp ∧
      ∀ a b, a.dataType = t → b.dataType = t → a.compare? b = some (cmp a b) := by
  cases ht with
  | boolean =>
    refine ⟨compareOn bool?, inferInstance, fun a b ha hb => ?_⟩
    cases a <;> cases ha
    cases b <;> cases hb
    rfl
  | int32 | int64 =>
    refine ⟨compareOn integer?, inferInstance, fun a b ha hb => ?_⟩
    cases a <;> cases ha
    cases b <;> cases hb
    rfl
  | utf8 =>
    refine ⟨compareOn text?, inferInstance, fun a b ha hb => ?_⟩
    cases a <;> cases ha
    cases b <;> cases hb
    rfl

end Value

namespace SortKey
variable {t : DataType}

def behind (k : SortKey) (v : Value) : Bool :=
  match k.nulls with
  | .first => !v.isNull
  | .last => v.isNull

theorem compare_eq (ht : t.Sortable) (k : SortKey) :
    ∃ cmp : Value → Value → Ordering, Std.TransCmp cmp ∧
      ∀ a b, a.Conforms t → b.Conforms t → k.compare a b = cmp a b := by
  obtain ⟨cmp, hcmp, hvalues⟩ := Value.compare?_eq_some ht
  obtain ⟨directed, hdirected, hdirection⟩ : ∃ directed : Value → Value → Ordering,
      Std.TransCmp directed ∧ ∀ a b, directed a b =
        if k.direction = .ascending then cmp a b else (cmp a b).swap := by
    cases k.direction with
    | ascending => exact ⟨cmp, hcmp, fun _ _ => rfl⟩
    | descending => exact ⟨fun a b => cmp b a, inferInstance, fun _ _ => Std.OrientedCmp.eq_swap⟩
  have hnulls : directed .null .null = .eq := Std.ReflCmp.compare_self
  -- by the part that the values go to, then by the values
  refine ⟨compareLex (compareOn k.behind) directed, inferInstance, fun a b ha hb => ?_⟩
  simp only [SortKey.compare, compareLex, compareOn, behind]
  cases hna : a.isNull <;> cases hnb : b.isNull
  · have hab := hvalues a b (ha.dataType_eq ht hna) (hb.dataType_eq ht hnb)
    cases k.nulls <;> cases hd : k.direction <;>
      simp [Value.sortOrder, hna, hnb, hab, hdirection, hd]
  · cases k.nulls <;> rfl
  · cases k.nulls <;> rfl
  · obtain rfl := (Value.isNull_iff a).1 hna
    obtain rfl := (Value.isNull_iff b).1 hnb
    cases k.nulls <;> simp [hnulls]

end SortKey

def Uniform (rows : List Row) (column : Nat) : Prop :=
  ∃ t : DataType, t.Sortable ∧ ∀ row ∈ rows, ∀ v ∈ row[column]?, v.Conforms t

namespace Collation
variable {c rest : Collation} {k : SortKey} {a b : Row} {rows : List Row}

theorem compare_cons {x y : Value} (hx : a[k.column]? = some x) (hy : b[k.column]? = some y) :
    compare a b (k :: rest) = (k.compare x y).then (compare a b rest) := by
  simp only [compare, hx, hy]
  cases k.compare x y <;> rfl

theorem compare_cons_none (hx : a[k.column]? = none) :
    compare a b (k :: rest) = compare a b rest := by
  simp only [compare, hx]

theorem compare_eq (hcolumns : ∀ k ∈ c, (∀ row ∈ rows, k.column < row.length) ∨
      ∀ row ∈ rows, row.length ≤ k.column)
    (huniform : ∀ k ∈ c, Uniform rows k.column) :
    ∃ cmp : Row → Row → Ordering, Std.TransCmp cmp ∧
      ∀ a ∈ rows, ∀ b ∈ rows, c.compare a b = cmp a b := by
  induction c with
  | nil => exact ⟨compareOn fun _ => 0, inferInstance, fun _ _ _ _ => rfl⟩
  | cons k rest ih =>
    obtain ⟨⟨t, ht, hcolumn⟩, hrest⟩ := List.forall_mem_cons.1 huniform
    obtain ⟨hk, hothers⟩ := List.forall_mem_cons.1 hcolumns
    obtain ⟨later, hlater, hsame⟩ := ih hothers hrest
    rcases hk with hlt | hge
    · obtain ⟨cmp, hcmp, hvalues⟩ := k.compare_eq ht
      have hread : ∀ row ∈ rows, row[k.column]? = some (row.getD k.column .null) := by
        intro row hrow
        simp [hlt row hrow]
      have : Std.TransCmp fun a b : Row => cmp (a.getD k.column .null) (b.getD k.column .null) :=
        transCmp_comap fun row : Row => row.getD k.column .null
      refine ⟨compareLex (fun a b => cmp (a.getD k.column .null) (b.getD k.column .null)) later,
        inferInstance, fun a ha b hb => ?_⟩
      rw [compare_cons (hread a ha) (hread b hb), hsame a ha b hb,
        hvalues _ _ (hcolumn a ha _ (hread a ha)) (hcolumn b hb _ (hread b hb))]
      rfl
    · refine ⟨later, hlater, fun a ha b hb => ?_⟩
      rw [compare_cons_none (List.getElem?_eq_none (hge a ha)), hsame a ha b hb]

theorem compare_remap_ne_gt {f : Nat → Option Nat} {a' b' : Row}
    (hcarried : ∀ column i, f column = some i → a'[i]? = a[column]? ∧ b'[i]? = b[column]?)
    (h : c.compare a b ≠ .gt) : (c.remap f).compare a' b' ≠ .gt := by
  induction c with
  | nil => exact h
  | cons k rest ih =>
    cases hk : f k.column with
    | none => simp [remap, hk, compare]
    | some i =>
      obtain ⟨ha, hb⟩ := hcarried k.column i hk
      simp only [remap, hk, compare, ha, hb] at h ⊢
      cases hx : a[k.column]? with
      | none =>
        simp only [hx] at h ⊢
        exact ih h
      | some x =>
        cases hy : b[k.column]? with
        | none =>
          simp only [hx, hy] at h ⊢
          exact ih h
        | some y =>
          have hkey : SortKey.compare { k with column := i } x y = k.compare x y := rfl
          simp only [hx, hy, hkey] at h ⊢
          cases hxy : k.compare x y with
          | eq =>
            simp only [hxy] at h ⊢
            exact ih h
          | lt => simp
          | gt => simp [hxy] at h

end Collation

def InOrder (c : Collation) (rows : List Row) : Prop :=
  rows.Pairwise fun a b => c.compare a b ≠ .gt

namespace InOrder
variable {c : Collation} {rows source : List Row}

instance : Decidable (InOrder c rows) := inferInstanceAs (Decidable (List.Pairwise _ _))

theorem sublist (h : InOrder c source) (hrows : rows.Sublist source) : InOrder c rows :=
  List.Pairwise.sublist hrows h

theorem of_sort {width : Nat} (hwidth : ∀ row ∈ rows, row.length = width)
    (huniform : ∀ k ∈ c, Uniform rows k.column) : InOrder c (c.sort rows) := by
  have hcolumns (k : SortKey) : (∀ row ∈ rows, k.column < row.length) ∨
      ∀ row ∈ rows, row.length ≤ k.column :=
    (Nat.lt_or_ge k.column width).imp (fun h row hrow => hwidth row hrow ▸ h)
      fun h row hrow => hwidth row hrow ▸ h
  obtain ⟨cmp, hcmp, hsame⟩ := Collation.compare_eq (fun k _ => hcolumns k) huniform
  have hsorted : (c.sort rows).Pairwise fun a b => (cmp a b).isLE = true :=
    stableSort_pairwise fun a ha b hb => by rw [beq_iff_eq, hsame a ha b hb]
  refine hsorted.imp_of_mem fun {a b} ha hb hle => ?_
  have ha : a ∈ rows := (stableSort_perm rows).subset ha
  have hb : b ∈ rows := (stableSort_perm rows).subset hb
  rw [hsame a ha b hb]
  exact Ordering.isLE_iff_ne_gt.1 hle

theorem remap {R : Row → Row → Prop} {f : Nat → Option Nat} (h : InOrder c source)
    (hrows : List.Forall₂ R source rows)
    (hcarried : ∀ column i, f column = some i → ∀ row out, R row out → out[i]? = row[column]?) :
    InOrder (c.remap f) rows := by
  induction hrows with
  | nil => exact .nil
  | @cons row out source rows hR hrows ih =>
    obtain ⟨hrow, hrest⟩ := List.pairwise_cons.1 h
    refine .cons (fun other hother => ?_) (ih hrest)
    obtain ⟨row', hrow', hR'⟩ := forall₂_exists_mem hrows hother
    refine Collation.compare_remap_ne_gt (fun column i hi => ?_) (hrow row' hrow')
    exact ⟨hcarried column i hi row out hR, hcarried column i hi row' other hR'⟩

end InOrder
end Relational
