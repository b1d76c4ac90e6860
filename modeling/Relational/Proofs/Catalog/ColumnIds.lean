import Relational.Proofs.Catalog.Registering

/-!
# Columns by id

Which columns can have one id after a sequence of registrations, and which column the partition
column of a table is taken for. Definitions name the partition column, descriptors hold its id.
The ids are compared across tables, but within a table only the names are.
-/
namespace Relational

theorem findIdx?_eq_some_iff_take {α : Type} {p : α → Bool} {xs : List α} {i : Nat}
    (hi : i < xs.length) (hp : p xs[i] = true) :
    xs.findIdx? p = some i ↔ ∀ x ∈ xs.take i, p x = false := by
  rw [List.findIdx?_eq_some_iff_getElem]
  constructor
  · rintro ⟨_, _, hearlier⟩ x hx
    obtain ⟨j, hj, rfl⟩ := List.mem_take_iff_getElem.1 hx
    exact eq_false_of_ne_true (hearlier j (by omega))
  · intro hearlier
    refine ⟨hi, hp, fun j hj => ?_⟩
    rw [hearlier xs[j] (List.mem_take_iff_getElem.2 ⟨j, by omega, rfl⟩)]
    decide

namespace Table
variable {t : Table} {d : TableDescriptor} {name : String}

/-! ### Definitions that pass their check -/

theorem nodup_of_repeatedName? {seen names : List String} (h : repeatedName? seen names = none) :
    names.Nodup ∧ ∀ name ∈ names, name ∉ seen := by
  induction names generalizing seen with
  | nil => simp
  | cons first rest ih =>
    unfold repeatedName? at h
    split at h
    · cases h
    next hseen =>
      obtain ⟨hrest, hfresh⟩ := ih h
      have hfirst : first ∉ rest := fun hmem => hfresh first hmem List.mem_cons_self
      refine ⟨List.nodup_cons.2 ⟨hfirst, hrest⟩, List.forall_mem_cons.2 ⟨by simpa using hseen, ?_⟩⟩
      exact fun name hname hmem => hfresh name hname (List.mem_cons_of_mem _ hmem)

theorem of_check (h : t.check = .ok ()) :
    (t.columns.map (·.name)).Nodup ∧ ∃ d, t.descriptor = .ok d := by
  unfold check at h
  dsimp only at h
  split at h
  · cases h
  split at h
  · cases h
  next hrepeated =>
    obtain ⟨d, hd, -⟩ := bind_eq_ok.1 h
    exact ⟨(nodup_of_repeatedName? hrepeated).1, d, hd⟩

theorem descriptor_eq_ok (h : t.descriptor = .ok d) :
    d.columnIds = t.columns.map (·.id) ∧
      ∀ name, t.partitionColumn = some name →
        ∃ column, t.column? name = some column ∧ d.partitionColumn = some column.id := by
  obtain ⟨partition, hpartition, h⟩ := bind_eq_ok.1 h
  obtain ⟨keys, -, h⟩ := bind_eq_ok.1 h
  cases h
  refine ⟨rfl, fun name hname => ?_⟩
  rw [hname, Option.mapM_some] at hpartition
  obtain ⟨id, hid, hsome⟩ := bind_eq_ok.1 hpartition
  cases hcolumn : t.column? name with
  | none => rw [hcolumn] at hid; cases hid
  | some column =>
    rw [hcolumn] at hid
    cases hid
    cases hsome
    exact ⟨column, rfl, rfl⟩

theorem partitionIndex?_eq_some_iff (h : t.descriptor = .ok d)
    (hname : t.partitionColumn = some name) :
    ∃ i, t.columnIndex? name = some i ∧ d.partitionColumn = t.columns[i]?.map (·.id) ∧
      (d.partitionIndex? = some i ↔
        ∀ column ∈ t.columns.take i, d.partitionColumn ≠ some column.id) := by
  obtain ⟨hids, hpartition⟩ := descriptor_eq_ok h
  obtain ⟨column, hcolumn, hid⟩ := hpartition name hname
  obtain ⟨hbears, i, hi, rfl, hfirst⟩ := List.find?_eq_some_iff_getElem.1 hcolumn
  refine ⟨i, List.findIdx?_eq_some_iff_getElem.2 ⟨hi, hbears, by simpa using hfirst⟩, ?_, ?_⟩
  · rw [hid, List.getElem?_eq_getElem hi, Option.map_some]
  · have hindex : d.partitionIndex? = t.columns.findIdx? (·.id == t.columns[i].id) := by
      rw [TableDescriptor.partitionIndex?, hid, hids, Option.bind_some, List.findIdx?_map]
      rfl
    have hnamed : (t.columns[i].id == t.columns[i].id) = true := beq_self_eq_true _
    have htake := findIdx?_eq_some_iff_take (p := fun c => c.id == t.columns[i].id) hi hnamed
    rw [hindex, hid, htake]
    refine forall_congr' fun column => forall_congr' fun _ => ?_
    rw [beq_eq_false_iff_ne, ne_comm, ne_eq, ne_eq, Option.some_inj]

end Table

namespace Catalog
variable {c c' : Catalog} {t u : Table}

theorem conflict?_eq_none :
    c.conflict? t = none ↔
      ∀ u ∈ c.tables, u.id ≠ t.id → ∀ x ∈ t.columns, ∀ y ∈ u.columns, y.id ≠ x.id := by
  simp [conflict?, sharedId?]

/-! ### What registrations keep -/

def Checked (c : Catalog) : Prop := ∀ t ∈ c.tables, t.check = .ok ()

def ColumnsApart (c : Catalog) : Prop :=
  ∀ t ∈ c.tables, ∀ u ∈ c.tables, ∀ x ∈ t.columns, ∀ y ∈ u.columns, x.id = y.id → t.id = u.id

theorem Checked.register (h : c.Checked) (hids : c.DistinctIds) (hr : c.register t = .ok c') :
    c'.Checked := by
  intro u hu
  rcases (hids.mem_tables hr).1 hu with rfl | ⟨hu, -⟩
  · exact (register_eq_ok.1 hr).1
  · exact h u hu

theorem ColumnsApart.register (h : c.ColumnsApart) (hids : c.DistinctIds)
    (hr : c.register t = .ok c') : c'.ColumnsApart := by
  have hnew : ∀ u ∈ c.tables, u.id ≠ t.id → ∀ x ∈ t.columns, ∀ y ∈ u.columns, y.id ≠ x.id :=
    conflict?_eq_none.1 (register_eq_ok.1 hr).2.1
  intro u hu v hv x hx y hy hid
  rcases (hids.mem_tables hr).1 hu with rfl | ⟨hu, hne⟩ <;>
    rcases (hids.mem_tables hr).1 hv with rfl | ⟨hv, hne'⟩
  · rfl
  · exact absurd hid.symm (hnew v hv hne' x hx y hy)
  · exact absurd hid (hnew u hu hne y hy x hx)
  · exact h u hu v hv x hx y hy hid

/-! ### Sequences of calls -/

theorem checked_ofCalls (calls : List Table) : (ofCalls calls).Checked :=
  ofCalls_induction (by rintro t ⟨⟩) Checked.register calls

theorem columnsApart_ofCalls (calls : List Table) : (ofCalls calls).ColumnsApart :=
  ofCalls_induction (by rintro t ⟨⟩) ColumnsApart.register calls

/-- Columns of one id are of one table, whose columns differ in name. The partition column is found
where it stands, unless a column before it has its id. -/
theorem partitionIndex?_ofCalls (calls : List Table) :
    let c := ofCalls calls
    (∀ t ∈ c.tables, ∀ u ∈ c.tables, ∀ x ∈ t.columns, ∀ y ∈ u.columns, x.id = y.id → t = u) ∧
    ∀ t ∈ c.tables, (t.columns.map (·.name)).Nodup ∧
      ∃ d, c.source.table t.id = .ok d ∧
        ∀ name, t.partitionColumn = some name →
          ∃ i, t.columnIndex? name = some i ∧ d.partitionColumn = t.columns[i]?.map (·.id) ∧
            (d.partitionIndex? = some i ↔
              ∀ column ∈ t.columns.take i, d.partitionColumn ≠ some column.id) := by
  intro c
  have hids : c.DistinctIds := distinctIds_ofCalls calls
  refine ⟨fun t ht u hu x hx y hy hid => ?_, fun t ht => ?_⟩
  · exact hids.eq_of_id ht hu (columnsApart_ofCalls calls t ht u hu x hx y hy hid)
  · obtain ⟨hnames, d, hd⟩ := Table.of_check (checked_ofCalls calls t ht)
    have hsource : c.source.table t.id = .ok d := by
      show c.get t.id >>= Table.descriptor = .ok d
      rw [hids.get ht, ok_bind, hd]
    exact ⟨hnames, d, hsource, fun name hname => Table.partitionIndex?_eq_some_iff hd hname⟩

def regional (id : Nat) (name : String) (columns : List Column) : Table :=
  { id, schema := "sales", name, columns, partitionColumn := some "region" }

theorem partitionIndex?_ofCalls_orders :
    let orders := regional 1 "orders" [⟨10, "id", .int64, false⟩, ⟨11, "region", .utf8, true⟩]
    let items := regional 2 "items" [⟨21, "region", .utf8, true⟩, ⟨20, "id", .int64, false⟩]
    let c := ofCalls [orders, items, regional 3 "copy" [⟨11, "region", .utf8, true⟩]]
    c.tables = [orders, items] ∧ orders.partitionColumn = some "region" ∧
      (∀ x ∈ orders.columns, ∀ y ∈ items.columns, x.id ≠ y.id) ∧
      ∃ d, c.source.table orders.id = .ok d ∧ d.partitionIndex? = some 1 := by
  intro orders items c
  have htables : c.tables = [orders, items] := rfl
  have horders : orders ∈ c.tables := htables ▸ List.mem_cons_self
  have hitems : items ∈ c.tables := htables ▸ List.mem_cons_of_mem _ List.mem_cons_self
  obtain ⟨hapart, hfound⟩ := partitionIndex?_ofCalls
    [orders, items, regional 3 "copy" [⟨11, "region", .utf8, true⟩]]
  obtain ⟨-, d, hd, hpartition⟩ := hfound orders horders
  obtain ⟨i, hi, hid, hindex⟩ := hpartition "region" rfl
  have hordinal : orders.columnIndex? "region" = some 1 := rfl
  obtain rfl : 1 = i := Option.some.inj (hordinal.symm.trans hi)
  refine ⟨htables, rfl, fun x hx y hy hsame => ?_, d, hd, hindex.2 ?_⟩
  · have heq : orders = items := hapart orders horders items hitems x hx y hy hsame
    exact absurd (congrArg Table.id heq) (by decide)
  · rw [hid]
    decide

/-- The second of two columns of one id is taken for the first. -/
theorem partitionIndex?_of_repeatedId :
    let table := regional 1 "orders" [⟨10, "id", .int64, false⟩, ⟨10, "region", .utf8, true⟩]
    let c := ofCalls [table]
    c.tables = [table] ∧ table.columnIndex? "region" = some 1 ∧
      ∃ d, c.source.table table.id = .ok d ∧ d.partitionIndex? = some 0 :=
  ⟨rfl, rfl, _, rfl, rfl⟩

end Catalog
end Relational
