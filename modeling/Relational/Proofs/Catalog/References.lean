import Mathlib.Data.Option.Basic
import Relational.Proofs.Catalog.ColumnIds
import Relational.Proofs.Metadata.Alignment

/-!
# References to columns

What becomes of the columns that a definition refers to. Keys, the partition column and the
statistics name them, and every name of a registered table is resolved to the ordinal of the column
that bears it. The order and the distribution of the rows are declared by ordinals, which are passed
on without a look at the columns.
-/
namespace Relational
namespace Table
variable {t : Table} {d : TableDescriptor} {name : String} {i : Nat}

def Bears (t : Table) (name : String) (i : Nat) : Prop := t.columns[i]?.map (·.name) = some name

theorem Bears.lt (h : t.Bears name i) : i < t.columns.length := by
  obtain ⟨column, hcolumn, -⟩ := Option.map_eq_some_iff.1 h
  exact (List.getElem?_eq_some_iff.1 hcolumn).1

theorem bears_of_columnIndex? (h : t.columnIndex? name = some i) : t.Bears name i := by
  obtain ⟨hi, hname, -⟩ := List.findIdx?_eq_some_iff_getElem.1 h
  rw [Bears, List.getElem?_eq_getElem hi, Option.map_some, eq_of_beq hname]

theorem bears_of_resolve (h : t.resolve name = .ok i) : t.Bears name i := by
  unfold resolve at h
  split at h
  next j hj => exact Except.ok.inj h ▸ bears_of_columnIndex? hj
  next => cases h

/-! ### Descriptors -/

def KeyNamed (t : Table) (names : List String) (key : ColumnSet) : Prop :=
  (∀ name ∈ names, ∃ i ∈ key, t.Bears name i) ∧ ∀ i ∈ key, ∃ name ∈ names, t.Bears name i

theorem KeyNamed.within {names : List String} {key : ColumnSet} (h : t.KeyNamed names key) :
    key.Within t.columns.length := by
  intro i hi
  obtain ⟨name, -, hbears⟩ := h.2 i hi
  exact hbears.lt

theorem keyNamed_ofList {names : List String} {ordinals : List Nat}
    (h : names.mapM t.resolve = .ok ordinals) : t.KeyNamed names (.ofList ordinals) := by
  have hresolved : List.Forall₂ (t.Bears · ·) names ordinals :=
    (mapM_eq_ok.1 h).imp fun _ _ => bears_of_resolve
  constructor
  · intro name hname
    obtain ⟨i, hi, hbears⟩ := forall₂_exists_mem hresolved.flip hname
    exact ⟨i, ColumnSet.mem_ofList.2 hi, hbears⟩
  · intro i hi
    obtain ⟨name, hname, hbears⟩ := forall₂_exists_mem hresolved (ColumnSet.mem_ofList.1 hi)
    exact ⟨name, hname, hbears⟩

theorem bears_of_column? {column : Column} (h : t.column? name = some column) :
    ∃ i, t.Bears name i ∧ t.columns[i]? = some column := by
  obtain ⟨hname, i, hi, rfl, -⟩ := List.find?_eq_some_iff_getElem.1 h
  refine ⟨i, ?_, List.getElem?_eq_getElem hi⟩
  rw [Bears, List.getElem?_eq_getElem hi, Option.map_some, eq_of_beq hname]

/-- The descriptor tells what the definition does, with columns for their names. -/
structure Describes (t : Table) (d : TableDescriptor) : Prop where
  schema : d.schema = t.rowShape
  partition : Option.Rel (fun name id => ∃ i, t.Bears name i ∧ t.columns[i]?.map (·.id) = some id)
    t.partitionColumn d.partitionColumn
  keys : List.Forall₂ t.KeyNamed t.uniqueKeys d.uniqueKeys
  collation : d.collation = t.collation
  distribution : d.distribution = t.distribution

theorem describes_of_descriptor (h : t.descriptor = .ok d) : t.Describes d := by
  have hnamed := (descriptor_eq_ok h).2
  obtain ⟨partition, hpartition, h⟩ := bind_eq_ok.1 h
  obtain ⟨keys, hkeys, h⟩ := bind_eq_ok.1 h
  cases h
  refine ⟨rfl, ?_, ?_, rfl, rfl⟩
  · cases hname : t.partitionColumn with
    | none =>
      rw [hname, Option.mapM_none] at hpartition
      cases hpartition
      exact .none
    | some name =>
      obtain ⟨column, hcolumn, hid⟩ := hnamed name hname
      obtain ⟨i, hbears, hi⟩ := bears_of_column? hcolumn
      rw [hid]
      exact .some ⟨i, hbears, by rw [hi, Option.map_some]⟩
  · refine (mapM_eq_ok.1 hkeys).imp fun names key hkey => ?_
    obtain ⟨ordinals, hordinals, hset⟩ := bind_eq_ok.1 hkey
    cases hset
    exact keyNamed_ofList hordinals

theorem Describes.keys_within (h : t.Describes d) :
    ∀ key ∈ d.uniqueKeys, key.Within t.columns.length := by
  intro key hkey
  obtain ⟨names, -, hnamed⟩ := forall₂_exists_mem h.keys hkey
  exact hnamed.within

theorem Describes.consistent_iff (h : t.Describes d) :
    d.Consistent ↔ t.collation.Within t.columns.length ∧
      ∀ placed, t.distribution = some placed → placed.Within t.columns.length := by
  have hwidth : d.schema.length = t.columns.length := by rw [h.schema, rowShape, List.length_map]
  constructor
  · intro hconsistent
    exact ⟨h.collation ▸ hwidth ▸ hconsistent.collation,
      h.distribution ▸ hwidth ▸ hconsistent.distribution⟩
  · rintro ⟨hcollation, hdistribution⟩
    refine ⟨?_, ?_, ?_⟩
    · exact hwidth ▸ h.keys_within
    · exact hwidth ▸ h.collation ▸ hcollation
    · exact hwidth ▸ h.distribution ▸ hdistribution

/-! ### Statistics -/

/-- The figures of the named columns, by the ordinals of these. -/
def Placed (t : Table) (named : List (String × Binary64)) (placed : List (Nat × Binary64)) : Prop :=
  ∃ found, List.Forall₂ (fun n p => t.Bears n.1 p.1 ∧ p.2 = n.2) named found ∧ found.Perm placed

theorem Placed.lt {named : List (String × Binary64)} {placed : List (Nat × Binary64)}
    (h : t.Placed named placed) : ∀ p ∈ placed, p.1 < t.columns.length := by
  obtain ⟨found, hfound, hperm⟩ := h
  intro p hp
  obtain ⟨n, -, hbears, -⟩ := forall₂_exists_mem hfound (hperm.mem_iff.2 hp)
  exact hbears.lt

structure Measures (t : Table) (named : NamedStatistics) (s : TableStatistics Binary64) : Prop where
  rowCount : s.rowCount = named.rowCount
  distinctCounts : t.Placed named.distinctCounts s.distinctCounts
  averageSizes : t.Placed named.averageSizes s.averageSizes

theorem placed_of_mapM {named : List (String × Binary64)} {found : List (Nat × Binary64)}
    {step : String × Binary64 → Except Error (Nat × Binary64)}
    (hstep : ∀ n, step n = do return (← t.resolve n.1, n.2))
    (h : named.mapM step = .ok found) (before : Nat × Binary64 → Nat × Binary64 → Bool) :
    t.Placed named (found.mergeSort before) := by
  refine ⟨found, (mapM_eq_ok.1 h).imp fun n p hp => ?_, (List.mergeSort_perm found before).symm⟩
  rw [hstep] at hp
  obtain ⟨i, hi, hpair⟩ := bind_eq_ok.1 hp
  cases hpair
  exact ⟨bears_of_resolve hi, rfl⟩

theorem Measures.lt {named : NamedStatistics} {s : TableStatistics Binary64}
    (h : t.Measures named s) :
    ∀ p ∈ s.distinctCounts ++ s.averageSizes, p.1 < t.columns.length := by
  intro p hp
  exact (List.mem_append.1 hp).elim (h.distinctCounts.lt p) (h.averageSizes.lt p)

theorem statistics_of_check (h : t.check = .ok ()) : ∃ s, t.statisticsByColumn = .ok s := by
  unfold check at h
  dsimp only at h
  split at h
  · cases h
  split at h
  · cases h
  · obtain ⟨-, -, h⟩ := bind_eq_ok.1 h
    obtain ⟨s, hs, -⟩ := bind_eq_ok.1 h
    exact ⟨s, hs⟩

theorem measures_of_statisticsByColumn {s : Option (TableStatistics Binary64)}
    (h : t.statisticsByColumn = .ok s) : Option.Rel t.Measures t.statistics s := by
  unfold statisticsByColumn at h
  cases hnamed : t.statistics with
  | none =>
    rw [hnamed, Option.mapM_none] at h
    cases h
    exact .none
  | some named =>
    rw [hnamed, Option.mapM_some] at h
    obtain ⟨measured, hmeasured, hsome⟩ := bind_eq_ok.1 h
    cases hsome
    obtain ⟨counts, hcounts, hmeasured⟩ := bind_eq_ok.1 hmeasured
    obtain ⟨sizes, hsizes, hmeasured⟩ := bind_eq_ok.1 hmeasured
    cases hmeasured
    obtain ⟨foundCounts, hfoundCounts, hcounts⟩ := bind_eq_ok.1 hcounts
    obtain ⟨foundSizes, hfoundSizes, hsizes⟩ := bind_eq_ok.1 hsizes
    cases hcounts
    cases hsizes
    exact .some ⟨rfl, placed_of_mapM (fun _ => rfl) hfoundCounts _,
      placed_of_mapM (fun _ => rfl) hfoundSizes _⟩

end Table

namespace Catalog

/-- Every registered table has a descriptor and statistics, in which every name is resolved to the
one column that bears it. All their ordinals are those of columns, provided that this is so in the
declared order and distribution. -/
theorem references_ofCalls (calls : List Table) :
    let c := ofCalls calls
    ∀ t ∈ c.tables, (t.columns.map (·.name)).Nodup ∧
      ∃ d s, c.source.table t.id = .ok d ∧ c.source.statistics t.id = .ok s ∧
        t.Describes d ∧ Option.Rel t.Measures t.statistics s ∧
        (∀ key ∈ d.uniqueKeys, key.Within t.columns.length) ∧
        (∀ measured ∈ s, ∀ p ∈ measured.distinctCounts ++ measured.averageSizes,
          p.1 < t.columns.length) ∧
        (d.Consistent ↔ t.collation.Within t.columns.length ∧
          ∀ placed, t.distribution = some placed → placed.Within t.columns.length) := by
  intro c t ht
  have hcheck : t.check = .ok () := checked_ofCalls calls t ht
  obtain ⟨hnames, d, hd⟩ := Table.of_check hcheck
  obtain ⟨s, hs⟩ := Table.statistics_of_check hcheck
  have hget : c.get t.id = .ok t := (distinctIds_ofCalls calls).get ht
  have hdescribes : t.Describes d := Table.describes_of_descriptor hd
  have hmeasures : Option.Rel t.Measures t.statistics s := Table.measures_of_statisticsByColumn hs
  refine ⟨hnames, d, s, ?_, ?_, hdescribes, hmeasures, hdescribes.keys_within, ?_,
    hdescribes.consistent_iff⟩
  · show c.get t.id >>= Table.descriptor = .ok d
    rw [hget, ok_bind, hd]
  · show c.get t.id >>= Table.statisticsByColumn = .ok s
    rw [hget, ok_bind, hs]
  · rintro measured rfl
    generalize t.statistics = named at hmeasures
    cases hmeasures with
    | some h => exact h.lt

def ledger (collation : Collation) (distribution : Option Distribution) : Table where
  id := 1
  schema := "books"
  name := "ledger"
  columns := [⟨10, "account", .int64, false⟩, ⟨11, "day", .int32, false⟩]
  partitionColumn := some "day"
  uniqueKeys := [["day", "account"]]
  collation := collation
  distribution := distribution
  statistics := some { distinctCounts := [("day", .ofInt 30), ("account", .ofInt 7)] }

theorem references_ofCalls_ledger :
    let t := ledger [⟨1, .ascending, .last⟩] (some ⟨.hash, [0], some 4⟩)
    let c := ofCalls [t]
    t ∈ c.tables ∧ ∃ d s, c.source.table 1 = .ok d ∧ c.source.statistics 1 = .ok (some s) ∧
      d.Consistent ∧ d.partitionColumn = some 11 ∧ d.uniqueKeys = [.ofList [0, 1]] ∧
      s.distinctCounts = [(0, .ofInt 7), (1, .ofInt 30)] := by
  intro t c
  have ht : t ∈ c.tables := List.mem_singleton_self t
  obtain ⟨-, d, s, hd, hs, -, -, -, -, hconsistent⟩ := references_ofCalls [t] t ht
  cases hd
  cases hs
  refine ⟨ht, _, _, rfl, rfl, hconsistent.2 ⟨?_, ?_⟩, rfl, rfl, ?_⟩
  · simp [t, ledger, Collation.Within]
  · rintro placed ⟨⟩
    simp [t, ledger, Distribution.Within]
  · simp [List.mergeSort]

/-- An order by a column that the table does not have is accepted, and so is a distribution. -/
theorem references_beyond_columns :
    let sorted := ledger [⟨7, .ascending, .last⟩] none
    let spread := ledger [] (some ⟨.hash, [7], some 4⟩)
    (∃ d, (ofCalls [sorted]).source.table 1 = .ok d ∧ ∃ k ∈ d.collation, 2 < k.column) ∧
      sorted.columns.length = 2 ∧
    (∃ d, (ofCalls [spread]).source.table 1 = .ok d ∧
      ∃ placed, d.distribution = some placed ∧ 7 ∈ placed.keys) ∧ spread.columns.length = 2 :=
  ⟨⟨_, rfl, _, List.mem_cons_self, by decide⟩, rfl, ⟨_, rfl, _, rfl, List.mem_cons_self⟩, rfl⟩

end Catalog
end Relational
