import Relational.Engine
import Relational.Proofs.Catalog.Registering

/-!
# Rows and definitions

Which rows an engine holds for a table after a sequence of registrations, and which definition. A
registration adds the rows that are written in its definition and replaces the definition, so that
the rows of earlier definitions stay. They fit the last definition if it widens theirs.
-/
namespace Relational

/-! ### Rows written in a definition -/

def Column.field (c : Column) : Field := { name := c.name, type := ⟨c.type.dataType, c.nullable⟩ }

theorem Column.fits_field (c : Column) (v : Value) :
    Plan.fits v c.field = if v.isNull then c.nullable else v.dataType == c.type.dataType := rfl

namespace Table
variable {t u : Table} {row : Row} {rows : List Row}

/-- As many values as columns, null only where the column is nullable, otherwise of its type. -/
def Fits (t : Table) (row : Row) : Prop :=
  List.Forall₂ (fun v f => Plan.fits v f = true) row t.rowShape

instance : Decidable (t.Fits row) := inferInstanceAs (Decidable (List.Forall₂ _ _ _))

theorem fits_iff :
    t.Fits row ↔ List.Forall₂ (fun v c => Plan.fits v (Column.field c) = true) row t.columns :=
  List.forall₂_map_right_iff

def withoutRows (t : Table) : Table := { t with rows := [] }

def written (t : Table) : List Row := t.inlineRows.toOption.getD []

theorem dataType_of_valueOfJson? {type : ColumnType} {j : Json} {v : Value}
    (h : valueOfJson? type j = some v) : v.isNull = true ∨ v.dataType = type.dataType := by
  fun_cases valueOfJson? type j <;>
    simp only [valueOfJson?, Option.map_eq_some_iff, Option.some.injEq, reduceCtorEq] at h
  case case1 => exact .inl (h ▸ rfl)
  case case3 | case4 =>
    obtain ⟨n, -, rfl⟩ := h
    exact .inr rfl
  all_goals exact .inr (h ▸ rfl)

theorem fits_of_inlineValue {r : Nat} {j : Json} {c : Column} {v : Value}
    (h : t.inlineValue r j c = .ok v) : Plan.fits v c.field = true := by
  unfold inlineValue at h
  split at h
  · cases h
  next v' hv =>
    split at h
    · cases h
    next hnull =>
      cases h
      rw [Column.fits_field]
      split
      next hn => simpa [hn] using hnull
      next hn => simpa [hn] using dataType_of_valueOfJson? hv

theorem fits_of_inlineRow {r : Nat} {values : List Json} (h : t.inlineRow r values = .ok row) :
    t.Fits row := by
  unfold inlineRow at h
  split at h
  · cases h
  next hlength =>
    have hcolumns : (values.zip t.columns).map Prod.snd = t.columns :=
      List.map_snd_zip (by omega)
    rw [fits_iff, ← hcolumns, List.forall₂_map_right_iff]
    exact .flip ((mapM_eq_ok.1 h).imp fun _ _ hvalue => fits_of_inlineValue hvalue)

theorem fits_of_inlineRows (h : t.inlineRows = .ok rows) : ∀ row ∈ rows, t.Fits row := by
  intro row hrow
  obtain ⟨_, -, hinline⟩ := forall₂_exists_mem (mapM_eq_ok.1 h) hrow
  exact fits_of_inlineRow hinline

theorem fits_of_written (t : Table) : ∀ row ∈ t.written, t.Fits row := by
  unfold written
  cases h : t.inlineRows with
  | error => simp [Except.toOption]
  | ok rows => exact fits_of_inlineRows h

/-! ### Wider definitions -/

/-- Columns of the same types, nullable where they were. -/
def WidenedBy (t u : Table) : Prop :=
  List.Forall₂ (fun c d => c.type = d.type ∧ (c.nullable → d.nullable)) t.columns u.columns

instance : Decidable (t.WidenedBy u) := inferInstanceAs (Decidable (List.Forall₂ _ _ _))

theorem WidenedBy.fits (h : t.WidenedBy u) (hrow : t.Fits row) : u.Fits row := by
  rw [fits_iff] at hrow ⊢
  refine (forall₂_comp.1 ⟨_, hrow, h⟩).imp ?_
  rintro v d ⟨c, hfits, htype, hnullable⟩
  rw [Column.fits_field] at hfits ⊢
  by_cases hnull : v.isNull = true
  · rw [if_pos hnull] at hfits ⊢
    exact hnullable hfits
  · rw [if_neg hnull] at hfits ⊢
    rwa [← htype]

end Table

namespace RowStore

theorem lookup_appendTo (key id : Nat) (rows : List Row) (entries : List (Nat × List Row)) :
    ((appendTo key rows entries).lookup id).getD [] =
      (entries.lookup id).getD [] ++ if key = id then rows else [] := by
  induction entries with
  | nil =>
    by_cases h : id = key
    · simp [appendTo, h]
    · simp [appendTo, List.lookup_cons, beq_false_of_ne h, Ne.symm h]
  | cons entry rest ih =>
    obtain ⟨first, stored⟩ := entry
    unfold appendTo
    split
    next hfirst =>
      by_cases h : id = first
      · simp [h, hfirst]
      · simp [List.lookup_cons, beq_false_of_ne h, ← hfirst, Ne.symm h]
    next hfirst =>
      by_cases h : id = first
      · simp [h, Ne.symm hfirst]
      · simpa [List.lookup_cons, beq_false_of_ne h] using ih

theorem rows_append (s : RowStore) (key id : Nat) (rows : List Row) :
    (s.append key rows).rows id = s.rows id ++ if key = id then rows else [] :=
  lookup_appendTo key id rows s.entries

end RowStore

namespace Engine
variable {e e' : Engine} {t u : Table} {id : Nat}

/-! ### Registering -/

def onCatalog (m : Update Catalog Unit) : Update Engine Unit := do
  let e ← getThe Engine
  let (outcome, catalog) := m.on e.catalog
  set { e with catalog }
  ofExcept outcome

/-- The rows are read before the definition is registered, and added after it. -/
def enroll (t : Table) : Update Engine Unit := do
  let rows ← ofExcept t.inlineRows
  onCatalog (Catalog.enter t.withoutRows)
  unless rows.isEmpty do
    modify fun e => { e with store := e.store.append t.id rows }

theorem register_eq (e : Engine) (t : Table) :
    e.register t = do
      let rows ← t.inlineRows
      let catalog ← e.catalog.register t.withoutRows
      return { e with
        catalog, store := if rows.isEmpty then e.store else e.store.append t.id rows } := rfl

theorem enroll_performs (t : Table) : (enroll t).Performs (·.register t) := by
  intro e
  have hcatalog := Catalog.enter_performs t.withoutRows e.catalog
  unfold enroll
  cases hrows : t.inlineRows with
  | error => simp [register_eq, hrows]
  | ok rows =>
    cases hregister : e.catalog.register t.withoutRows with
    | error => simp [register_eq, onCatalog, hcatalog, hrows, hregister]
    | ok catalog =>
      by_cases hnil : rows = [] <;>
        simp [register_eq, onCatalog, hcatalog, hrows, hregister, hnil]

theorem register_eq_ok :
    e.register t = .ok e' ↔ ∃ rows catalog, t.inlineRows = .ok rows ∧
      e.catalog.register t.withoutRows = .ok catalog ∧
      { e with catalog, store := if rows.isEmpty then e.store else e.store.append t.id rows } =
        e' := by
  simp [register_eq, bind_eq_ok]

theorem get_register (h : e.register t = .ok e') (id : Nat) :
    e'.catalog.get id = if t.id = id then .ok t.withoutRows else e.catalog.get id := by
  obtain ⟨rows, catalog, -, hcatalog, rfl⟩ := register_eq_ok.1 h
  exact Catalog.get_register hcatalog id

theorem rows_register (h : e.register t = .ok e') (id : Nat) :
    e'.store.rows id = e.store.rows id ++ if t.id = id then t.written else [] := by
  obtain ⟨rows, catalog, hrows, -, rfl⟩ := register_eq_ok.1 h
  have hwritten : t.written = rows := by rw [Table.written, hrows]; rfl
  rw [hwritten]
  cases rows with
  | nil => simp
  | cons => exact RowStore.rows_append _ _ _ _

/-! ### Sequences of calls -/

theorem empty_of_config {config : Config} (h : ofConfig config = .ok e) :
    e.catalog = {} ∧ e.store = {} := by
  obtain ⟨-, -, h⟩ := bind_eq_ok.1 h
  cases h
  exact ⟨rfl, rfl⟩

def accepted (e : Engine) : List Table → List Table
  | [] => []
  | t :: rest =>
    match (enroll t).on e with
    | (.ok (), e') => t :: accepted e' rest
    | (.error _, e') => accepted e' rest

theorem history_cons (e : Engine) (t : Table) (rest : List Table) :
    (∃ e', e.register t = .ok e' ∧ e.accepted (t :: rest) = t :: e'.accepted rest ∧
      Update.history enroll e (t :: rest) = Update.history enroll e' rest) ∨
    e.accepted (t :: rest) = e.accepted rest ∧
      Update.history enroll e (t :: rest) = Update.history enroll e rest := by
  simp only [accepted, Update.history, List.foldl_cons, enroll_performs t e]
  cases e.register t with
  | error => exact .inr ⟨rfl, rfl⟩
  | ok e' => exact .inl ⟨e', rfl, rfl, rfl⟩

theorem rows_history (calls : List Table) (id : Nat) :
    (Update.history enroll e calls).store.rows id =
      e.store.rows id ++ ((e.accepted calls).filter (·.id == id)).flatMap Table.written := by
  induction calls generalizing e with
  | nil => simp [Update.history, accepted]
  | cons t rest ih =>
    rcases history_cons e t rest with ⟨e', hregister, haccepted, hhistory⟩ | ⟨haccepted, hhistory⟩
    · rw [hhistory, haccepted, ih, rows_register hregister]
      by_cases h : t.id = id <;> simp [h]
    · rw [hhistory, haccepted, ih]

theorem get_history (calls : List Table) (id : Nat) :
    (Update.history enroll e calls).catalog.get id =
      match ((e.accepted calls).filter (·.id == id)).getLast? with
      | some t => .ok t.withoutRows
      | none => e.catalog.get id := by
  induction calls generalizing e with
  | nil => simp [Update.history, accepted]
  | cons t rest ih =>
    rcases history_cons e t rest with ⟨e', hregister, haccepted, hhistory⟩ | ⟨haccepted, hhistory⟩
    · rw [hhistory, haccepted, ih, get_register hregister]
      by_cases h : t.id = id
      · rw [if_pos h, List.filter_cons_of_pos (by simpa using h), List.getLast?_cons]
        cases ((e'.accepted rest).filter (·.id == id)).getLast? <;> rfl
      · simp [h]
    · rw [hhistory, haccepted, ih]

/-- A call that fails changes nothing. The rows of a table are those that the successful calls
brought, its definition is that of the last one. They fit it if it widens every definition that
brought rows. -/
theorem fits_history {config : Config} (fresh : ofConfig config = .ok e) (calls : List Table) :
    let s := Update.history enroll e calls
    (∀ t error s', (enroll t).on s = (.error error, s') → s' = s) ∧
    ∀ id, let definitions := (e.accepted calls).filter (·.id == id)
      s.store.rows id = definitions.flatMap Table.written ∧
      (∀ t ∈ definitions, ∀ row ∈ t.written, t.Fits row) ∧
      (∀ u, s.catalog.get id = .ok u ↔
        ∃ t, definitions.getLast? = some t ∧ t.withoutRows = u) ∧
      ((∀ t ∈ definitions, t.written ≠ [] → ∀ u, s.catalog.get id = .ok u → t.WidenedBy u) →
        ∀ row ∈ s.store.rows id, ∃ u, s.catalog.get id = .ok u ∧ u.Fits row) := by
  intro s
  refine ⟨fun t error s' hfails => (enroll_performs t).unchanged hfails, fun id => ?_⟩
  intro definitions
  obtain ⟨hcatalog, hstore⟩ := empty_of_config fresh
  have hrows : s.store.rows id = definitions.flatMap Table.written := by
    rw [rows_history, hstore]
    rfl
  have hget : ∀ u, s.catalog.get id = .ok u ↔
      ∃ t, definitions.getLast? = some t ∧ t.withoutRows = u := by
    intro u
    rw [get_history, hcatalog]
    cases definitions.getLast? <;> simp [Catalog.get, Catalog.find?]
  refine ⟨hrows, fun t _ => t.fits_of_written, hget, fun hwidens row hrow => ?_⟩
  rw [hrows] at hrow
  obtain ⟨t, ht, hwritten⟩ := List.mem_flatMap.1 hrow
  obtain ⟨last, hlast⟩ : ∃ last, definitions.getLast? = some last :=
    Option.isSome_iff_exists.1 (List.getLast?_isSome.2 (List.ne_nil_of_mem ht))
  have hu := (hget _).2 ⟨last, hlast, rfl⟩
  have hwider := hwidens t ht (List.ne_nil_of_mem hwritten) _ hu
  exact ⟨_, hu, hwider.fits (t.fits_of_written row hwritten)⟩

def amounts (type : ColumnType) (nullable : Bool) (rows : List (List Json)) : Table :=
  { id := 1, schema := "sales", name := "orders", rows
    columns := [⟨10, "amount", type, nullable⟩] }

theorem fits_history_nullable :
    let e : Engine := { config := {} }
    let first := amounts .int64 false [[.integer 5]]
    let refused := amounts .int64 false [[.integer 4], [.null]]
    let last := amounts .int64 true [[.null]]
    let s := Update.history enroll e [first, refused, last]
    ofConfig {} = .ok e ∧ (∃ error s', (enroll refused).on s = (.error error, s') ∧ s' = s) ∧
      s.store.rows 1 = [[.int64 5], [.null]] ∧
      ∀ row ∈ s.store.rows 1, ∃ u, s.catalog.get 1 = .ok u ∧ u.Fits row := by
  intro e first refused last s
  have fresh : ofConfig {} = .ok e := rfl
  have hrefused : (enroll refused).on s =
      (.error (.invalidConfig (.rowNull 1 "sales.orders" "amount")), s) := rfl
  have hdefinitions :
      (e.accepted [first, refused, last]).filter (·.id == 1) = [first, last] := rfl
  have hget : s.catalog.get 1 = .ok last.withoutRows := rfl
  obtain ⟨hfailing, hfits⟩ := fits_history fresh [first, refused, last]
  refine ⟨fresh, ⟨_, s, hrefused, hfailing _ _ _ hrefused⟩, rfl, (hfits 1).2.2.2 ?_⟩
  intro t ht _ u hu
  obtain rfl : last.withoutRows = u := Except.ok.inj (hget.symm.trans hu)
  rw [hdefinitions] at ht
  revert t
  decide

/-- The row of the first definition is served for the second one. -/
theorem not_fits_of_replaced :
    let e : Engine := { config := {} }
    let text := amounts .utf8 true [[.string "5"]]
    let s := Update.history enroll e [amounts .int64 true [[.integer 5]], text]
    ofConfig {} = .ok e ∧ s.catalog.get 1 = .ok text.withoutRows ∧
      s.store.rows 1 = [[.int64 5], [.utf8 "5"]] ∧ ¬ text.withoutRows.Fits [.int64 5] :=
  ⟨rfl, rfl, rfl, by decide⟩

end Engine
end Relational
