import Mathlib.Data.List.Infix
import Relational.Proofs.Catalog.Registering

/-!
# Tables by name

Which table a name leads to after a sequence of registrations. A registration drops the previous
name of its table without a look at whose it is by then, and takes its name over from another
table that bears it. So a table is certain to be found only if it never shared its name.
-/
namespace Relational.Catalog
variable {c c' : Catalog} {t u : Table} {id : Nat} {name : String}

/-! ### One registration -/

theorem lookup_dropName (dropped name : String) (names : List (String × Nat)) :
    (dropName dropped names).lookup name = if name = dropped then none else names.lookup name := by
  induction names with
  | nil => simp [dropName]
  | cons entry rest ih =>
    obtain ⟨key, id⟩ := entry
    by_cases hkey : key = dropped
    · have hdrop : dropName dropped ((key, id) :: rest) = dropName dropped rest := by
        simp [dropName, hkey]
      rw [hdrop, ih, List.lookup_cons, hkey]
      split
      · rfl
      next hname => rw [beq_false_of_ne hname]
    · have hkeep : dropName dropped ((key, id) :: rest) = (key, id) :: dropName dropped rest := by
        simp [dropName, hkey]
      rw [hkeep, List.lookup_cons, List.lookup_cons, ih]
      by_cases hname : name = key
      · simp [hname, hkey]
      · rw [beq_false_of_ne hname]

theorem lookup_insert (c : Catalog) (t : Table) (name : String) :
    (c.insert t).names.lookup name =
      if name = t.qualifiedName then some t.id
      else if (c.find? t.id).map Table.qualifiedName = some name then none
      else c.names.lookup name := by
  unfold insert
  rw [List.lookup_cons]
  by_cases hname : name = t.qualifiedName
  · simp [hname]
  · rw [beq_false_of_ne hname, lookup_dropName]
    cases c.find? t.id with
    | none => simp [hname]
    | some previous => simp [hname, lookup_dropName, eq_comm]

theorem getByName_eq_ok :
    c.getByName name = .ok t ↔ ∃ id, c.names.lookup name = some id ∧ c.get id = .ok t := by
  unfold getByName
  cases c.names.lookup name <;> simp

/-! ### What registrations keep -/

def Named (c : Catalog) : Prop :=
  ∀ name id, c.names.lookup name = some id → ∃ t ∈ c.tables, t.id = id ∧ t.qualifiedName = name

/-- The tables of the name are found by it. -/
def Reaches (c : Catalog) (name : String) : Prop :=
  ∀ t ∈ c.tables, t.qualifiedName = name → c.names.lookup name = some t.id

def Unambiguous (c : Catalog) (name : String) : Prop :=
  ∀ t ∈ c.tables, ∀ u ∈ c.tables, t.qualifiedName = name → u.qualifiedName = name → t.id = u.id

instance : Decidable (c.Unambiguous name) :=
  inferInstanceAs (Decidable (∀ t ∈ c.tables, ∀ u ∈ c.tables, _ → _ → t.id = u.id))

theorem Named.register (h : c.Named) (hids : c.DistinctIds) (hr : c.register t = .ok c') :
    c'.Named := by
  intro name id hlookup
  obtain ⟨-, -, rfl⟩ := register_eq_ok.1 hr
  rw [lookup_insert] at hlookup
  split at hlookup
  next hname =>
    cases hlookup
    exact ⟨t, (hids.mem_tables hr).2 (.inl rfl), rfl, hname.symm⟩
  next =>
    split at hlookup
    next => cases hlookup
    next hprevious =>
      obtain ⟨u, hu, rfl, rfl⟩ := h name id hlookup
      -- Under the id of `t` there would only be the previous definition, whose name is gone.
      refine ⟨u, (hids.mem_tables hr).2 (.inr ⟨hu, fun hid => hprevious ?_⟩), rfl, rfl⟩
      rw [← hid, get_eq_ok.1 (hids.get hu), Option.map_some]

theorem Reaches.register (h : c.Reaches name) (hids : c.DistinctIds)
    (hbefore : c.Unambiguous name) (hafter : c'.Unambiguous name)
    (hr : c.register t = .ok c') : c'.Reaches name := by
  intro u hu hname
  have ht : t ∈ c'.tables := (hids.mem_tables hr).2 (.inl rfl)
  rcases (hids.mem_tables hr).1 hu with rfl | ⟨hu', hid⟩
  · obtain ⟨-, -, rfl⟩ := register_eq_ok.1 hr
    rw [lookup_insert, if_pos hname.symm]
  · have hother : name ≠ t.qualifiedName := fun heq => hid (hafter u hu t ht hname heq.symm)
    have hprevious : (c.find? t.id).map Table.qualifiedName ≠ some name := by
      intro hmap
      obtain ⟨previous, hfind, hbears⟩ := Option.map_eq_some_iff.1 hmap
      obtain ⟨hmem, hsame⟩ := mem_of_find? hfind
      exact hid ((hbefore u hu' previous hmem hname hbears).trans hsame)
    obtain ⟨-, -, rfl⟩ := register_eq_ok.1 hr
    rw [lookup_insert, if_neg hother, if_neg hprevious]
    exact h u hu' hname

/-! ### Sequences of calls -/

theorem named_ofCalls (calls : List Table) : (ofCalls calls).Named :=
  ofCalls_induction (by rintro name id ⟨⟩) Named.register calls

theorem reaches_ofCalls {calls : List Table}
    (h : ∀ earlier, earlier <+: calls → (ofCalls earlier).Unambiguous name) :
    (ofCalls calls).Reaches name := by
  induction calls using List.reverseRecOn with
  | nil => intro t ht; cases ht
  | append_singleton calls t ih =>
    have hbefore := ih fun earlier hearlier => h earlier (hearlier.trans (List.prefix_append _ _))
    rcases ofCalls_concat calls t with heq | hregister
    · exact heq ▸ hbefore
    · exact hbefore.register (distinctIds_ofCalls calls) (h calls (List.prefix_append _ _))
        (h _ List.prefix_rfl) hregister

/-- A call that fails changes nothing, a name leads to a registered table that bears it, and a
registered table is found by its name if no other one bore that name at any time. -/
theorem getByName_ofCalls (calls : List Table) :
    let c := ofCalls calls
    (∀ t error c', (enter t).on c = (.error error, c') →
      c'.get = c.get ∧ c'.getByName = c.getByName ∧ c'.tables = c.tables) ∧
    (∀ name t, c.getByName name = .ok t →
      t ∈ c.tables ∧ c.get t.id = .ok t ∧ t.qualifiedName = name) ∧
    ∀ t ∈ c.tables,
      (∀ earlier, earlier <+: calls → (ofCalls earlier).Unambiguous t.qualifiedName) →
        c.getByName t.qualifiedName = .ok t := by
  intro c
  have hids : c.DistinctIds := distinctIds_ofCalls calls
  refine ⟨fun t error c' hfails => ?_, fun name t hfound => ?_, fun t ht hname => ?_⟩
  · obtain rfl := (enter_performs t).unchanged hfails
    exact ⟨rfl, rfl, rfl⟩
  · obtain ⟨id, hlookup, hget⟩ := getByName_eq_ok.1 hfound
    obtain ⟨u, hu, rfl, hbears⟩ := named_ofCalls calls name id hlookup
    obtain rfl : u = t := Except.ok.inj ((hids.get hu).symm.trans hget)
    exact ⟨hu, hget, hbears⟩
  · exact getByName_eq_ok.2 ⟨t.id, reaches_ofCalls hname t ht rfl, hids.get ht⟩

def sales (id : Nat) (name : String) : Table :=
  { id, schema := "sales", name, columns := [⟨10 * id, "id", .int64, false⟩] }

theorem getByName_ofCalls_archive :
    let calls := [sales 1 "orders", sales 2 "items", sales 1 "archive"]
    let c := ofCalls calls
    let copy : Table := { sales 3 "copy" with columns := (sales 1 "orders").columns }
    let error : Error := .invalidConfig (.sharedColumnId 10 "sales.copy" "sales.archive")
    sales 1 "archive" ∈ c.tables ∧ c.getByName "sales.archive" = .ok (sales 1 "archive") ∧
      c.get 1 = .ok (sales 1 "archive") ∧
      ∃ c', (enter copy).on c = (.error error, c') ∧ c'.getByName = c.getByName := by
  intro calls c copy error
  obtain ⟨hfailing, hfound, hreached⟩ := getByName_ofCalls calls
  have htables : c.tables = [sales 1 "archive", sales 2 "items"] := rfl
  have ht : sales 1 "archive" ∈ c.tables := htables ▸ List.mem_cons_self
  have hname : ∀ earlier, earlier <+: calls → (ofCalls earlier).Unambiguous "sales.archive" := by
    simp only [← List.mem_inits]
    decide
  have harchive := hreached _ ht hname
  have hcopy : (enter copy).on c = (.error error, c) := rfl
  exact ⟨ht, harchive, (hfound _ _ harchive).2.1, c, hcopy, (hfailing _ _ _ hcopy).2.1⟩

/-- The second table of a name takes the name with it. -/
theorem getByName_of_taken :
    let c := ofCalls [sales 1 "orders", sales 2 "orders", sales 2 "archive"]
    c.tables = [sales 1 "orders", sales 2 "archive"] ∧
      c.getByName "sales.orders" = .error (.planning (.unknownTable "sales.orders")) :=
  ⟨rfl, rfl⟩

end Relational.Catalog
