import Mathlib.Data.List.Induction
import Mathlib.Data.List.Nodup
import Relational.Catalog.Basic
import Relational.Proofs.Outcome

/-!
# Sequences of registrations

`enter` is a registration as it is carried out on a catalog that many calls share: it may stop at
any step, and what it has written by then stays. It comes to `register`, since no step that can
stop it follows one that writes. `ofCalls` is the catalog after a sequence of calls, whatever
becomes of each of them.
-/
namespace Relational.Catalog
variable {c c' : Catalog} {t u : Table} {id : Nat}

/-! ### Registering -/

/-- The previous name goes first, then the new one comes in, and the definition last. -/
def enter (t : Table) : Update Catalog Unit := do
  ofExcept t.check
  let c ← getThe Catalog
  if let some fault := c.conflict? t then throw (.invalidConfig fault)
  if let some previous := c.find? t.id then
    modify fun c => { c with names := dropName previous.qualifiedName c.names }
  modify fun c => { c with names := (t.qualifiedName, t.id) :: dropName t.qualifiedName c.names }
  modify fun c => { c with tables := replace t c.tables }

theorem enter_performs (t : Table) : (enter t).Performs (·.register t) := by
  intro c
  unfold register enter insert
  cases hcheck : t.check with
  | error => simp
  | ok =>
    cases hconflict : c.conflict? t with
    | some => simp [hconflict]
    | none => cases hfind : c.find? t.id <;> simp [hconflict, hfind]

theorem register_eq_ok :
    c.register t = .ok c' ↔ t.check = .ok () ∧ c.conflict? t = none ∧ c.insert t = c' := by
  unfold register
  cases t.check with
  | error => simp
  | ok => cases c.conflict? t <;> simp

/-! ### Tables and their ids -/

def DistinctIds (c : Catalog) : Prop := c.tables.Pairwise fun t u => t.id ≠ u.id

theorem mem_replace {tables : List Table} (h : tables.Pairwise fun t u => t.id ≠ u.id) :
    u ∈ replace t tables ↔ u = t ∨ u ∈ tables ∧ u.id ≠ t.id := by
  induction tables with
  | nil => simp [replace]
  | cons first rest ih =>
    obtain ⟨hfirst, hrest⟩ := List.pairwise_cons.1 h
    unfold replace
    split
    next heq =>
      have hother : u ∈ rest → u.id ≠ t.id := fun hu => heq ▸ (hfirst u hu).symm
      grind
    next hne => grind

theorem pairwise_replace {tables : List Table} (h : tables.Pairwise fun t u => t.id ≠ u.id) :
    (replace t tables).Pairwise fun t u => t.id ≠ u.id := by
  induction tables with
  | nil => simp [replace]
  | cons first rest ih =>
    obtain ⟨hfirst, hrest⟩ := List.pairwise_cons.1 h
    unfold replace
    split
    next heq => exact List.pairwise_cons.2 ⟨fun u hu => heq ▸ hfirst u hu, hrest⟩
    next hne =>
      refine List.pairwise_cons.2 ⟨fun u hu => ?_, ih hrest⟩
      rcases (mem_replace hrest).1 hu with rfl | ⟨hu, -⟩
      · exact hne
      · exact hfirst u hu

theorem DistinctIds.eq_of_id (h : c.DistinctIds) (ht : t ∈ c.tables) (hu : u ∈ c.tables)
    (hid : t.id = u.id) : t = u :=
  List.inj_on_of_nodup_map (List.pairwise_map.2 h) ht hu hid

theorem get_eq_ok : c.get id = .ok t ↔ c.find? id = some t := by
  unfold get
  cases c.find? id <;> simp

theorem mem_of_find? (h : c.find? id = some t) : t ∈ c.tables ∧ t.id = id :=
  ⟨List.mem_of_find?_eq_some h, by simpa using List.find?_some h⟩

theorem DistinctIds.get (h : c.DistinctIds) (ht : t ∈ c.tables) : c.get t.id = .ok t := by
  rw [get_eq_ok]
  cases hfind : c.find? t.id with
  | none => exact absurd (List.find?_eq_none.1 hfind t ht) (by simp)
  | some u =>
    obtain ⟨hu, hid⟩ := mem_of_find? hfind
    rw [h.eq_of_id hu ht hid]

theorem find?_replace (t : Table) (id : Nat) (tables : List Table) :
    (replace t tables).find? (·.id == id) =
      if t.id = id then some t else tables.find? (·.id == id) := by
  induction tables with
  | nil => by_cases h : t.id = id <;> simp [replace, h]
  | cons first rest ih =>
    unfold replace
    split
    next hfirst => by_cases h : t.id = id <;> simp [h, hfirst]
    next hfirst =>
      by_cases h : first.id = id
      · have hother : t.id ≠ id := fun heq => hfirst (h.trans heq.symm)
        simp [h, hother]
      · simpa [h] using ih

theorem get_register (h : c.register t = .ok c') (id : Nat) :
    c'.get id = if t.id = id then .ok t else c.get id := by
  obtain ⟨-, -, rfl⟩ := register_eq_ok.1 h
  have hfind : (c.insert t).find? id = if t.id = id then some t else c.find? id :=
    find?_replace t id c.tables
  unfold get
  rw [hfind]
  by_cases hid : t.id = id <;> simp [hid]

theorem DistinctIds.mem_tables (h : c.DistinctIds) (hr : c.register t = .ok c') :
    u ∈ c'.tables ↔ u = t ∨ u ∈ c.tables ∧ u.id ≠ t.id := by
  obtain ⟨-, -, rfl⟩ := register_eq_ok.1 hr
  exact mem_replace h

theorem DistinctIds.register (h : c.DistinctIds) (hr : c.register t = .ok c') :
    c'.DistinctIds := by
  obtain ⟨-, -, rfl⟩ := register_eq_ok.1 hr
  exact pairwise_replace h

/-! ### Sequences of calls -/

def ofCalls (calls : List Table) : Catalog := Update.history enter {} calls

theorem ofCalls_concat (calls : List Table) (t : Table) :
    ofCalls (calls ++ [t]) = ofCalls calls ∨
      (ofCalls calls).register t = .ok (ofCalls (calls ++ [t])) := by
  have hlast : ofCalls (calls ++ [t]) = ((enter t).on (ofCalls calls)).2 := by
    simp [ofCalls, Update.history]
  rw [hlast]
  exact (enter_performs t).next (ofCalls calls)

theorem distinctIds_ofCalls (calls : List Table) : (ofCalls calls).DistinctIds := by
  induction calls using List.reverseRecOn with
  | nil => exact .nil
  | append_singleton calls t ih =>
    rcases ofCalls_concat calls t with heq | hregister
    · exact heq ▸ ih
    · exact ih.register hregister

/-- What holds of the empty catalog and is kept by every registration holds after any calls. -/
theorem ofCalls_induction {P : Catalog → Prop} (empty : P {})
    (step : ∀ {c t c'}, P c → c.DistinctIds → c.register t = .ok c' → P c') (calls : List Table) :
    P (ofCalls calls) := by
  induction calls using List.reverseRecOn with
  | nil => exact empty
  | append_singleton calls t ih =>
    rcases ofCalls_concat calls t with heq | hregister
    · exact heq ▸ ih
    · exact step ih (distinctIds_ofCalls calls) hregister

end Relational.Catalog
