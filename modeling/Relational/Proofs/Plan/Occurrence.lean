import Relational.Plan.Occurrence
import Relational.Proofs.Plan.Nodes

/-!
# Numbered scans

The number of a scan's occurrence is that of the earlier scans of tables of the same name. Where ids
identify nodes, no two scans have the same occurrence. The occurrences in a plan are those of its
own scan or those in its inputs.
-/
namespace Relational

instance : Std.LawfulEqCmp TableOccurrence.order where
  compare_self := by simp [TableOccurrence.order]
  eq_of_compare {a b} h := by
    obtain ⟨table, number⟩ := a
    obtain ⟨table', number'⟩ := b
    simpa [TableOccurrence.order, Ordering.then_eq_eq] using h

namespace Plan

def scannedTables (nodes : List Plan) : List String :=
  nodes.filterMap fun p => p.table?.map (·.qualifiedName)

def Scanned (occurrence? : Nat → Option TableOccurrence) (p : Plan) (o : TableOccurrence)
    (shape : Schema) : Prop :=
  ∃ id table notes, .scan id table shape notes ∈ p.nodes ∧ occurrence? id = some o

def ScannedColumn (occurrence? : Nat → Option TableOccurrence) (p : Plan) (o : TableOccurrence)
    (column : Nat) : Prop :=
  ∃ shape, p.Scanned occurrence? o shape ∧ column < shape.length

variable {p node scan other : Plan} {nodes before after : List Plan} {seen : List String}
  {t t' : TableRef} {occurrence? : Nat → Option TableOccurrence} {o : TableOccurrence}
  {shape : Schema}

theorem lookup_numberScans (hids : ((before ++ scan :: after).map id).Nodup)
    (ht : scan.table? = some t) :
    (numberScans seen (before ++ scan :: after)).lookup scan.id =
      some ⟨t.qualifiedName,
        seen.count t.qualifiedName + (scannedTables before).count t.qualifiedName⟩ := by
  induction before generalizing seen with
  | nil => simp [numberScans, ht, scannedTables]
  | cons p rest ih =>
    obtain ⟨hfresh, hids⟩ := List.nodup_cons.1 hids
    have hne : scan.id ≠ p.id := fun hid => hfresh (by simp [← hid])
    rw [List.cons_append, numberScans]
    cases hp : p.table? with
    | none => simp [ih hids, scannedTables, hp]
    | some u =>
      simp only [List.lookup_cons, beq_false_of_ne hne, ih hids, scannedTables,
        List.filterMap_cons, hp, Option.map_some, List.count_cons, Option.some.injEq,
        TableOccurrence.mk.injEq, true_and]
      omega

theorem lookup_occurrences (hids : p.checkIds = .ok ()) (hnodes : p.nodes = before ++ scan :: after)
    (ht : scan.table? = some t) :
    p.occurrences.lookup scan.id =
      some ⟨t.qualifiedName, (scannedTables before).count t.qualifiedName⟩ := by
  have hnodup := nodup_ids_of_checkIds hids
  rw [hnodes] at hnodup
  rw [occurrences, hnodes, lookup_numberScans hnodup ht]
  simp

theorem exists_occurrence (hids : p.checkIds = .ok ()) (hscan : scan ∈ p.nodes)
    (ht : scan.table? = some t) : ∃ o, p.occurrences.lookup scan.id = some o := by
  obtain ⟨before, after, hnodes⟩ := List.append_of_mem hscan
  exact ⟨_, lookup_occurrences hids hnodes ht⟩

theorem count_lt_count {rest : List Plan} (ht : scan.table? = some t) :
    (scannedTables before).count t.qualifiedName <
      (scannedTables (before ++ scan :: rest)).count t.qualifiedName := by
  simp [scannedTables, ht]

theorem occurrences_injective (hids : p.checkIds = .ok ()) (hscan : scan ∈ p.nodes)
    (hother : other ∈ p.nodes) (ht : scan.table? = some t) (ht' : other.table? = some t')
    (h : p.occurrences.lookup scan.id = p.occurrences.lookup other.id) : scan = other := by
  obtain ⟨before, after, hnodes⟩ := List.append_of_mem hscan
  obtain ⟨before', after', hnodes'⟩ := List.append_of_mem hother
  rw [lookup_occurrences hids hnodes ht, lookup_occurrences hids hnodes' ht',
    Option.some.injEq, TableOccurrence.mk.injEq] at h
  obtain ⟨hname, hcount⟩ := h
  -- the scan that comes first has the smaller number, unless they are one
  rcases List.append_eq_append_iff.1 (hnodes.symm.trans hnodes') with
    ⟨rest, rfl, htail⟩ | ⟨rest, rfl, htail⟩
  · cases rest with
    | nil => exact (List.cons.inj htail).1
    | cons first rest =>
      obtain ⟨rfl, -⟩ := List.cons.inj htail
      exact absurd hcount (Nat.ne_of_lt (hname ▸ count_lt_count ht))
  · cases rest with
    | nil => exact (List.cons.inj htail).1.symm
    | cons first rest =>
      obtain ⟨rfl, -⟩ := List.cons.inj htail
      rw [hname] at hcount
      exact absurd hcount.symm (Nat.ne_of_lt (count_lt_count ht'))

/-! What is scanned -/

theorem Scanned.above (h : node.Scanned occurrence? o shape) (hnode : node ∈ p.nodes) :
    p.Scanned occurrence? o shape := by
  obtain ⟨id, table, notes, hscan, ho⟩ := h
  exact ⟨id, table, notes, mem_nodes_trans hnode hscan, ho⟩

theorem ScannedColumn.above {column : Nat} (h : node.ScannedColumn occurrence? o column)
    (hnode : node ∈ p.nodes) : p.ScannedColumn occurrence? o column := by
  obtain ⟨shape, hscanned, hcolumn⟩ := h
  exact ⟨shape, hscanned.above hnode, hcolumn⟩

theorem ScannedColumn.scanned {column : Nat} (h : p.ScannedColumn occurrence? o column) :
    ∃ shape, p.Scanned occurrence? o shape := by
  obtain ⟨shape, hscanned, -⟩ := h
  exact ⟨shape, hscanned⟩

theorem scanned_scan {id : Nat} {table : TableRef} {shape' : Schema} {notes : Notes} :
    (Plan.scan id table shape notes).Scanned occurrence? o shape' ↔
      occurrence? id = some o ∧ shape' = shape := by
  constructor
  · rintro ⟨_, _, _, hscan, ho⟩
    cases List.mem_singleton.1 hscan
    exact ⟨ho, rfl⟩
  · rintro ⟨ho, rfl⟩
    exact ⟨id, table, notes, self_mem_nodes _, ho⟩

theorem scanned_iff_inputs (hp : p.table? = none) :
    p.Scanned occurrence? o shape ↔ ∃ child ∈ p.children, child.Scanned occurrence? o shape := by
  constructor
  · rintro ⟨id, table, notes, hscan, ho⟩
    rw [nodes_eq_cons] at hscan
    rcases List.mem_cons.1 hscan with rfl | hbelow
    · cases hp
    · obtain ⟨child, hchild, hscan⟩ := List.mem_flatMap.1 hbelow
      exact ⟨child, hchild, id, table, notes, hscan, ho⟩
  · rintro ⟨child, hchild, h⟩
    exact h.above (mem_nodes_of_mem_children hchild)

end Plan
end Relational
