import Mathlib.Data.List.Nodup
import Relational.Json.Decode
import Relational.Proofs.Outcome

/-!
# Documents that are read back

A document stands for a value if it is well formed and the value's reader reads it as the value.
The primitive documents stand for what they were written from, and so do lists and records whose
parts do.
-/
namespace Relational.Json

structure Stands {α : Type} (read : Json → Option α) (a : α) (j : Json) : Prop where
  read : read j = some a
  intact : j.intact = true

theorem stands_natural {n : Nat} (h : n < Integer.wordCount) : Stands natural? n (natural n) := by
  have hword : (0 : Int) ≤ n ∧ (n : Int) < Integer.wordCount := by omega
  exact ⟨by rw [natural, natural?, Integer.word?, if_pos hword, Int.toNat_natCast], rfl⟩

theorem stands_natural32 {n : Nat} (h : n < 4294967296) : Stands natural32? n (natural n) := by
  have hword : n < Integer.wordCount := by rw [Integer.wordCount]; omega
  exact ⟨by rw [natural32?, (stands_natural hword).read, Option.filter_some]; simp [h], rfl⟩

theorem stands_bool (b : Bool) : Stands bool? b (.bool b) := ⟨rfl, rfl⟩

theorem stands_text (s : String) : Stands text? s (.string s) := ⟨rfl, rfl⟩

theorem stands_int8 (n : Int8) : Stands int8? n (.integer n.toInt) := by
  have hbounds : -128 ≤ n.toInt ∧ n.toInt ≤ 127 := ⟨n.minValue_le_toInt, n.toInt_le⟩
  exact ⟨by rw [int8?, Integer.int8?, if_pos hbounds, Int8.ofInt_toInt], rfl⟩

theorem stands_uint8 (n : UInt8) : Stands uint8? n (natural n.toNat) := by
  have hbounds : (0 : Int) ≤ n.toNat ∧ (n.toNat : Int) ≤ 255 := by
    have := n.toNat_lt
    omega
  exact ⟨by rw [natural, uint8?, Integer.uint8?, if_pos hbounds, Int.toNat_natCast,
    UInt8.ofNat_toNat], rfl⟩

theorem stands_int32 (n : Int32) : Stands int32? n (.integer n.toInt) := by
  have hbounds : Integer.least32 ≤ n.toInt ∧ n.toInt ≤ Integer.greatest32 :=
    ⟨n.minValue_le_toInt, n.toInt_le⟩
  exact ⟨by rw [int32?, Integer.int32?, if_pos hbounds, Int32.ofInt_toInt], rfl⟩

theorem stands_int64 (n : Int64) : Stands int64? n (.integer n.toInt) := by
  have hbounds : Integer.least64 ≤ n.toInt ∧ n.toInt ≤ Integer.greatest64 :=
    ⟨n.minValue_le_toInt, n.toInt_le⟩
  exact ⟨by rw [int64?, Integer.int64?, if_pos hbounds, Int64.ofInt_toInt], rfl⟩

section
variable {α : Type} {read : Json → Option α}

theorem stands_named {ofName? : String → Option α} {name : String} {a : α}
    (h : ofName? name = some a) : Stands (named? ofName?) a (.string name) := ⟨h, rfl⟩

theorem intactItems_eq_true {items : List Json} :
    intactItems items = true ↔ ∀ j ∈ items, j.intact = true := by
  induction items with
  | nil => simp [intactItems]
  | cons j rest ih => rw [intactItems, Bool.and_eq_true, ih, List.forall_mem_cons]

theorem intact_object {fields : List (String × Json)} (h : ∀ f ∈ fields, f.2.intact = true) :
    (object fields).intact = true := by
  rw [intact]
  induction fields with
  | nil => rfl
  | cons f rest ih =>
    obtain ⟨key, j⟩ := f
    obtain ⟨hj, hrest⟩ := List.forall_mem_cons.1 h
    simp only [intactFields, hj, ih hrest, Bool.or_true, Bool.and_self]

theorem intact_array {items : List Json} (h : ∀ j ∈ items, j.intact = true) :
    (array items).intact = true := by
  rw [intact, intactItems_eq_true]
  exact h

theorem stands_list {as : List α} {js : List Json} (h : List.Forall₂ (Stands read) as js) :
    Stands (list? read) as (.array js) := by
  constructor
  · exact mapM_eq_some.2 (h.flip.imp fun _ _ hj => hj.read)
  · refine intact_array fun j hj => ?_
    obtain ⟨a, -, hstands⟩ := forall₂_exists_mem h hj
    exact hstands.intact

theorem stands_map {write : α → Json} {as : List α} (h : ∀ a ∈ as, Stands read a (write a)) :
    Stands (list? read) as (.array (as.map write)) :=
  stands_list (List.forall₂_map_right_iff.2 (List.forall₂_same.2 h))

theorem stands_optional {write : α → Json} {a : Option α} (hnull : ∀ b, write b ≠ .null)
    (h : ∀ b, a = some b → Stands read b (write b)) :
    Stands (optional? read) a (a.elim .null write) := by
  cases a with
  | none => exact ⟨rfl, rfl⟩
  | some b =>
    obtain ⟨hread, hintact⟩ := h b rfl
    refine ⟨?_, hintact⟩
    rw [Option.elim_some, optional?, hread, Option.map_some]
    exact hnull b

theorem members?_object {names : List String} {fields : List (String × Json)}
    (hkeys : (fields.map (·.1)).Nodup) (h : ∀ f ∈ fields, f.2.intact = true) :
    (object fields).members? names = some fields := by
  have honce : names.all fun n => (fields.filter (·.1 == n)).length ≤ 1 := by
    rw [List.all_eq_true]
    intro n _
    have hcount := List.nodup_iff_count_le_one.1 hkeys n
    rw [List.count, List.countP_map, List.countP_eq_length_filter] at hcount
    exact decide_eq_true hcount
  rw [members?, if_neg, if_pos honce]
  -- no member is without a name
  rw [Bool.not_eq_true, List.any_eq_false]
  intro f hf
  have hintact := h f hf
  split
  next hflaw =>
    rw [hflaw] at hintact
    cases hintact
  next => simp

/-- A record is well formed if its members are; its reader finds them under their names. -/
theorem stands_record {fields : List (String × Json)} {a : α}
    (hkeys : (fields.map (·.1)).Nodup) (hintact : ∀ f ∈ fields, f.2.intact = true)
    (h : (∀ names, (object fields).members? names = some fields) →
      read (object fields) = some a) : Stands read a (object fields) :=
  ⟨h fun _ => members?_object hkeys hintact, intact_object hintact⟩

theorem stands_tagged {tag : String} {fields : List (String × Json)} {a : α}
    (hkeys : (fields.map (·.1)).Nodup) (hintact : ∀ f ∈ fields, f.2.intact = true)
    (h : (∀ names, (object fields).members? names = some fields) →
      read (object [(tag, object fields)]) = some a) :
    Stands read a (object [(tag, object fields)]) :=
  ⟨h fun _ => members?_object hkeys hintact,
    intact_object (List.forall_mem_singleton.2 (intact_object hintact))⟩

theorem member?_of_lookup {name : String} {fields : List (String × Json)} {j : Json} {a : α}
    (hlookup : lookup name fields = some j) (h : Stands read a j) :
    member? name read fields = some a := by
  rw [member?, hlookup, Option.bind_some, h.read]

theorem memberOr?_of_lookup {name : String} {default : α} {fields : List (String × Json)}
    {j : Json} {a : α} (hlookup : lookup name fields = some j) (h : Stands read a j) :
    memberOr? name default read fields = some a := by
  rw [memberOr?, hlookup]
  exact h.read

end
end Relational.Json
