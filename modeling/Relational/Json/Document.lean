import Relational.Binary.Arithmetic

/-!
# Documents

A document keeps the order of its fields and the width at which a number was written. A place of
a text that holds no value is marked with the reason.
-/
namespace Relational

inductive Flaw
  | broken
  /-- A number out of range, a text with half a surrogate pair or containers nested too deep: well
  formed, so it may be skipped, but not read. -/
  | unusable
  | unnamed
  deriving DecidableEq

inductive Json
  | null
  | bool (value : Bool)
  | integer (value : Int)
  | single (value : Binary32)
  | double (value : Binary64)
  | string (value : String)
  | array (items : List Json)
  | object (fields : List (String × Json))
  | flawed (flaw : Flaw)
  deriving Inhabited

namespace Json

def natural (n : Nat) : Json := .integer n

def strings (ss : List String) : Json := .array (ss.map .string)

mutual
def intact : Json → Bool
  | array items => intactItems items
  | object fields => intactFields fields
  | flawed flaw => flaw = .unusable
  | _ => true

def intactItems : List Json → Bool
  | [] => true
  | j :: rest => j.intact && intactItems rest

def intactFields : List (String × Json) → Bool
  | [] => true
  | (_, j) :: rest => (j matches .flawed .unnamed || j.intact) && intactFields rest
end

mutual
def sound : Json → Bool
  | array items => soundItems items
  | object fields => soundFields fields
  | flawed _ => false
  | _ => true

def soundItems : List Json → Bool
  | [] => true
  | j :: rest => j.sound && soundItems rest

def soundFields : List (String × Json) → Bool
  | [] => true
  | (_, j) :: rest => j.sound && soundFields rest
end

/-- Keeps the names sorted; a name that is there already gets the new value. -/
def insertField {α : Type} (key : String) (a : α) : List (String × α) → List (String × α)
  | [] => [(key, a)]
  | (k, b) :: rest =>
    if key < k then (key, a) :: (k, b) :: rest
    else if key = k then (k, a) :: rest
    else (k, b) :: insertField key a rest

theorem mem_insertField {α : Type} {key : String} {a : α} {fields : List (String × α)}
    {f : String × α} (h : f ∈ insertField key a fields) : f.1 = key ∨ f ∈ fields := by
  induction fields with
  | nil => exact .inl (congrArg Prod.fst (List.mem_singleton.1 h))
  | cons field rest ih =>
    obtain ⟨k, b⟩ := field
    unfold insertField at h
    grind

theorem insertField_sorted {α : Type} {key : String} {a : α} {fields : List (String × α)}
    (h : fields.Pairwise (·.1 < ·.1)) : (insertField key a fields).Pairwise (·.1 < ·.1) := by
  induction fields with
  | nil => exact List.pairwise_singleton _ _
  | cons field rest ih =>
    obtain ⟨k, b⟩ := field
    obtain ⟨hfirst, hrest⟩ := List.pairwise_cons.1 h
    unfold insertField
    split
    next hlt =>
      refine List.pairwise_cons.2 ⟨List.forall_mem_cons.2 ⟨hlt, fun f hf => ?_⟩, h⟩
      exact String.lt_trans hlt (hfirst f hf)
    · split
      next => exact List.pairwise_cons.2 ⟨hfirst, hrest⟩
      next hlt hne =>
        refine List.pairwise_cons.2 ⟨fun f hf => ?_, ih hrest⟩
        rcases mem_insertField hf with heq | hf
        · exact heq ▸ Std.lt_of_le_of_ne (String.not_lt.1 hlt) (Ne.symm hne)
        · exact hfirst f hf

mutual
def sorted : Json → Json
  | array items => .array (sortedItems items)
  | object fields => .object (sortedFields [] fields)
  | j => j

def sortedItems : List Json → List Json
  | [] => []
  | j :: rest => j.sorted :: sortedItems rest

def sortedFields (done : List (String × Json)) : List (String × Json) → List (String × Json)
  | [] => done
  | (key, j) :: rest => sortedFields (insertField key j.sorted done) rest
end

def lookup (name : String) : List (String × Json) → Option Json
  | [] => none
  | (key, j) :: rest => if key == name then some j else lookup name rest

end Json
end Relational
