import Relational.Metadata.Distinct

/-!
# Uniqueness

Keys that no two rows of a node share, and whether a given set of columns is one. The empty key
belongs to a node with at most one row.
-/
namespace Relational.Metadata

open Inquiry Quantity
variable {Q : Type} [Quantity Q]

namespace UniqueKeys
omit [Quantity Q]

def singleRow : Inquiry Q (Option (Fact Q)) := known (.keys [.empty])

def ofScan : Rule Q := fun setting p _ =>
  match setting.descriptor? p with
  | some d => known (.keys (keySet d.uniqueKeys))
  | none => unknown

def ofValues : Rule Q := fun _ p _ =>
  match p with
  | .values _ rows .. => if rows.length ≤ 1 then singleRow else unknown
  | _ => unknown

def passedOn : Rule Q := fun _ p args =>
  fromInput .keys p fun s => uniqueKeys s args.ignoresNulls

def atMostOne : Plan → Bool
  | .sort _ _ _ _ (some n) => n ≤ 1
  | _ => false

def ofSort : Rule Q := fun setting p args =>
  if atMostOne p then singleRow else passedOn setting p args

def ofProject : Rule Q := fun _ p args =>
  match p with
  | .project _ _ columns =>
    report (fun keys => .keys (keySet (keys.filterMap (·.renumber? (copyOf? columns)))))
      (uniqueKeys (.input 0) args.ignoresNulls)
  | _ => unknown

def ofAggregate : Rule Q := fun _ p _ =>
  match p with
  | .aggregate _ _ [set] _ _ => known (.keys [.range set.size])
  | _ => unknown

def shift (width : Nat) (key : ColumnSet) : ColumnSet :=
  .ofList (key.columns.map (· + width))

def Shiftable (width : Nat) (keys : List ColumnSet) : Prop :=
  ∀ key ∈ keys, ∀ c ∈ key.columns, c + width < Integer.wordCount

instance (width : Nat) (keys : List ColumnSet) : Decidable (Shiftable width keys) :=
  inferInstanceAs (Decidable (∀ key ∈ keys, ∀ c ∈ key.columns, c + width < Integer.wordCount))

def shiftAll (width : Nat) (keys : List ColumnSet) : Except Error (List ColumnSet) :=
  if Shiftable width keys then .ok (keys.map (shift width)) else .error .overflow

section
variable {width : Nat} {left right keys : List ColumnSet} {key : ColumnSet} {e : Error}

theorem shiftAll_eq_ok :
    shiftAll width right = .ok keys ↔ Shiftable width right ∧ keys = right.map (shift width) := by
  unfold shiftAll
  split <;> simp_all [eq_comm]

theorem shiftAll_eq_error :
    shiftAll width right = .error e ↔ e = .overflow ∧ ¬ Shiftable width right := by
  unfold shiftAll
  split <;> simp_all [eq_comm]

/-- Each key of the left side with each of the right; without left keys none is shifted. -/
def pairedKeys (width : Nat) (left right : List ColumnSet) : Except Error (List ColumnSet) :=
  if left.isEmpty then .ok []
  else (shiftAll width right).map fun shifted => left.flatMap fun l => shifted.map l.union

theorem pairedKeys_eq_error :
    pairedKeys width left right = .error e ↔
      e = .overflow ∧ left ≠ [] ∧ ¬ Shiftable width right := by
  unfold pairedKeys
  split
  next hnone => simp [List.isEmpty_iff.1 hnone]
  next hsome =>
    have hsome : left ≠ [] := fun h => hsome (h ▸ rfl)
    cases hright : shiftAll width right with
    | ok shifted => simpa [Except.map] using fun _ _ => (shiftAll_eq_ok.1 hright).1
    | error e' =>
      obtain ⟨rfl, hover⟩ := shiftAll_eq_error.1 hright
      simp [Except.map, hsome, hover, eq_comm]

theorem exists_of_mem_pairedKeys (h : pairedKeys width left right = .ok keys) (hkey : key ∈ keys) :
    ∃ l ∈ left, ∃ r ∈ right, key = l.union (shift width r) := by
  unfold pairedKeys at h
  split at h
  · cases h
    cases hkey
  · cases hright : shiftAll width right with
    | error e => rw [hright] at h; cases h
    | ok shifted =>
      rw [hright] at h
      cases h
      obtain ⟨-, rfl⟩ := shiftAll_eq_ok.1 hright
      obtain ⟨l, hl, hmem⟩ := List.mem_flatMap.1 hkey
      obtain ⟨_, hshifted, rfl⟩ := List.mem_map.1 hmem
      obtain ⟨r, hr, rfl⟩ := List.mem_map.1 hshifted
      exact ⟨l, hl, r, hr, rfl⟩

end

def uniqueOnEquated (side : Subject) (equated : List Nat) (ignoreNulls : Bool) :
    Inquiry Q Bool :=
  if equated.isEmpty then pure false
  else do return (← columnsUnique side (.ofList equated) ignoreNulls) = some true

def ofJoin : Rule Q := fun _ p args =>
  match p with
  | .join _ left _ condition type => do
    let nulls := args.ignoresNulls
    let leftKeys := (← uniqueKeys (.input 0) nulls).getD []
    if !type.keepsRight then known (.keys leftKeys)
    else
      let rightKeys := (← uniqueKeys (.input 1) nulls).getD []
      let width := left.width
      let pairs := equatedColumns condition width
      let both ← ofExcept (if type = .inner then pairedKeys width leftKeys rightKeys else .ok [])
      let rightUnique ← uniqueOnEquated (.input 1) (pairs.map (·.2)) nulls
      let fromLeft := if rightUnique && (type = .inner || type = .left) then leftKeys else []
      let leftUnique ← uniqueOnEquated (.input 0) (pairs.map (·.1)) nulls
      let fromRight ← ofExcept (if leftUnique && (type = .inner || type = .right)
        then shiftAll width rightKeys else .ok [])
      known (.keys (keySet (both ++ fromLeft ++ fromRight)))
  | _ => unknown

def ofSetOp : Rule Q := fun _ p _ =>
  match p with
  | .setOp _ .union _ true => unknown
  | .setOp .. => known (.keys [.range p.width])
  | _ => unknown

end UniqueKeys

namespace ColumnUniqueness

def always : Inquiry Q (Option (Fact Q)) := known (.flag true)

def ofNoColumns : Inquiry Q (Option (Fact Q)) := do
  match ← maxRowCount .self with
  | some rows => if le rows one then always else unknown
  | none => unknown

def byKeys : Rule Q := fun _ _ args =>
  match args with
  | .columns columns ignoreNulls => do
    if columns.isEmpty then ofNoColumns
    else
      let keys := (← uniqueKeys .self ignoreNulls).getD []
      if keys.any (·.subset columns) then always else unknown
  | _ => unknown

def ofScan : Rule Q := fun setting p args =>
  match args with
  | .columns columns _ =>
    if columns.isEmpty then ofNoColumns
    else
      match setting.descriptor? p with
      | some d => known (.flag (d.uniqueKeys.any (·.subset columns)))
      | none => unknown
  | _ => unknown

def distinctKeys? (columns : ColumnSet) (ignoreNulls : Bool) (seen : List (List Value)) :
    List Row → Option Bool
  | [] => some true
  | row :: rest =>
    match Distinct.project? columns row with
    | none => none
    | some key =>
      if ignoreNulls && key.any (·.isNull) then distinctKeys? columns ignoreNulls seen rest
      else if seen.contains key then some false
      else distinctKeys? columns ignoreNulls (key :: seen) rest

def ofValues : Rule Q := fun _ p args =>
  match p, args with
  | .values _ rows .., .columns columns ignoreNulls =>
    .done ((distinctKeys? columns ignoreNulls [] rows).map .flag)
  | _, _ => unknown

def passedOn : Rule Q := fun _ p args =>
  match args with
  | .columns columns ignoreNulls =>
    if UniqueKeys.atMostOne p then always
    else fromInput .flag p fun s => columnsUnique s columns ignoreNulls
  | _ => unknown

/-- Computed columns are left out; rows that the others tell apart stay apart. -/
def ofProject : Rule Q := fun _ p args =>
  match p, args with
  | .project _ _ projected, .columns columns ignoreNulls => do
    if columns.isEmpty then ofNoColumns
    else
      let source (c : Nat) : Option Nat := (copiedColumns projected)[c]?.bind id
      let copied := ColumnSet.ofList (columns.columns.filterMap source)
      let complete := columns.columns.all fun c => (source c).isSome
      if copied.isEmpty then unknown
      else
        match ← columnsUnique (.input 0) copied ignoreNulls with
        | some true => always
        | some false => if complete then known (.flag false) else unknown
        | none => unknown
  | _, _ => unknown

/-- Repeated rows of the input may fall into one group, so only uniqueness is passed on. -/
def ofAggregate : Rule Q := fun _ p args =>
  match p, args with
  | .aggregate _ _ sets _ _, .columns columns ignoreNulls => do
    if columns.isEmpty then ofNoColumns
    else if sets.length ≠ 1 then unknown
    else
      let groups := Plan.groupColumns sets
      if (ColumnSet.range groups.size).subset columns then always
      else
        match columns.renumber? (groups.columns[·]?) with
        | none => unknown
        | some grouped =>
          if (← columnsUnique (.input 0) grouped ignoreNulls) = some true then always
          else unknown
  | _, _ => unknown

def uniqueSide (side : Subject) (columns : ColumnSet) (ignoreNulls : Bool) :
    Inquiry Q Bool :=
  if columns.isEmpty then pure false
  else do return (← columnsUnique side columns ignoreNulls) = some true

/-- The rows that an outer join pads share their nulls, which matters unless those are ignored. -/
def ofJoin : Rule Q := fun _ p args =>
  match p, args with
  | .join _ left _ condition type, .columns columns ignoreNulls => do
    if columns.isEmpty then ofNoColumns
    else
      let (leftColumns, rightColumns) := splitColumns columns left.width
      if !type.keepsRight then
        report .flag (columnsUnique (.input 0) leftColumns ignoreNulls)
      else
        let leftPadded := (type = .right || type = .full) && !ignoreNulls
        let rightPadded := (type = .left || type = .full) && !ignoreNulls
        let leftUnique ← uniqueSide (.input 0) leftColumns ignoreNulls
        let rightUnique ← uniqueSide (.input 1) rightColumns ignoreNulls
        if leftUnique && rightUnique && !leftPadded && !rightPadded then always
        else
          let pairs := equatedColumns condition left.width
          if ← (if leftUnique && !leftPadded
              then UniqueKeys.uniqueOnEquated (.input 1) (pairs.map (·.2)) ignoreNulls
              else pure false) then always
          else if ← (if rightUnique && !rightPadded
              then UniqueKeys.uniqueOnEquated (.input 0) (pairs.map (·.1)) ignoreNulls
              else pure false) then always
          else unknown
  | _, _ => unknown

def ofSetOp : Rule Q := fun setting p args =>
  match p, args with
  | .setOp _ _ _ all, .columns columns _ =>
    if !all && (ColumnSet.range p.width).subset columns then always
    else byKeys setting p args
  | _, _ => byKeys setting p args

end ColumnUniqueness
end Relational.Metadata
