import Relational.Metadata.Rule

/-!
# Bounds on the number of rows
-/
namespace Relational.Metadata

open Inquiry Quantity
variable {Q : Type} [Quantity Q]

def limit (rows : Q) (offset fetch : Option Nat) : Q :=
  let rest := atLeastZero (rows - ofNat (offset.getD 0))
  fetch.elim rest fun n => least rest (ofNat n)

def emptySets (sets : List ColumnSet) : Nat := (sets.filter (·.isEmpty)).length
def keyedSets (sets : List ColumnSet) : Nat := (sets.filter (!·.isEmpty)).length

namespace RowBound

def unbounded : Rule Q := constantly (.number infinity)
def none : Rule Q := constantly (.number zero)

def ofValues : Rule Q := fun _ p _ =>
  match p with
  | .values _ rows .. => known (.number (ofNat rows.length))
  | _ => unknown

def maxPassedOn : Rule Q := fun _ p _ => fromInput .number p maxRowCount

def minPassedOn : Rule Q := fun _ p _ => fromInput .number p minRowCount

def maxOfAggregate : Rule Q := fun _ p _ =>
  match p with
  | .aggregate _ _ sets _ _ =>
    let empty := emptySets sets
    let keyed := keyedSets sets
    if keyed = 0 then known (.number (ofNat empty))
    else report (fun rows => .number (ofNat empty + times rows (ofNat keyed)))
      (maxRowCount (.input 0))
  | _ => unknown

def minOfAggregate : Rule Q := fun _ p _ =>
  match p with
  | .aggregate _ _ sets _ _ => do
    match ← minRowCount (.input 0) with
    | some rows =>
      if le one rows then known (.number (ofNat sets.length))
      else known (.number (ofNat (emptySets sets)))
    | _ => known (.number (ofNat (emptySets sets)))
  | _ => unknown

/-- A side that an outer join keeps has its rows padded if the other side is empty. -/
def joinMax (type : JoinType) (l r : Q) : Q :=
  match type with
  | .inner => times l r
  | .left => if isZero r then l else times l r
  | .right => if isZero l then r else times l r
  | .full => if isZero l then r else if isZero r then l else times l r
  | .semi | .anti => l

def maxOfJoin : Rule Q := fun _ p _ =>
  match p with
  | .join _ _ _ _ type => do
    let l ← maxRowCount (.input 0)
    let r ← maxRowCount (.input 1)
    match l, r with
    | some l, some r => known (.number (joinMax type l r))
    | _, _ => unknown
  | _ => unknown

def minOfJoin : Rule Q := fun _ p _ =>
  match p with
  | .join _ _ _ _ type =>
    match type with
    | .left => report .number (minRowCount (.input 0))
    | .right => report .number (minRowCount (.input 1))
    | .full => do
      let l ← minRowCount (.input 0)
      let r ← minRowCount (.input 1)
      match l, r with
      | some l, some r => known (.number (greatest l r))
      | _, _ => unknown
    | .inner | .semi | .anti => known (.number zero)
  | _ => unknown

def maxOfUnion : Rule Q := fun _ p _ =>
  match p with
  | .setOp _ _ inputs _ =>
    report (fun counts => .number (sum counts)) (forInputs maxRowCount inputs.length)
  | _ => unknown

def maxOfIntersect : Rule Q := fun _ p _ =>
  match p with
  | .setOp _ _ inputs _ =>
    report (fun counts => .number (counts.foldl least infinity))
      (forInputs maxRowCount inputs.length)
  | _ => unknown

def minOfUnion : Rule Q := fun _ p _ =>
  match p with
  | .setOp _ _ inputs all =>
    report (fun counts =>
      if all then .number (sum counts)
      else .number (if counts.any (le one) then one else zero))
      (forInputs minRowCount inputs.length)
  | _ => unknown

def maxOfSort : Rule Q := fun _ p _ =>
  match p with
  | .sort _ _ _ offset fetch => do
    let rows := (← maxRowCount (.input 0)).getD infinity
    known (.number (limit rows offset fetch))
  | _ => unknown

def minOfSort : Rule Q := fun _ p _ =>
  match p with
  | .sort _ _ _ offset fetch =>
    report (fun rows => .number (limit rows offset fetch)) (minRowCount (.input 0))
  | _ => unknown

end RowBound
end Relational.Metadata
