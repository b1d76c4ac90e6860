import Relational.Metadata.RowBound
import Relational.Metadata.Selectivity

/-!
# Estimated numbers of rows

How many rows a node emits, and which share of the rows of its sources that is.
-/
namespace Relational.Metadata

open Inquiry Quantity
variable {Q : Type} [Quantity Q]

namespace RowEstimate

def passedOn : Rule Q := fun setting p _ =>
  if p.children.isEmpty then known (.number setting.scanRows)
  else report .number (tupleCount (.input 0))

def ofScan : Rule Q := fun setting p _ =>
  let rows := (setting.statistics? p).bind (·.rowCount)
  known (.number (rows.getD setting.scanRows))

def ofFilter : Rule Q := fun _ p _ =>
  match p with
  | .filter _ _ predicate => do
    let some rows ← tupleCount (.input 0) | unknown
    let share := (← selectivity (.input 0) (some predicate)).getD (guess (some predicate))
    known (.number (rows * share))
  | _ => unknown

def countGroups (total : Q) : List ColumnSet → Inquiry Q (Option Q)
  | [] => known total
  | set :: rest =>
    if set.isEmpty then countGroups (total + one) rest
    else do
      match ← distinctRowCount (.input 0) set none with
      | some groups => countGroups (total + groups) rest
      | none =>
        match ← tupleCount (.input 0) with
        | some rows => countGroups (total + rows / ofNat 10) rest
        | none => unknown

def ofAggregate : Rule Q := fun _ p _ =>
  match p with
  | .aggregate _ _ sets _ _ => report .number (countGroups zero sets)
  | _ => unknown

def joinRows (type : JoinType) (l r share : Q) : Q :=
  let inner := l * r * share
  match type with
  | .inner => inner
  | .left => greatest inner l
  | .right => greatest inner r
  | .full => greatest inner (greatest l r)
  | .semi => l * share
  | .anti => l * (one - share)

def ofJoin : Rule Q := fun _ p _ =>
  match p with
  | .join _ _ _ condition type => do
    let l ← tupleCount (.input 0)
    let r ← tupleCount (.input 1)
    match l, r with
    | some l, some r => known (.number (joinRows type l r (guess (some condition))))
    | _, _ => unknown
  | _ => unknown

/-- Half of the rows are taken to be repeated where repetitions are dropped. -/
def ofUnion : Rule Q := fun _ p _ =>
  match p with
  | .setOp _ _ inputs all =>
    report (fun counts => .number (if all then sum counts else sum counts * ratio 1 2))
      (forInputs tupleCount inputs.length)
  | _ => unknown

def ofIntersect : Rule Q := fun _ p _ =>
  match p with
  | .setOp _ _ inputs _ =>
    report (fun counts => .number (counts.foldl least infinity * ratio 1 4))
      (forInputs tupleCount inputs.length)
  | _ => unknown

def ofMinus : Rule Q := fun _ p _ =>
  match p with
  | .setOp _ _ inputs _ =>
    report (fun counts =>
      let rest := (counts.drop 1).foldl (fun rows other => rows - ratio 1 2 * other)
        (counts.headD zero)
      .number (atLeastZero rest))
      (forInputs tupleCount inputs.length)
  | _ => unknown

def ofSort : Rule Q := fun _ p _ =>
  match p with
  | .sort _ _ _ offset fetch =>
    report (fun rows => .number (limit rows offset fetch)) (tupleCount (.input 0))
  | _ => unknown

end RowEstimate

namespace OriginalShare

def originals (inputs : List (Q × Q)) : Q :=
  inputs.foldl (fun total (rows, share) =>
    total + if isPositive share then rows / share else zero) zero

def rowsAndShare (s : Subject) : Inquiry Q (Option (Q × Q)) := do
  let rows ← tupleCount s
  let share ← percentageOriginalRows s
  match rows, share with
  | some rows, some share => known (rows, share)
  | _, _ => unknown

def ofRows : Rule Q := fun _ p _ =>
  if p.children.isEmpty then known (.number one)
  else do
    let some rows ← tupleCount .self | unknown
    let some inputs ← forInputs rowsAndShare p.children.length | unknown
    known (.number (share rows (originals inputs)))

def passedOn : Rule Q := fun _ p _ => fromInput .number p percentageOriginalRows

def ofUnion : Rule Q := fun _ p _ => do
  let some inputs ← forInputs rowsAndShare p.children.length | unknown
  let rows := inputs.foldl (fun total i => total + i.1) zero
  known (.number (share rows (originals inputs)))

def ofJoin : Rule Q := fun _ p _ =>
  match p with
  | .join .. => do
    let l ← percentageOriginalRows (.input 0)
    let r ← percentageOriginalRows (.input 1)
    match l, r with
    | some l, some r => known (.number (l * r))
    | _, _ => unknown
  | _ => unknown

end OriginalShare
end Relational.Metadata
