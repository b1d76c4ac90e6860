import Relational.Metadata.Selectivity

/-!
# Distinct rows

How many groups a key makes among the rows that satisfy a predicate, and among all rows that
could be (the population).
-/
namespace Relational.Metadata

open Inquiry Quantity
variable {Q : Type} [Quantity Q]

/-- The expected number of distinct values among `selected` draws from `domain` values. -/
def expectedDistinct (domain selected : Q) : Q :=
  if le domain zero || le selected zero then zero
  else if isInfinite domain then selected
  else
    let drawn := (one - decay (selected / domain)) * domain
    greatest (least drawn selected) (least selected one)

namespace Distinct

/-- Asks of the node itself; ten rows are taken to share a key that is not unique. -/
def estimate (key : ColumnSet) (predicate : Option Expr) : Inquiry Q (Option Q) := do
  let share : Q := guess predicate
  if key.isEmpty then known (if isPositive share then one else zero)
  else
    let some rows ← tupleCount .self | unknown
    if (← columnsUnique .self key false) = some true then known (rows * share)
    else
      let domain := rows / ofNat 10
      known (expectedDistinct domain (domain * share))

def estimated : Rule Q := fun _ _ args =>
  match args with
  | .groupKey key predicate => report .number (estimate key predicate)
  | _ => unknown

def keyDomain? (statistics : TableStatistics Q) (key : ColumnSet) : Option Q :=
  key.columns.foldlM (fun domain c => (statistics.distinctCounts.lookup c).map (domain * ·)) one

def ofScan : Rule Q := fun setting p args =>
  match args with
  | .groupKey key predicate => do
    if key.isEmpty then report .number (estimate key predicate)
    else
      let some rows ← tupleCount .self | unknown
      if (← columnsUnique .self key false) = some true then
        known (.number (rows * guess predicate))
      else
        match (setting.statistics? p).bind (keyDomain? · key) with
        | some domain =>
          known (.number (expectedDistinct (least domain rows) (rows * guess predicate)))
        | none => report .number (estimate key predicate)
  | _ => unknown

def project? (columns : ColumnSet) (row : Row) : Option (List Value) :=
  columns.columns.mapM (row[·]?)

def ofValues : Rule Q := fun _ p args =>
  match p, args with
  | .values _ rows .., .groupKey key predicate =>
    match rows.mapM (project? key) with
    | some keys => known (.number (ofNat keys.eraseDups.length * guess predicate))
    | none => unknown
  | _, _ => unknown

def ofFilter : Rule Q := fun _ p args =>
  match p, args with
  | .filter _ _ own, .groupKey key predicate => do
    let both ← ofExcept (Expr.conjunction (own :: predicate.toList))
    report .number (distinctRowCount (.input 0) key (some both))
  | _, _ => unknown

def passedOn : Rule Q := fun _ p args =>
  match args with
  | .groupKey key predicate => fromInput .number p fun s => distinctRowCount s key predicate
  | _ => unknown

def columnsBehind? (columns : List Projection) (key : ColumnSet) : Option ColumnSet :=
  (key.columns.mapM fun c => columns[c]?.map (·.expr.columnsRead.columns)).map
    (ColumnSet.ofList ·.flatten)

def capped (estimate : Inquiry Q (Option Q)) : Inquiry Q (Option Q) := do
  let some n ← estimate | unknown
  known (least n ((← tupleCount .self).getD infinity))

def ofProject : Rule Q := fun _ p args =>
  match p, args with
  | .project _ _ columns, .groupKey key predicate =>
    match columnsBehind? columns key with
    | none => unknown
    | some inputKey =>
      let pushed := predicate.bind (throughProjection columns)
      report .number (capped (distinctRowCount (.input 0) inputKey pushed))
  | _, _ => unknown

def groupedColumns? (sets : List ColumnSet) (key : ColumnSet) : Option ColumnSet :=
  key.renumber? ((Plan.groupColumns sets).columns[·]?)

def ofAggregate : Rule Q := fun _ p args =>
  match p, args with
  | .aggregate _ _ sets _ _, .groupKey key predicate =>
    match groupedColumns? sets key with
    | none => unknown
    | some inputKey =>
      report (fun n => .number (n * guess predicate)) (distinctRowCount (.input 0) inputKey none)
  | _, _ => unknown

def ofJoin : Rule Q := fun _ p args =>
  match p, args with
  | .join _ left _ _ type, .groupKey key predicate => do
    let (leftKey, rightKey) := splitColumns key left.width
    let some l ← distinctRowCount (.input 0) leftKey none | unknown
    let some r ← if type.keepsRight then distinctRowCount (.input 1) rightKey none
      else known one | unknown
    let some n ← capped (known (l * r)) | unknown
    known (.number (expectedDistinct n (n * guess predicate)))
  | _, _ => unknown

def ofUnion : Rule Q := fun _ p args =>
  match p, args with
  | .setOp _ _ inputs _, .groupKey key predicate =>
    report (fun counts => .number (sum counts))
      (forInputs (fun s => distinctRowCount s key predicate) inputs.length)
  | _, _ => unknown

end Distinct

namespace Population

def ofUniqueKey : Rule Q := fun _ _ args =>
  match args with
  | .groupKey key _ => do
    if (← columnsUnique .self key false) = some true then report .number (tupleCount .self)
    else unknown
  | _ => unknown

def ofLeaf : Rule Q := fun _ _ args =>
  match args with
  | .groupKey key _ => report .number (distinctRowCount .self key none)
  | _ => unknown

def passedOn : Rule Q := fun _ p args =>
  match args with
  | .groupKey key _ => fromInput .number p fun s => populationSize s key
  | _ => unknown

def ofProject : Rule Q := fun _ p args =>
  match p, args with
  | .project _ _ columns, .groupKey key _ =>
    match Distinct.columnsBehind? columns key with
    | some inputKey => report .number (populationSize (.input 0) inputKey)
    | none => unknown
  | _, _ => unknown

def ofAggregate : Rule Q := fun _ p args =>
  match p, args with
  | .aggregate _ _ sets _ _, .groupKey key _ =>
    match Distinct.groupedColumns? sets key with
    | some inputKey => report .number (populationSize (.input 0) inputKey)
    | none => unknown
  | _, _ => unknown

def ofJoin : Rule Q := fun _ p args =>
  match p, args with
  | .join _ left _ _ type, .groupKey key _ => do
    let (leftKey, rightKey) := splitColumns key left.width
    let some l ← populationSize (.input 0) leftKey | unknown
    if type.keepsRight then
      report (fun r => .number (l * r)) (populationSize (.input 1) rightKey)
    else known (.number l)
  | _, _ => unknown

def ofUnion : Rule Q := fun _ p args =>
  match p, args with
  | .setOp _ _ inputs _, .groupKey key _ =>
    report (fun counts => .number (sum counts))
      (forInputs (fun s => populationSize s key) inputs.length)
  | _, _ => unknown

end Population
end Relational.Metadata
