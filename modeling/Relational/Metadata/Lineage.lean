import Relational.Integer
import Relational.Metadata.Rule

/-!
# Lineage

From which columns of scanned tables a column comes, how an expression reads in terms of those
columns, and which tables a node reads.
-/
namespace Relational.Metadata

open Inquiry
variable {Q : Type}

namespace Origins

def ofScan : Rule Q := fun setting p args =>
  match args with
  | .column c =>
    if p.width ≤ c then unknown
    else
      match setting.occurrence? p.id with
      | some table => known (.origins [⟨table, c, false⟩])
      | none => unknown
  | _ => unknown

def nowhere : Rule Q := constantly (.origins [])

def passedOn : Rule Q := fun _ p args =>
  match args with
  | .column c => fromInput .origins p fun s => columnOrigins s c
  | _ => unknown

def derivedFrom (columns : List Nat) (found : List ColumnOrigin := []) :
    Inquiry Q (Option (List ColumnOrigin)) :=
  match columns with
  | [] => known found
  | c :: rest => do
    let some origins ← columnOrigins (.input 0) c | unknown
    derivedFrom rest (mergeOrigins found (origins.map ({ · with derived := true })))

def ofProject : Rule Q := fun _ p args =>
  match p, args with
  | .project _ _ columns, .column c =>
    match columns[c]? with
    | none => unknown
    | some projected =>
      match projected.expr.column? with
      | some i => report .origins (columnOrigins (.input 0) i)
      | none => report .origins (derivedFrom projected.expr.columnsRead.columns)
  | _, _ => unknown

/-- A grouping column is copied, an indicator comes from nowhere, a result from its arguments. -/
def ofAggregate : Rule Q := fun _ p args =>
  match p, args with
  | .aggregate _ _ sets calls indicator, .column c =>
    let groups := Plan.groupColumns sets
    match groups.columns[c]? with
    | some g => report .origins (columnOrigins (.input 0) g)
    | none =>
      let marked := if indicator then 2 * groups.size else groups.size
      if c < marked then known (.origins [])
      else
        match calls[c - marked]? with
        | some call => report .origins (derivedFrom call.args)
        | none => unknown
  | _, _ => unknown

def ofJoin : Rule Q := fun _ p args =>
  match p, args with
  | .join _ left _ _ _, .column c =>
    if c < left.width then report .origins (columnOrigins (.input 0) c)
    else report .origins (columnOrigins (.input 1) (c - left.width))
  | _, _ => unknown

def ofSetOp : Rule Q := fun _ p args =>
  match args with
  | .column c =>
    report (fun origins => .origins (origins.foldl mergeOrigins []))
      (forInputs (fun s => columnOrigins s c) p.children.length)
  | _ => unknown

end Origins

namespace Lineage

def mostExpressions : Nat := 256

def replace (e : Expr) (f : Nat → SqlType → Option Expr) : Option Expr :=
  let replaced : Except Unit Expr := e.substitute fun i t =>
    match f i t with
    | some r => .ok r
    | none => .error ()
  replaced.toOption

def ofScan : Rule Q := fun setting p args =>
  match args, setting.occurrence? p.id with
  | .expr e, some table =>
    let width := p.width
    match replace e fun c t => if c < width then some (.tableColumn table c t) else none with
    | some traced => known (.exprs [traced])
    | none => unknown
  | _, _ => unknown

def passedOn : Rule Q := fun _ p args =>
  match args with
  | .expr e => fromInput .exprs p fun s => expressionLineage s e
  | _ => unknown

def ofProject : Rule Q := fun _ p args =>
  match p, args with
  | .project _ _ columns, .expr e =>
    match throughProjection columns e with
    | some pushed => report .exprs (expressionLineage (.input 0) pushed)
    | none => unknown
  | _, _ => unknown

def ofAggregate : Rule Q := fun _ p args =>
  match p, args with
  | .aggregate _ _ sets _ _, .expr e =>
    let groups := (Plan.groupColumns sets).columns
    match replace e fun i t => groups[i]?.map fun c => .column c t with
    | some pushed => report .exprs (expressionLineage (.input 0) pushed)
    | none => unknown
  | _, _ => unknown

/-- The columns that an expression reads, in increasing order, each typed as where it is read
last. -/
def typedColumns (e : Expr) : List (Nat × SqlType) :=
  e.columnsRead.columns.filterMap fun c => e.readings.reverse.find? (·.1 == c)

/-- The `n`-th way of choosing one option per column; the first column varies fastest. -/
def choice {α : Type} (n : Nat) : List (Nat × List α) → List (Nat × α)
  | [] => []
  | (c, options) :: rest =>
    (options[n % options.length]?.map (c, ·)).toList ++ choice (n / options.length) rest

def perColumn (leftWidth : Nat) : List (Nat × SqlType) →
    Inquiry Q (Option (List (Nat × List Expr)))
  | [] => known []
  | (c, t) :: rest => do
    let (side, own) : Subject × Nat :=
      if c < leftWidth then (.input 0, c) else (.input 1, c - leftWidth)
    let some (first :: more) ← expressionLineage side (.column own t) | unknown
    let some others ← perColumn leftWidth rest | unknown
    known ((c, first :: more) :: others)

/-- The number of choices, multiplied up in machine words. -/
def choiceCount {α : Type} (columns : List (Nat × List α)) : Except Error Nat :=
  columns.foldlM (fun n c => wordSized (n * c.2.length)) 1

theorem choiceCount_error {α : Type} {columns : List (Nat × List α)} {e : Error}
    (h : choiceCount columns = .error e) : e = .overflow := by
  unfold choiceCount at h
  generalize 1 = n at h
  induction columns generalizing n with
  | nil => cases h
  | cons c rest ih =>
    rw [List.foldlM_cons, wordSized] at h
    split at h
    · exact ih _ h
    · cases h
      rfl

def ofJoin : Rule Q := fun _ p args =>
  match p, args with
  | .join _ left _ _ _, .expr e => do
    let some columns ← perColumn left.width (typedColumns e) | unknown
    let count ← ofExcept (choiceCount columns)
    if mostExpressions < count then unknown
    else
      known (.exprs ((List.range count).filterMap fun n =>
        replace e fun i _ => (choice n columns).lookup i))
  | _, _ => unknown

def ofUnion : Rule Q := fun _ p args =>
  match args with
  | .expr e => do
    let some lists ← forInputs (fun s => expressionLineage s e) p.children.length | unknown
    let all := lists.flatten.eraseDups
    if mostExpressions < all.length then unknown else known (.exprs all)
  | _ => unknown

end Lineage

namespace TableReferences

def ofScan : Rule Q := fun setting p _ =>
  match setting.occurrence? p.id with
  | some table => known (.tables [table])
  | none => unknown

def ofInputs : Rule Q := fun _ p _ =>
  report (fun tables => .tables (tables.foldl (mergeOrdered TableOccurrence.order) []))
    (forInputs tableReferences p.children.length)

end TableReferences
end Relational.Metadata
