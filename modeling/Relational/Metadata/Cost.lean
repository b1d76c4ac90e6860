import Relational.Metadata.Rule

/-!
# Sizes, costs and memory

Average sizes of columns and rows in bytes, costs of a node alone and with its inputs, and the
memory that a node holds, also summed up to the next point where rows cross into another phase.
-/
namespace Relational.Metadata

open Inquiry Quantity
variable {Q : Type} [Quantity Q]

def typeSize? : DataType → Option Q
  | .boolean => some one
  | .int32 | .float32 => some (ofNat 4)
  | .int64 | .float64 => some (ofNat 8)
  | .utf8 => some (ofNat 20)
  | _ => none

def valueSize : Value → Q
  | .null => zero
  | .utf8 s => ofNat s.utf8ByteSize
  | v => (typeSize? v.dataType).getD zero

def schemaSizes (schema : Schema) : List (Option Q) :=
  schema.map fun f => typeSize? f.type.dataType

namespace Size

def bySchema : Rule Q := fun _ p _ => known (.sizes (schemaSizes p.schema))

def ofScan : Rule Q := fun setting p _ =>
  let known? := (setting.statistics? p).elim [] (·.averageSizes)
  known (.sizes (p.schema.zipIdx.map fun (f, i) =>
    (known?.lookup i).or (typeSize? f.type.dataType)))

def ofValues : Rule Q := fun _ p _ =>
  match p with
  | .values _ [] shape _ => known (.sizes (schemaSizes shape))
  | .values _ rows shape _ =>
    let size (c : Nat) (row : Row) : Q := row[c]?.elim zero valueSize
    known (.sizes ((List.range shape.length).map fun c =>
      some (sum (rows.map (size c)) / ofNat rows.length)))
  | _ => unknown

def passedOn : Rule Q := fun _ p _ => fromInput .sizes p averageColumnSizes

def ofExpr (inputSizes : List (Option Q)) : Expr → Option Q
  | .column i _ => inputSizes[i]?.bind id
  | .literal v _ => some (valueSize v)
  | e => typeSize? e.dataType

def ofProject : Rule Q := fun _ p _ =>
  match p with
  | .project _ _ columns => do
    let inputSizes := (← averageColumnSizes (.input 0)).getD []
    known (.sizes (columns.map fun c => ofExpr inputSizes c.expr))
  | _ => unknown

def ofAggregate : Rule Q := fun _ p _ =>
  match p with
  | .aggregate _ _ sets calls indicator => do
    let inputSizes := (← averageColumnSizes (.input 0)).getD []
    let groups := (Plan.groupColumns sets).columns
    known (.sizes (groups.map (fun g => inputSizes[g]?.bind id)
      ++ (if indicator then groups.map fun _ => some one else [])
      ++ calls.map fun c => typeSize? c.type.dataType))
  | _ => unknown

def ofJoin : Rule Q := fun _ p _ =>
  match p with
  | .join _ left right _ type => do
    let l := (← averageColumnSizes (.input 0)).getD (schemaSizes left.schema)
    if type.keepsRight then
      let r := (← averageColumnSizes (.input 1)).getD (schemaSizes right.schema)
      known (.sizes (l ++ r))
    else known (.sizes l)
  | _ => unknown

def mean (fallback : Option Q) (sizes : List (Option Q)) : Option Q :=
  match sizes.filterMap id with
  | [] => fallback
  | known => some (known.foldl (· + ·) zero / ofNat known.length)

def ofSetOp : Rule Q := fun _ p _ => do
  let question (s : Subject) : Inquiry Q (Option (List (Option Q))) := do
    return some ((← averageColumnSizes s).getD [])
  let inputs := (← forInputs question p.children.length).getD []
  known (.sizes ((schemaSizes p.schema).zipIdx.map fun (fallback, c) =>
    mean fallback (inputs.map fun sizes => sizes[c]?.bind id)))

def ofRow : Rule Q := fun _ p _ => do
  let fallback : List (Option Q) := schemaSizes p.schema
  let sizes := (← averageColumnSizes .self).getD fallback
  known (.number (sum (sizes.zipIdx.map fun (size, c) =>
    (size.or (fallback[c]?.bind id)).getD zero)))

end Size

namespace Cost

def add (a b : Cost Q) : Cost Q := ⟨a.rows + b.rows, a.cpu + b.cpu, a.io + b.io⟩

def isInfinite (c : Cost Q) : Bool :=
  Quantity.isInfinite c.rows || Quantity.isInfinite c.cpu || Quantity.isInfinite c.io

def text (c : Cost Binary64) : String :=
  "\x7b" ++ s!"{c.rows.text} rows, {c.cpu.text} cpu, {c.io.text} io" ++ "\x7d"

def width (p : Plan) : Q := ofNat p.width

def of (rows cpu : Q) : Fact Q := .cost ⟨rows, cpu, zero⟩

def byRows (cpu : Q → Q) : Inquiry Q (Option (Fact Q)) :=
  report (fun rows => of rows (cpu rows)) (tupleCount .self)

def rowsWithInputs (n : Nat) : Inquiry Q (Option (Q × List Q)) := do
  let rows ← tupleCount .self
  let inputs ← counts n 0
  match rows, inputs.mapM id with
  | some rows, some inputs => known (rows, inputs)
  | _, _ => unknown
where
  counts : Nat → Nat → Inquiry Q (List (Option Q))
    | 0, _ => pure []
    | n + 1, i => do return (← tupleCount (.input i)) :: (← counts n (i + 1))

def ofFields : Rule Q := fun _ p _ => byRows fun rows => rows * width p

def ofScan : Rule Q := fun _ _ _ => byRows fun rows => rows + one

def ofValues : Rule Q := fun _ p _ =>
  match p with
  | .values _ rows .. => known (of (ofNat rows.length) one)
  | _ => unknown

def ofFilter : Rule Q := fun _ p _ =>
  match p with
  | .filter .. => report (fun (rows, inputs) => of rows (sum inputs)) (rowsWithInputs 1)
  | _ => unknown

def ofProject : Rule Q := fun _ p _ =>
  match p with
  | .project _ _ columns => byRows fun rows => rows * ofNat columns.length
  | _ => unknown

def callFactor (calls : List AggregateCall) : Q :=
  calls.foldl (fun factor c =>
    if c.function = .sum || c.function = .sum0 then factor + ratio 1 80 else factor)
    (one + ratio 1 8 * ofNat calls.length)

def ofAggregate : Rule Q := fun _ p _ =>
  match p with
  | .aggregate _ _ _ calls _ =>
    report (fun (rows, inputs) => of (rows * callFactor calls) (sum inputs * callFactor calls))
      (rowsWithInputs 1)
  | _ => unknown

def ofJoin : Rule Q := fun _ p _ =>
  match p with
  | .join .. => report (fun (rows, inputs) => of rows (sum inputs)) (rowsWithInputs 2)
  | _ => unknown

def ofSort : Rule Q := fun _ p _ =>
  match p with
  | .sort .. =>
    report (fun (rows, inputs) =>
      let n := greatest one (sum inputs)
      of rows (n * Quantity.log2 n * width p * ofNat 4))
      (rowsWithInputs 1)
  | _ => unknown

def ofExchange : Rule Q := fun _ p _ => byRows fun rows => rows * width p * ofNat 4

def cumulative : Rule Q := fun _ p _ => do
  let some own ← ownCost .self | unknown
  report (fun costs => .cost (costs.foldl add own))
    (forInputs cumulativeCost p.children.length)

end Cost

namespace Memory

def none : Rule Q := constantly (.number zero)

def held (s : Subject) : Inquiry Q (Option (Fact Q)) := do
  let rows ← tupleCount s
  let size ← averageRowSize s
  match rows, size with
  | some rows, some size => known (.number (rows * size))
  | _, _ => unknown

def ofSort : Rule Q := fun _ p _ =>
  match p with
  | .sort .. => held (.input 0)
  | _ => unknown

def ofAggregate : Rule Q := fun _ _ _ => held .self

/-- Inputs that belong to another phase count for nothing. -/
def addInputs (total : Q) : Nat → Nat → Inquiry Q (Option Q)
  | 0, _ => known total
  | n + 1, i => do
    if (← isPhaseTransition (.input i)) = some true then addInputs total n (i + 1)
    else
      match ← phaseMemory (.input i) with
      | some m => addInputs (total + m) n (i + 1)
      | _ => unknown

def withinPhase : Rule Q := fun _ p _ => do
  let some own ← memory .self | unknown
  report .number (addInputs own p.children.length 0)

def perSplit : Rule Q := fun _ _ _ => do
  let total ← phaseMemory .self
  let splits ← splitCount .self
  match total, splits with
  | some total, some n => known (.number (total / ofNat (max n 1)))
  | _, _ => unknown

end Memory
end Relational.Metadata
