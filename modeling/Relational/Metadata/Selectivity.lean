import Relational.Expr.Typing
import Relational.Metadata.Rule

/-!
# Selectivity

The share of a node's rows that satisfy a predicate: asked of the input where it can be pushed
down, guessed from its form elsewhere.
-/
namespace Relational.Metadata

open Inquiry Quantity
variable {Q : Type} [Quantity Q]

def guessConjunct : Expr → Q
  | .literal (.boolean true) _ => one
  | .literal (.boolean false) _ | .literal .null _ => zero
  | .call .isNotNull _ _ => ratio 9 10
  | .call (.compare .eq) _ _ => ratio 3 20
  | .call op _ _ => if op.isComparison then ratio 1 2 else ratio 1 4
  | _ => ratio 1 4

/-- The guesses of the conjuncts multiplied, as if they were independent. -/
def guess : Option Expr → Q
  | none => one
  | some p => unit (p.conjuncts.foldl (fun share c => share * guessConjunct c) one)

namespace Selectivity

def guessed : Rule Q := fun _ _ args => known (.number (guess args.predicate?))

def passedOn : Rule Q := fun _ p args =>
  fromInput .number p fun s => selectivity s args.predicate?

/-- A conjunct that the filter enforces holds for every row it lets through. -/
def ofFilter : Rule Q := fun _ p args =>
  match p, args.predicate? with
  | .filter .., none => known (.number one)
  | .filter _ _ own, some requested => do
    let remaining := requested.conjuncts.filter fun c => !own.conjuncts.contains c
    if remaining.isEmpty then known (.number one)
    else
      let rest ← ofExcept (Expr.conjunction remaining)
      report .number (selectivity (.input 0) (some rest))
  | _, _ => unknown

def ofProject : Rule Q := fun _ p args =>
  match p, args.predicate? with
  | .project .., none => known (.number one)
  | .project _ _ columns, some requested =>
    match throughProjection columns requested with
    | some pushed => report .number (selectivity (.input 0) (some pushed))
    | none => known (.number (guess (some requested)))
  | _, _ => unknown

def throughGrouping (groups : ColumnSet) (e : Expr) : Option Expr :=
  let replaced : Except Unit Expr := e.substitute fun i t =>
    match groups.columns[i]? with
    | some c => .ok (.column c t)
    | none => .error ()
  replaced.toOption

def ofAggregate : Rule Q := fun _ p args =>
  match p, args.predicate? with
  | .aggregate .., none => known (.number one)
  | .aggregate _ _ sets _ _, some requested => do
    let groups := Plan.groupColumns sets
    let pushable := requested.conjuncts.filterMap (throughGrouping groups)
    let residual := requested.conjuncts.filter fun c => (throughGrouping groups c).isNone
    let pushed ←
      if pushable.isEmpty then known one
      else selectivity (.input 0) (some (← ofExcept (Expr.conjunction pushable)))
    match pushed with
    | none => unknown
    | some share =>
      let rest ←
        if residual.isEmpty then pure one
        else pure (guess (some (← ofExcept (Expr.conjunction residual))))
      known (.number (share * rest))
  | _, _ => unknown

def ofUnion : Rule Q := fun _ p args => do
  let question (s : Subject) : Inquiry Q (Option (Q × Q)) := do
    let rows ← tupleCount s
    let share ← selectivity s args.predicate?
    match rows, share with
    | some rows, some share => known (rows, share)
    | _, _ => unknown
  let some inputs ← forInputs question p.children.length | unknown
  let total := inputs.foldl (fun total i => total + i.1) zero
  let selected := inputs.foldl (fun total i => total + i.1 * i.2) zero
  if isZero total then known (.number (guess args.predicate?))
  else known (.number (selected / total))

end Selectivity
end Relational.Metadata
