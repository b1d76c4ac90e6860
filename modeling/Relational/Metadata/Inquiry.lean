import Relational.Metadata.Fact
import Relational.Metadata.Quantity
import Relational.Metadata.Question

/-!
# Inquiries

A computation that asks questions about a node, its inputs or other nodes of the plan, and what
to do with each outcome, which is an answer or an error. An answer may be unknown. Estimates are
kept within their range by the functions that ask for them.
-/
namespace Relational.Metadata

inductive Subject
  | self
  | input (index : Nat)
  | node (id : Nat)
  deriving DecidableEq

inductive Inquiry (Q α : Type)
  | done (result : α)
  | fail (error : Error)
  | ask (subject : Subject) (question : Question)
      (next : Except Error (Option (Fact Q)) → Inquiry Q α)

namespace Inquiry
variable {Q α β : Type}

def bind : Inquiry Q α → (α → Inquiry Q β) → Inquiry Q β
  | done a, f => f a
  | fail e, _ => fail e
  | ask s q next, f => ask s q fun a => (next a).bind f

instance : Monad (Inquiry Q) where
  pure := done
  bind := bind

/-- Every question that may be asked, whatever the outcomes, satisfies `P`. -/
def Asks (P : Subject → Question → Prop) : Inquiry Q α → Prop
  | done _ | fail _ => True
  | ask s q next => P s q ∧ ∀ a, (next a).Asks P

def ofExcept : Except Error α → Inquiry Q α
  | .ok a => done a
  | .error e => fail e

/-- How an inquiry goes on after an outcome: not at all after an overflow. -/
def resume (next : Except Error (Option (Fact Q)) → Inquiry Q α) :
    Except Error (Option (Fact Q)) → Inquiry Q α
  | .error .overflow => fail .overflow
  | outcome => next outcome

section
variable (next : Except Error (Option (Fact Q)) → Inquiry Q α)
  {outcome : Except Error (Option (Fact Q))}

@[simp] theorem resume_ok (fact : Option (Fact Q)) : resume next (.ok fact) = next (.ok fact) := rfl

@[simp] theorem resume_overflow : resume next (.error .overflow) = fail .overflow := rfl

theorem resume_of_ne (h : outcome ≠ .error .overflow) : resume next outcome = next outcome := by
  match outcome with
  | .ok _ => rfl
  | .error e => cases e <;> first | rfl | exact absurd rfl h

theorem resume_bind (f : α → Inquiry Q β) :
    (resume next outcome).bind f = resume (fun found => (next found).bind f) outcome := by
  by_cases h : outcome = .error .overflow
  · rw [h]
    rfl
  · rw [resume_of_ne _ h, resume_of_ne _ h]

end

def request (s : Subject) (q : Question) : Inquiry Q (Option (Fact Q)) := ask s q ofExcept

def unknown : Inquiry Q (Option α) := done none

def known (a : α) : Inquiry Q (Option α) := done (some a)

end Inquiry

open Inquiry Quantity
variable {Q : Type} [Quantity Q]

section
omit [Quantity Q]

def askFor {α : Type} (read : Fact Q → Option α) (s : Subject) (kind : Kind)
    (args : Args := .none) : Inquiry Q (Option α) :=
  return (← request s ⟨kind, args⟩).bind read

def uniqueKeys (s : Subject) (ignoreNulls : Bool) : Inquiry Q (Option (List ColumnSet)) :=
  askFor Fact.keys? s .uniqueKeys (.ignoreNulls ignoreNulls)

def columnsUnique (s : Subject) (columns : ColumnSet) (ignoreNulls : Bool) :
    Inquiry Q (Option Bool) :=
  askFor Fact.flag? s .columnUniqueness (.columns columns ignoreNulls)

def collations (s : Subject) : Inquiry Q (Option (List Collation)) :=
  askFor Fact.collations? s .collation

def distribution (s : Subject) : Inquiry Q (Option Distribution) :=
  askFor Fact.distribution? s .distribution

def nodeTypes (s : Subject) : Inquiry Q (Option (List (Plan.Kind × Nat))) :=
  askFor Fact.nodeTypes? s .nodeTypes

def averageRowSize (s : Subject) : Inquiry Q (Option Q) := askFor Fact.number? s .averageRowSize

def averageColumnSizes (s : Subject) : Inquiry Q (Option (List (Option Q))) :=
  askFor Fact.sizes? s .averageColumnSizes

def columnOrigins (s : Subject) (column : Nat) : Inquiry Q (Option (List ColumnOrigin)) :=
  askFor Fact.origins? s .columnOrigin (.column column)

def columnOrigin (s : Subject) (column : Nat) : Inquiry Q (Option ColumnOrigin) := do
  match ← columnOrigins s column with
  | some [o] => known o
  | _ => unknown

def expressionLineage (s : Subject) (e : Expr) : Inquiry Q (Option (List Expr)) :=
  askFor Fact.exprs? s .expressionLineage (.expr e)

def tableReferences (s : Subject) : Inquiry Q (Option (List TableOccurrence)) :=
  askFor Fact.tables? s .tableReferences

def cumulativeCost (s : Subject) : Inquiry Q (Option (Cost Q)) :=
  askFor Fact.cost? s .cumulativeCost

def ownCost (s : Subject) : Inquiry Q (Option (Cost Q)) := askFor Fact.cost? s .ownCost

def isPhaseTransition (s : Subject) : Inquiry Q (Option Bool) :=
  askFor Fact.flag? s .isPhaseTransition

def splitCount (s : Subject) : Inquiry Q (Option Nat) := askFor Fact.count? s .splitCount

def memory (s : Subject) : Inquiry Q (Option Q) := askFor Fact.number? s .memory

def phaseMemory (s : Subject) : Inquiry Q (Option Q) := askFor Fact.number? s .phaseMemory

def phaseMemoryPerSplit (s : Subject) : Inquiry Q (Option Q) :=
  askFor Fact.number? s .phaseMemoryPerSplit

end

def askAmount (s : Subject) (kind : Kind) (args : Args := .none) : Inquiry Q (Option Q) := do
  return (← askFor Fact.number? s kind args).map atLeastZero

def selectivity (s : Subject) (predicate : Option Expr) : Inquiry Q (Option Q) := do
  return (← askFor Fact.number? s .selectivity (.predicate predicate)).map unit

def maxRowCount (s : Subject) : Inquiry Q (Option Q) := askAmount s .maxRowCount

def minRowCount (s : Subject) : Inquiry Q (Option Q) := askAmount s .minRowCount

def tupleCount (s : Subject) : Inquiry Q (Option Q) := do
  let some rows ← askAmount s .tupleCount | unknown
  let rows := (← maxRowCount s).elim rows (least rows)
  let rows := (← minRowCount s).elim rows (greatest rows)
  known rows

def distinctRowCount (s : Subject) (key : ColumnSet) (predicate : Option Expr) :
    Inquiry Q (Option Q) :=
  askAmount s .distinctRowCount (.groupKey key predicate)

def percentageOriginalRows (s : Subject) : Inquiry Q (Option Q) := do
  return (← askFor Fact.number? s .percentageOriginalRows).map unit

def populationSize (s : Subject) (key : ColumnSet) : Inquiry Q (Option Q) :=
  askAmount s .populationSize (.groupKey key .none)

def report {α : Type} (wrap : α → Fact Q) (answer : Inquiry Q (Option α)) :
    Inquiry Q (Option (Fact Q)) := do
  return (← answer).map wrap

def answerTo (s : Subject) (q : Question) : Inquiry Q (Option (Fact Q)) :=
  match q.kind with
  | .selectivity | .percentageOriginalRows =>
    report (.number ∘ unit) (askFor Fact.number? s q.kind q.args)
  | .tupleCount => report .number (tupleCount s)
  | .maxRowCount | .minRowCount | .distinctRowCount | .populationSize =>
    report .number (askAmount s q.kind q.args)
  | .averageRowSize | .memory | .phaseMemory | .phaseMemoryPerSplit =>
    report .number (askFor Fact.number? s q.kind q.args)
  | .columnUniqueness | .isPhaseTransition => report .flag (askFor Fact.flag? s q.kind q.args)
  | .splitCount => report .count (askFor Fact.count? s q.kind q.args)
  | .uniqueKeys => report .keys (askFor Fact.keys? s q.kind q.args)
  | .collation => report .collations (askFor Fact.collations? s q.kind q.args)
  | .distribution => report .distribution (askFor Fact.distribution? s q.kind q.args)
  | .nodeTypes => report .nodeTypes (askFor Fact.nodeTypes? s q.kind q.args)
  | .averageColumnSizes => report .sizes (askFor Fact.sizes? s q.kind q.args)
  | .columnOrigin => report .origins (askFor Fact.origins? s q.kind q.args)
  | .expressionLineage => report .exprs (askFor Fact.exprs? s q.kind q.args)
  | .tableReferences => report .tables (askFor Fact.tables? s q.kind q.args)
  | .cumulativeCost | .ownCost => report .cost (askFor Fact.cost? s q.kind q.args)

/-- The answers for the first `count` inputs, if all are known; asks no further than that. -/
def forInputs {α : Type} (question : Subject → Inquiry Q (Option α)) (count : Nat)
    (first : Nat := 0) : Inquiry Q (Option (List α)) :=
  match count with
  | 0 => known []
  | n + 1 => do
    let some a ← question (.input first) | unknown
    let some rest ← forInputs question n (first + 1) | unknown
    known (a :: rest)

end Relational.Metadata
