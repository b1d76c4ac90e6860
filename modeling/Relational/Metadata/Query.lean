import Relational.Config
import Relational.Metadata.RuleTable
import Relational.Plan.Check

/-!
# Metadata queries

`Basis.consult` makes an inquiry at a node of a plan. Each question in it is answered by the rule
for its kind, which may ask further questions in turn; rules that ask in a circle give no answer. A
`Query` may remember the answers of one plan, by node and question; errors are not remembered.
-/
namespace Relational.Metadata
open Inquiry (resume)
variable {Q α : Type}

abbrev Memo (Q : Type) := List ((Nat × Question) × Option (Fact Q))

namespace Memo

def find? (memo : Memo Q) (id : Nat) (q : Question) : Option (Option (Fact Q)) :=
  memo.lookup (id, q)

def note (memo : Memo Q) (id : Nat) (q : Question) : Except Error (Option (Fact Q)) → Memo Q
  | .ok fact => ((id, q), fact) :: memo
  | .error _ => memo

def kept? (memo : Memo Q) (caching : Bool) (id : Nat) (q : Question) :
    Option (Option (Fact Q)) :=
  if caching then memo.find? id q else none

def keep (memo : Memo Q) (caching : Bool) (id : Nat) (q : Question)
    (outcome : Except Error (Option (Fact Q))) : Memo Q :=
  if caching then memo.note id q outcome else memo

end Memo

/-- What answers are derived from. -/
structure Basis (Q : Type) where
  root : Plan
  rules : RuleTable Q
  setting : Setting Q

namespace Basis

def node? (b : Basis Q) (node : Plan) : Subject → Option Plan
  | .self => some node
  | .input i => node.children[i]?
  | .node id => b.root.find? id

/-- What a question about a node takes: the inquiry of the rule for it. Without one the answer is
unknown. -/
def inquiry (b : Basis Q) (node : Plan) (question : Question) : Inquiry Q (Option (Fact Q)) :=
  match b.rules.lookup node.kind question.kind with
  | some rule => rule b.setting node question.args
  | none => .unknown

/-- Makes an inquiry at a node. What it asks for is taken from the memo if it is there; what is
asked about no node is unknown. -/
def consult {α : Type} (b : Basis Q) (caching : Bool) (node : Plan) (inquiry : Inquiry Q α)
    (memo : Memo Q) : Option (Except Error α × Memo Q) :=
  match inquiry with
  | .done a => some (.ok a, memo)
  | .fail e => some (.error e, memo)
  | .ask subject question next =>
    match b.node? node subject with
    | none => b |>.consult caching node (next (.ok none)) memo
    | some other =>
      match memo.kept? caching other.id question with
      | some fact => b |>.consult caching node (next (.ok fact)) memo
      | none => do
        let (outcome, memo) ← b |>.consult caching other (b.inquiry other question) memo
        b |>.consult caching node (resume next outcome) (memo.keep caching other.id question outcome)
partial_fixpoint

def answer (b : Basis Q) (caching : Bool) (node : Plan) (question : Question) (memo : Memo Q) :
    Option (Except Error (Option (Fact Q)) × Memo Q) :=
  match memo.kept? caching node.id question with
  | some fact => some (.ok fact, memo)
  | none => do
    let (outcome, memo) ← b.consult caching node (b.inquiry node question) memo
    return (outcome, memo.keep caching node.id question outcome)

theorem consult_ask (b : Basis Q) (caching : Bool) (node : Plan) (s : Subject) (q : Question)
    (next : Except Error (Option (Fact Q)) → Inquiry Q α) (memo : Memo Q) :
    b.consult caching node (.ask s q next) memo =
      match b.node? node s with
      | none => b.consult caching node (next (.ok none)) memo
      | some other => (b.answer caching other q memo).bind fun r =>
          b.consult caching node (resume next r.1) r.2 := by
  rw [consult]
  cases b.node? node s with
  | none => rfl
  | some other =>
    simp only [answer]
    cases memo.kept? caching other.id q with
    | some fact => rfl
    | none => cases b.consult caching other (b.inquiry other q) memo <;> rfl

end Basis

structure Query (Q : Type) extends Basis Q where
  caching : Bool
  memo : Memo Q := []

namespace Query

def ofPlan (root : Plan) (rules : RuleTable Q) (source : TableSource Q) (scanRows : Q)
    (splits : Nat) (caching : Bool) : Except Error (Query Q) := do
  root.checkIds
  let occurrences := root.occurrences
  return { root, rules, caching, setting := ⟨source, scanRows, splits, (occurrences.lookup ·)⟩ }

variable {root : Plan} {rules : RuleTable Q} {source : TableSource Q} {scanRows : Q}
  {splits : Nat} {caching : Bool} {q : Query Q}

theorem ofPlan_eq_ok (h : ofPlan root rules source scanRows splits caching = .ok q) :
    root.checkIds = .ok () ∧
      q = { root, rules, caching,
            setting := ⟨source, scanRows, splits, (root.occurrences.lookup ·)⟩ } := by
  cases hids : root.checkIds with
  | error e => simp [ofPlan, hids, bind, Except.bind] at h
  | ok u =>
    simp only [ofPlan, hids, bind, Except.bind, pure, Except.pure, Except.ok.injEq] at h
    exact ⟨rfl, h.symm⟩

def ofConfig (root : Plan) (rules : RuleTable Binary64) (source : TableSource Binary64)
    (c : Config) : Except Error (Query Binary64) :=
  ofPlan root rules source c.scanRows c.splits c.cachesMetadata

def inquire (q : Query Q) (node : Plan) (inquiry : Inquiry Q α) :
    Option (Except Error α × Query Q) := do
  let (outcome, memo) ← q.consult q.caching node inquiry q.memo
  return (outcome, { q with memo })

def serve (q : Query Q) : List (Plan × Inquiry Q α) →
    Option (List (Except Error α) × Query Q)
  | [] => some ([], q)
  | (node, inquiry) :: rest => do
    let (outcome, q) ← q.inquire node inquiry
    let (outcomes, q) ← q.serve rest
    return (outcome :: outcomes, q)

def foreign (q : Query Q) (node : Plan) : Error :=
  .metadata (.foreignNode node.id node.kind q.root.id)

end Query
end Relational.Metadata
