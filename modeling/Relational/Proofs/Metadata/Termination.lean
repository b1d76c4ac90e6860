import Relational.Metadata.Total
import Relational.Proofs.Plan.Nodes

/-!
# Questions descend

What is asked in answering a question about a node is asked about a node inside it, or about the
node itself and of a kind of smaller rank. The predicates and keys that questions carry have no part
in this order, so it does not matter that they grow on the way down.
-/
namespace Relational.Metadata
variable {Q α β : Type}

/-- The first pair is about a node below that of the second, or about the same node and of a kind of
smaller rank. -/
inductive Precedes : Plan × Kind → Plan × Kind → Prop
  | below {node child other : Plan} {kind kind' : Kind} (hchild : child ∈ node.children)
      (hother : other ∈ child.nodes) : Precedes (other, kind) (node, kind')
  | ranked {node : Plan} {kind kind' : Kind} (hrank : kind.rank < kind'.rank) :
      Precedes (node, kind) (node, kind')

namespace Precedes

theorem input {node child : Plan} {kind kind' : Kind} (h : child ∈ node.children) :
    Precedes (child, kind) (node, kind') :=
  below h (Plan.self_mem_nodes child)

theorem trans {x y z : Plan × Kind} (hxy : Precedes x y) (hyz : Precedes y z) : Precedes x z := by
  cases hxy with
  | below hchild hother =>
    cases hyz with
    | below hchild' hother' =>
      have hnode := Plan.mem_nodes_trans hother' (Plan.mem_nodes_of_mem_children hchild)
      exact below hchild' (Plan.mem_nodes_trans hnode hother)
    | ranked => exact below hchild hother
  | ranked hrank =>
    cases hyz with
    | below hchild' hother' => exact below hchild' hother'
    | ranked hrank' => exact ranked (Nat.lt_trans hrank hrank')

theorem lex_of_precedes {x y : Plan × Kind} (h : Precedes x y) :
    Prod.Lex (· < ·) (· < ·) (sizeOf x.1, x.2.rank) (sizeOf y.1, y.2.rank) := by
  cases h with
  | below hchild hother =>
    exact .left _ _ (Nat.lt_of_le_of_lt (Plan.sizeOf_le_of_mem_nodes hother)
      (Plan.sizeOf_lt_of_mem_children hchild))
  | ranked hrank => exact .right _ hrank

theorem wellFounded : WellFounded Precedes :=
  Subrelation.wf lex_of_precedes
    (InvImage.wf (fun x : Plan × Kind => (sizeOf x.1, x.2.rank))
      (Prod.lex ⟨_, Nat.lt_wfRel.wf⟩ ⟨_, Nat.lt_wfRel.wf⟩).wf)

end Precedes

section Rules
variable {b : Basis Q} {node other : Plan} {question q : Question} {s : Subject}

theorem precedes_of_descends (h : Descends question.kind.rank s q)
    (hother : b.node? node s = some other) :
    Precedes (other, q.kind) (node, question.kind) := by
  cases s with
  | self =>
    obtain rfl : node = other := Option.some.inj hother
    exact .ranked h
  | input i => exact .input (List.mem_of_getElem? hother)
  | node id => exact h.elim

theorem inquiry_descends (h : b.rules.Ranked) :
    (b.inquiry node question).Below question.kind.rank := by
  unfold Basis.inquiry
  split
  next rule hrule => exact h _ _ rule hrule b.setting node question.args
  · trivial

end Rules

section Accessors
open Inquiry

theorem heeds_ofAnswer {P : Subject → Question → Prop} {read : Option (Fact Q) → Option α}
    {f : Option α → Option β} (outcome : Except Error (Option (Fact Q))) :
    (do return f (← (do return read (← Inquiry.ofExcept outcome))) : Inquiry Q (Option β)).Heeds
      P fun _ => True := by
  cases outcome <;> trivial

/-- An accessor asks its question first, and what it asks to keep the answer within its bounds is
of smaller rank. -/
theorem answerTo_opens [Quantity Q] (question : Question) :
    ∃ args next, (answerTo .self question : Inquiry Q _) = .ask .self ⟨question.kind, args⟩ next ∧
      ∀ outcome, (next outcome).Asks fun s q => s = .self ∧ q.kind.rank < question.kind.rank := by
  obtain ⟨kind, args⟩ := question
  cases kind with
  | tupleCount =>
    refine ⟨.none, _, rfl, fun outcome => asks_of_heeds (?_ : Inquiry.Heeds _ (fun _ => True) _)⟩
    refine heeds_report _ (heeds_bind (heeds_ofAnswer outcome) fun rows => ?_)
    -- the estimate is known, and the bounds are asked for
    cases rows with
    | none => trivial
    | some rows =>
      refine heeds_bind (heeds_askAmount ⟨rfl, Nat.one_pos⟩) fun _ => ?_
      exact heeds_bind (heeds_askAmount ⟨rfl, Nat.one_pos⟩) fun _ => heeds_known _
  | _ => exact ⟨args, _, rfl, fun outcome => by cases outcome <;> trivial⟩

end Accessors

/-- Whatever the arguments and the answers are, what a built-in rule asks precedes its question, and
so does what an accessor asks further. The order is well-founded, and every inquiry by these rules
has an outcome. -/
theorem builtin_descends [Quantity Q] :
    WellFounded Precedes ∧ IsTrans (Plan × Kind) Precedes ∧
    (∀ (root : Plan) (setting : Setting Q) (node : Plan) (question : Question),
      let b : Basis Q := ⟨root, .builtin, setting⟩
      (b.inquiry node question).Asks fun s q =>
        ∀ other, b.node? node s = some other → Precedes (other, q.kind) (node, question.kind)) ∧
    (∀ question : Question, ∃ args next,
      (answerTo .self question : Inquiry Q _) = .ask .self ⟨question.kind, args⟩ next ∧
        ∀ outcome, (next outcome).Asks fun s q =>
          s = .self ∧ ∀ node, Precedes (node, q.kind) (node, question.kind)) ∧
    ∀ (root : Plan) (setting : Setting Q) (caching : Bool) (memo : Memo Q) (node : Plan)
      (inquiry : Inquiry Q α),
      let q : Query Q := { root, rules := .builtin, setting, caching, memo }
      (q.inquire node inquiry).isSome := by
  refine ⟨Precedes.wellFounded, ⟨fun _ _ _ => Precedes.trans⟩, ?_, ?_, ?_⟩
  · intro root setting node question b
    exact asks_mono (fun s q h other => precedes_of_descends h)
      (inquiry_descends RuleTable.builtin_ranked)
  · intro question
    obtain ⟨args, next, hopens, hnext⟩ := answerTo_opens (Q := Q) question
    refine ⟨args, next, hopens, fun outcome => asks_mono (fun s q h => ?_) (hnext outcome)⟩
    exact ⟨h.1, fun node => .ranked h.2⟩
  · intro root setting caching memo node inquiry q
    exact q.inquire_isSome RuleTable.builtin_ranked node inquiry

end Relational.Metadata
