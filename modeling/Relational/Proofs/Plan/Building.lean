import Mathlib.Data.List.Induction
import Relational.Plan.Check
import Relational.Proofs.Outcome
import Relational.Proofs.Plan.Nodes

/-!
# Plans from one builder

`Builder.build` is a call of a builder as it is carried out on the builder's own state, and comes to
`Builder.add`. `ofSteps` is what a sequence of calls has built, some of which may fail. A step is
over nodes that earlier ones have built. As long as no node becomes an input twice, nodes that are
not yet inputs share no id with each other.
-/
namespace Relational.Plan

namespace Builder
variable {b b' : Builder} {make : Nat → Plan} {p : Plan}

def build (make : Nat → Plan) : Update Builder Plan := do
  let b ← getThe Builder
  let p ← ofExcept (checked (make b.next))
  set (⟨(b.next + 1) % Integer.wordCount⟩ : Builder)
  return p

theorem on_build (b : Builder) (make : Nat → Plan) :
    (build make).on b = match b.add make with
      | .ok (p, b') => (.ok p, b')
      | .error error => (.error error, b) := by
  unfold build add
  cases hchecked : checked (make b.next) <;> simp [hchecked, -bind_pure_comp]

theorem add_eq_ok :
    b.add make = .ok (p, b') ↔
      (make b.next).check = .ok () ∧ p = make b.next ∧ b' = ⟨(b.next + 1) % Integer.wordCount⟩ := by
  simp only [add, bind_eq_ok, checked_eq_ok, pure_eq_ok, Except.ok.injEq, Prod.mk.injEq]
  constructor
  · rintro ⟨_, ⟨hcheck, rfl⟩, rfl, rfl⟩
    exact ⟨hcheck, rfl, rfl⟩
  · rintro ⟨hcheck, rfl, rfl⟩
    exact ⟨_, ⟨hcheck, rfl⟩, rfl, rfl⟩

end Builder

/-- A node to build. Its inputs are numbered as they were built. -/
inductive Step
  | scan (table : TableRef) (shape : Schema) (notes : Notes)
  | values (rows : List Row) (shape : Schema) (notes : Notes)
  | filter (input : Nat) (predicate : Expr)
  | project (input : Nat) (columns : List Projection)
  | aggregate (input : Nat) (sets : List ColumnSet) (calls : List AggregateCall)
      (indicator : Bool)
  | join (left right : Nat) (condition : Expr) (type : JoinType)
  | setOp (op : SetOp) (inputs : List Nat) (all : Bool)
  | sort (input : Nat) (collation : Collation) (offset fetch : Option Nat)
  | exchange (input : Nat) (distribution : Distribution)
  | other (name : String) (inputs : List Nat)

namespace Step

def inputs : Step → List Nat
  | scan .. | values .. => []
  | filter input _ | project input _ | aggregate input .. | sort input .. | exchange input _ =>
    [input]
  | join left right .. => [left, right]
  | setOp _ inputs _ | other _ inputs => inputs

def node (source : Nat → Plan) (id : Nat) : Step → Plan
  | scan table shape notes => .scan id table shape notes
  | values rows shape notes => .values id rows shape notes
  | filter input predicate => .filter id (source input) predicate
  | project input columns => .project id (source input) columns
  | aggregate input sets calls indicator => .aggregate id (source input) sets calls indicator
  | join left right condition type => .join id (source left) (source right) condition type
  | setOp op inputs all => .setOp id op (inputs.map source) all
  | sort input collation offset fetch => .sort id (source input) collation offset fetch
  | exchange input distribution => .exchange id (source input) distribution
  | other name inputs => .other id name (inputs.map source)

theorem id_node (source : Nat → Plan) (id : Nat) (step : Step) :
    (step.node source id).id = id := by
  cases step <;> rfl

theorem children_node (source : Nat → Plan) (id : Nat) (step : Step) :
    (step.node source id).children = step.inputs.map source := by
  cases step <;> rfl

theorem ids_node (source : Nat → Plan) (id : Nat) (step : Step) :
    (step.node source id).nodes.map Plan.id =
      id :: step.inputs.flatMap fun i => (source i).nodes.map Plan.id := by
  rw [nodes_eq_cons, List.map_cons, id_node, children_node, List.flatMap_map, List.map_flatMap]

end Step

structure Session where
  builder : Builder
  made : List (Step × Plan) := []

namespace Session

def built (s : Session) : List Plan := s.made.map (·.2)

/-- The inputs of what was built, as often as they are inputs. -/
def taken (s : Session) : List Nat := s.made.flatMap (·.1.inputs)

def node (s : Session) (i : Nat) : Plan := s.built[i]?.getD default

def ids (s : Session) (i : Nat) : List Nat := (s.node i).nodes.map Plan.id

def newIds (s : Session) (step : Step) : List Nat := s.builder.next :: step.inputs.flatMap s.ids

def push (s : Session) (step : Step) (p : Plan) (b : Builder) : Session :=
  ⟨b, s.made ++ [(step, p)]⟩

def call (s : Session) (step : Step) : Except Error Plan × Builder :=
  (Builder.build fun id => step.node s.node id).on s.builder

def next (s : Session) (step : Step) : Session :=
  if ∀ i ∈ step.inputs, i < s.built.length then
    match s.call step with
    | (.ok p, b) => s.push step p b
    | (.error _, b) => { s with builder := b }
  else s

section
variable {s : Session} {step : Step} {p : Plan} {b : Builder} {i : Nat}

@[simp] theorem builder_push : (s.push step p b).builder = b := rfl

@[simp] theorem built_push : (s.push step p b).built = s.built ++ [p] := by
  simp [built, push]

theorem length_built_push : (s.push step p b).built.length = s.built.length + 1 := by
  simp

@[simp] theorem taken_push : (s.push step p b).taken = s.taken ++ step.inputs := by
  simp [taken, push]

theorem ids_push_of_lt (h : i < s.built.length) : (s.push step p b).ids i = s.ids i := by
  simp [ids, node, List.getElem?_append_left h]

@[simp] theorem ids_push_last : (s.push step p b).ids s.built.length = p.nodes.map Plan.id := by
  simp [ids, node]

theorem ids_node (s : Session) (step : Step) :
    (step.node s.node s.builder.next).nodes.map Plan.id = s.newIds step :=
  Step.ids_node ..

theorem call_eq_ok :
    s.call step = (.ok p, b) ↔ s.builder.add (fun id => step.node s.node id) = .ok (p, b) := by
  rw [call, Builder.on_build]
  cases s.builder.add fun id => step.node s.node id <;> simp [Prod.ext_iff]

theorem call_error {error : Error} (h : s.call step = (.error error, b)) : b = s.builder := by
  rw [call, Builder.on_build] at h
  cases hadd : s.builder.add fun id => step.node s.node id <;> simp_all

/-- Either the step builds a node over built ones, or nothing changes. -/
theorem next_cases (s : Session) (step : Step) :
    s.next step = s ∨
      (∀ i ∈ step.inputs, i < s.built.length) ∧
        ∃ p b, s.builder.add (fun id => step.node s.node id) = .ok (p, b) ∧
          s.next step = s.push step p b := by
  unfold next
  split
  next hbuilt =>
    split
    next p b hcall => exact .inr ⟨hbuilt, p, b, call_eq_ok.1 hcall, rfl⟩
    next error b hcall =>
      rw [call_error hcall]
      exact .inl rfl
  · exact .inl rfl

theorem next_of_error {error : Error} (h : s.call step = (.error error, b)) : s.next step = s := by
  rcases s.next_cases step with hsame | ⟨-, p, b', hadd, -⟩
  · exact hsame
  · rw [call_eq_ok.2 hadd] at h
    cases h

end

/-- What is built has consecutive ids from `start` on. The ids below it are earlier than what comes
and are not repeated, and nodes that are not yet inputs share none. -/
structure Sound (start : Nat) (s : Session) : Prop where
  next : s.builder.next = start + s.built.length
  roots : s.built.map Plan.id = List.range' start s.built.length
  below : ∀ i < s.built.length, ∀ id ∈ s.ids i, id < s.builder.next
  unique : ∀ i < s.built.length, (s.ids i).Nodup
  apart : ∀ i < s.built.length, ∀ j < s.built.length, i ≠ j → i ∉ s.taken → j ∉ s.taken →
    (s.ids i).Disjoint (s.ids j)

theorem sound_empty (start : Nat) : Sound start ⟨⟨start⟩, []⟩ where
  next := rfl
  roots := rfl
  below i hi := absurd hi (Nat.not_lt_zero i)
  unique i hi := absurd hi (Nat.not_lt_zero i)
  apart i hi := absurd hi (Nat.not_lt_zero i)

namespace Sound
variable {start : Nat} {s : Session} {step : Step} {p : Plan} {b : Builder} {id : Nat}

section
variable (h : Sound start s) (hbuilt : ∀ i ∈ step.inputs, i < s.built.length)
include h hbuilt

theorem inputs_below (hid : id ∈ step.inputs.flatMap s.ids) : id < s.builder.next := by
  obtain ⟨i, hi, hid⟩ := List.mem_flatMap.1 hid
  exact h.below i (hbuilt i hi) id hid

theorem newIds_below (hid : id ∈ s.newIds step) : id < s.builder.next + 1 := by
  rcases List.mem_cons.1 hid with rfl | hid
  · exact Nat.lt_succ_self _
  · exact Nat.lt_succ_of_lt (h.inputs_below hbuilt hid)

variable (htaken : (s.taken ++ step.inputs).Nodup)
include htaken

theorem newIds_nodup : (s.newIds step).Nodup := by
  refine List.nodup_cons.2 ⟨fun hid => Nat.lt_irrefl _ (h.inputs_below hbuilt hid), ?_⟩
  obtain ⟨-, hinputs, hapart⟩ := List.nodup_append.1 htaken
  have hnew : ∀ i ∈ step.inputs, i ∉ s.taken := fun i hi hold => hapart i hold i hi rfl
  refine List.nodup_flatMap.2 ⟨fun i hi => h.unique i (hbuilt i hi), ?_⟩
  refine hinputs.imp_of_mem fun {i j} hi hj hne => ?_
  exact h.apart i (hbuilt i hi) j (hbuilt j hj) hne (hnew i hi) (hnew j hj)

theorem newIds_disjoint {j : Nat} (hj : j < s.built.length) (hold : j ∉ s.taken)
    (hfree : j ∉ step.inputs) : (s.newIds step).Disjoint (s.ids j) := by
  refine List.disjoint_cons_left.2 ⟨fun hid => Nat.lt_irrefl _ (h.below j hj _ hid), ?_⟩
  intro id hinput hid
  obtain ⟨i, hi, hinput⟩ := List.mem_flatMap.1 hinput
  have hnew : i ∉ s.taken := fun hold => (List.nodup_append.1 htaken).2.2 i hold i hi rfl
  have hne : i ≠ j := fun heq => hfree (heq ▸ hi)
  exact h.apart i (hbuilt i hi) j hj hne hnew hold hinput hid

theorem push (hbound : start + (s.built.length + 1) < Integer.wordCount)
    (hadd : s.builder.add (fun id => step.node s.node id) = .ok (p, b)) :
    Sound start (s.push step p b) := by
  obtain ⟨-, rfl, rfl⟩ := Builder.add_eq_ok.1 hadd
  have hnext : (s.builder.next + 1) % Integer.wordCount = s.builder.next + 1 :=
    Nat.mod_eq_of_lt (by rw [h.next]; omega)
  constructor
  case next => rw [builder_push, hnext, length_built_push, h.next, Nat.add_assoc]
  case roots => simp [h.roots, Step.id_node, h.next, List.range'_concat]
  case below =>
    rw [length_built_push, builder_push, hnext]
    refine Nat.forall_lt_succ_right.2 ⟨fun i hi id hid => ?_, fun id hid => ?_⟩
    · rw [ids_push_of_lt hi] at hid
      exact Nat.lt_succ_of_lt (h.below i hi id hid)
    · rw [ids_push_last, ids_node] at hid
      exact h.newIds_below hbuilt hid
  case unique =>
    rw [length_built_push]
    refine Nat.forall_lt_succ_right.2 ⟨fun i hi => ?_, ?_⟩
    · rw [ids_push_of_lt hi]
      exact h.unique i hi
    · rw [ids_push_last, ids_node]
      exact h.newIds_nodup hbuilt htaken
  case apart =>
    intro i hi j hj hne hiold hjold
    rw [length_built_push] at hi hj
    rw [taken_push, List.mem_append, not_or] at hiold hjold
    rcases Nat.lt_succ_iff_lt_or_eq.1 hi with hi | rfl <;>
      rcases Nat.lt_succ_iff_lt_or_eq.1 hj with hj | rfl
    · rw [ids_push_of_lt hi, ids_push_of_lt hj]
      exact h.apart i hi j hj hne hiold.1 hjold.1
    · rw [ids_push_of_lt hi, ids_push_last, ids_node]
      exact List.disjoint_comm.1 (h.newIds_disjoint hbuilt htaken hi hiold.1 hiold.2)
    · rw [ids_push_of_lt hj, ids_push_last, ids_node]
      exact h.newIds_disjoint hbuilt htaken hj hjold.1 hjold.2
    · exact absurd rfl hne

end

end Sound

end Session

def ofSteps (start : Nat) (steps : List Step) : Session := steps.foldl Session.next ⟨⟨start⟩, []⟩

theorem ofSteps_concat (start : Nat) (steps : List Step) (step : Step) :
    ofSteps start (steps ++ [step]) = (ofSteps start steps).next step := by
  simp [ofSteps]

theorem sound_ofSteps {start : Nat} {steps : List Step} (htaken : (ofSteps start steps).taken.Nodup)
    (hbound : start + (ofSteps start steps).built.length < Integer.wordCount) :
    (ofSteps start steps).Sound start := by
  induction steps using List.reverseRecOn with
  | nil => exact Session.sound_empty start
  | append_singleton steps step ih =>
    rw [ofSteps_concat] at htaken hbound ⊢
    rcases (ofSteps start steps).next_cases step with hsame | ⟨hbuilt, p, b, hadd, hpush⟩
    · rw [hsame] at htaken hbound ⊢
      exact ih htaken hbound
    · rw [hpush] at htaken hbound ⊢
      rw [Session.taken_push] at htaken
      rw [Session.length_built_push] at hbound
      have hsound := ih (List.Nodup.of_append_left htaken) (by omega)
      exact hsound.push hbuilt htaken hbound hadd

/-- A builder's plans have no repeated id as long as no node becomes an input twice. The nodes have
consecutive ids, and a step that fails takes none. -/
theorem checkIds_ofSteps {start : Nat} {steps : List Step}
    (htaken : (ofSteps start steps).taken.Nodup)
    (hbound : start + (ofSteps start steps).built.length < Integer.wordCount) :
    (∀ p ∈ (ofSteps start steps).built, p.checkIds = .ok ()) ∧
      (ofSteps start steps).built.map id =
        List.range' start (ofSteps start steps).built.length ∧
      (ofSteps start steps).builder.next = start + (ofSteps start steps).built.length ∧
      ∀ step error b, (ofSteps start steps).call step = (.error error, b) →
        b.next = (ofSteps start steps).builder.next ∧
          ofSteps start (steps ++ [step]) = ofSteps start steps := by
  have hsound := sound_ofSteps htaken hbound
  refine ⟨fun p hp => checkIds_eq_ok.2 ?_, hsound.roots, hsound.next, ?_⟩
  · obtain ⟨i, hi, rfl⟩ := List.getElem_of_mem hp
    simpa [Session.ids, Session.node, hi] using hsound.unique i hi
  · intro step error b hcall
    rw [ofSteps_concat, Session.next_of_error hcall, Session.call_error hcall]
    exact ⟨rfl, rfl⟩

theorem checkIds_ofSteps_mixed :
    let table : TableRef := ⟨1, "sales", "orders"⟩
    let shape : Schema := [⟨"id", .int64 false, {}⟩]
    let steps : List Step :=
      [.scan table shape {}, .filter 0 (.column 4 (.boolean false)), .scan table shape {},
        .setOp .union [1, 0] true, .filter 2 (.column 0 (.int64 false)), .sort 2 [] none (some 3)]
    (ofSteps 5 steps).taken = [1, 0, 2] ∧
      (∀ p ∈ (ofSteps 5 steps).built, p.checkIds = .ok ()) ∧
      (ofSteps 5 steps).built.map id = [5, 6, 7, 8] ∧ (ofSteps 5 steps).builder.next = 9 := by
  intro table shape steps
  have htaken : (ofSteps 5 steps).taken = [1, 0, 2] := by decide +kernel
  have hcount : (ofSteps 5 steps).built.length = 4 := by decide +kernel
  have hnodup : (ofSteps 5 steps).taken.Nodup := htaken ▸ by decide
  have hbound : 5 + (ofSteps 5 steps).built.length < Integer.wordCount := hcount ▸ by decide
  obtain ⟨hchecked, hids, hnext, -⟩ := checkIds_ofSteps hnodup hbound
  rw [hcount] at hids hnext
  exact ⟨htaken, hchecked, hids, hnext⟩

end Relational.Plan
