import Relational.Metadata.Asking

/-!
# Predicates on their way down

A question about the rows that satisfy a predicate is put to the inputs with a predicate over their
rows. `Inquiry.Confined` says what the built-in rules may do: which predicates they ask their inputs
about, which conjunctions they may fail to make, and that they ask their own node only for kinds of
smaller rank.
-/
namespace Relational.Metadata
variable {Q α : Type}

namespace Args

def requested? : Args → Option Expr
  | predicate e | groupKey _ e => e
  | _ => .none

@[simp] theorem requested?_none : Args.none.requested? = .none := rfl

@[simp] theorem requested?_predicate (e : Option Expr) : (predicate e).requested? = e := rfl

@[simp] theorem requested?_ignoreNulls (b : Bool) : (ignoreNulls b).requested? = .none := rfl

@[simp] theorem requested?_columns (c : ColumnSet) (b : Bool) :
    (columns c b).requested? = .none := rfl

@[simp] theorem requested?_groupKey (key : ColumnSet) (e : Option Expr) :
    (groupKey key e).requested? = e := rfl

@[simp] theorem requested?_column (i : Nat) : (column i).requested? = .none := rfl

@[simp] theorem requested?_expr (e : Expr) : (expr e).requested? = .none := rfl

theorem requested?_of_predicate? {args : Args} {e : Expr} (h : args.predicate? = some e) :
    args.requested? = some e := by
  cases args <;> first | exact h | cases h

end Args

/-- Predicates over the rows of a node's input: what a filter enforces, and of the requested
predicate what reads in terms of the input. -/
inductive Offered : Plan → Option Expr → Expr → Prop
  | own {id : Nat} {input : Plan} {own : Expr} {requested : Option Expr} :
    Offered (.filter id input own) requested own
  | whole {id : Nat} {input : Plan} {own e : Expr} : Offered (.filter id input own) (some e) e
  | conjunct {id : Nat} {input : Plan} {own requested e : Expr} (h : e ∈ requested.conjuncts) :
    Offered (.filter id input own) (some requested) e
  | projected {id : Nat} {input : Plan} {columns : List Projection} {requested e : Expr}
    (h : throughProjection columns requested = some e) :
    Offered (.project id input columns) (some requested) e
  | grouped {id : Nat} {input : Plan} {sets : List ColumnSet} {calls : List AggregateCall}
    {indicator : Bool} {requested part e : Expr} (hpart : part ∈ requested.conjuncts)
    (h : Selectivity.throughGrouping (Plan.groupColumns sets) part = some e) :
    Offered (.aggregate id input sets calls indicator) (some requested) e

inductive Pushed (node : Plan.Kind) (p : Plan) (requested : Option Expr) : Nat → Expr → Prop
  | passed {i : Nat} {e : Expr} (hnode : node ∈ [Plan.Kind.sort, .exchange, .union])
    (he : requested = some e) : Pushed node p requested i e
  | conjoined {es : List Expr} {e : Expr} (hoffered : ∀ part ∈ es, Offered p requested part)
    (he : Expr.conjunction es = .ok e) : Pushed node p requested 0 e

theorem Pushed.offered {node : Plan.Kind} {p : Plan} {requested : Option Expr} {e : Expr}
    (h : Offered p requested e) : Pushed node p requested 0 e :=
  have hoffered : ∀ part ∈ [e], Offered p requested part := List.forall_mem_singleton.2 h
  .conjoined hoffered rfl

inductive Unconjoined (p : Plan) (requested : Option Expr) (error : Error) : Prop
  | offered {es : List Expr} (hoffered : ∀ part ∈ es, Offered p requested part)
    (herror : Expr.conjunction es = .error error)
  | requested {e : Expr} {es : List Expr} (he : requested = some e)
    (hes : ∀ part ∈ es, part ∈ e.conjuncts) (herror : Expr.conjunction es = .error error)

def Allows (rank : Nat) (node : Plan.Kind) (p : Plan) (requested : Option Expr) :
    Subject → Question → Prop
  | .self, q => q.kind.rank < rank ∧ q.args.requested? = none
  | .input i, q => ∀ e, q.args.requested? = some e → Pushed node p requested i e
  | .node _, _ => False

/-- The inquiry keeps to what a rule of this rank for a kind of node may do. -/
abbrev Inquiry.Confined (rank : Nat) (node : Plan.Kind) (p : Plan) (requested : Option Expr)
    (x : Inquiry Q α) : Prop :=
  x.Heeds (Allows rank node p requested) (Unconjoined p requested)

section
variable {rank : Nat} {node : Plan.Kind} {p : Plan} {requested : Option Expr}

@[simp] theorem allows_self (q : Question) :
    Allows rank node p requested .self q ↔ q.kind.rank < rank ∧ q.args.requested? = none :=
  .rfl

@[simp] theorem allows_input (i : Nat) (q : Question) :
    Allows rank node p requested (.input i) q ↔
      ∀ e, q.args.requested? = some e → Pushed node p requested i e :=
  .rfl

theorem allows_input_of_none {i : Nat} {q : Question} (h : q.args.requested? = none) :
    Allows rank node p requested (.input i) q := fun e he => by simp [h] at he

open Inquiry

theorem below_of_heeds {x : Inquiry Q α} {fails : Error → Prop}
    (h : x.Heeds (Allows rank node p requested) fails) : x.Below rank := by
  refine asks_mono (fun s q hallows => ?_) (asks_of_heeds h)
  cases s with
  | self => exact hallows.1
  | input i => trivial
  | node id => exact hallows

variable [Quantity Q]

theorem confined_tupleCount_self (h : 1 < rank) :
    (tupleCount .self : Inquiry Q _).Confined rank node p requested :=
  heeds_tupleCount ⟨h, rfl⟩ ⟨Nat.zero_lt_of_lt h, rfl⟩ ⟨Nat.zero_lt_of_lt h, rfl⟩

theorem confined_tupleCount_input (i : Nat) :
    (tupleCount (.input i) : Inquiry Q _).Confined rank node p requested :=
  heeds_tupleCount (allows_input_of_none rfl) (allows_input_of_none rfl) (allows_input_of_none rfl)

theorem confined_selectivity_input {i : Nat} {e : Option Expr}
    (h : ∀ e', e = some e' → Pushed node p requested i e') :
    (selectivity (.input i) e : Inquiry Q _).Confined rank node p requested :=
  heeds_selectivity h

theorem confined_askAmount_input {i : Nat} {kind : Kind} {args : Args}
    (h : args.requested? = none) :
    (askAmount (.input i) kind args : Inquiry Q _).Confined rank node p requested :=
  heeds_askAmount (allows_input_of_none h)

theorem confined_distinctRowCount_input {i : Nat} {key : ColumnSet} {e : Option Expr}
    (h : ∀ e', e = some e' → Pushed node p requested i e') :
    (distinctRowCount (.input i) key e : Inquiry Q _).Confined rank node p requested :=
  heeds_askAmount h

theorem confined_percentage_input (i : Nat) :
    (percentageOriginalRows (.input i) : Inquiry Q _).Confined rank node p requested :=
  heeds_bind ((heeds_askFor _ _ _ _).2 (allows_input_of_none rfl)) fun _ => trivial

end
end Relational.Metadata
