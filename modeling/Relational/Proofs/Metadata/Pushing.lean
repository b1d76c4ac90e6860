import Relational.Metadata.Pushing
import Relational.Proofs.Expr.Condition
import Relational.Proofs.Typing.Pipeline

/-!
# Pushed predicates stay conditions

At a node that passed its checks over expressions of the checked constructors, what is asked of an
input on behalf of a condition over the node's rows is a condition over the rows of that input, and
every conjunction on the way can be made.
-/
namespace Relational
open Relational.Expr

namespace Plan

theorem getElem?_columnFields {input : Schema} {columns : List Nat}
    (h : ∀ c ∈ columns, c < input.length) (field : Nat → Field → Field) (i : Nat) :
    (columns.filterMap fun c => input[c]?.map (field c))[i]? =
      columns[i]?.bind fun c => input[c]?.map (field c) := by
  induction columns generalizing i with
  | nil => rfl
  | cons c rest ih =>
    obtain ⟨hc, hrest⟩ := List.forall_mem_cons.1 h
    rw [List.filterMap_cons_some (by rw [List.getElem?_eq_getElem hc]; rfl)]
    cases i with
    | zero => simp [List.getElem?_eq_getElem hc]
    | succ i => simpa using ih hrest i

theorem getElem?_schema_aggregate {id : Nat} {input : Plan} {sets : List ColumnSet}
    {calls : List AggregateCall} {indicator : Bool}
    (hcheck : (aggregate id input sets calls indicator).check = .ok ()) {i c : Nat}
    (hc : (groupColumns sets).columns[i]? = some c) :
    ∃ f g, (aggregate id input sets calls indicator).schema[i]? = some f ∧
      input.schema[c]? = some g ∧ g.type.dataType = f.type.dataType := by
  have hcolumns : ∀ c ∈ (groupColumns sets).columns, c < input.schema.length :=
    fun c => lt_of_checkAggregate hcheck
  have hlt := hcolumns c (List.mem_of_getElem? hc)
  obtain ⟨hi, -⟩ := List.getElem?_eq_some_iff.1 hc
  have hgroups := length_columnFields hcolumns fun c => nullableField !sets.all (·.contains c)
  refine ⟨nullableField (!sets.all (·.contains c)) input.schema[c], input.schema[c], ?_,
    List.getElem?_eq_getElem hlt, rfl⟩
  rw [schema, List.append_assoc, List.getElem?_append_left (by rw [groupFields, hgroups]; exact hi),
    groupFields, getElem?_columnFields hcolumns, hc]
  simp [List.getElem?_eq_getElem hlt]

end Plan

namespace Metadata
open Plan
variable {node : Plan.Kind} {p child : Plan} {requested : Option Expr} {e : Expr} {i : Nat}

theorem Offered.exists_input (h : Offered p requested e) :
    ∃ child, p.children[0]? = some child := by
  cases h <;> exact ⟨_, rfl⟩

section
variable (hcheck : p.check = .ok ()) (hformed : ∀ e ∈ p.exprs, e.Formed)
  (hrequested : ∀ e, requested = some e → Condition p.schema e)
include hcheck hformed hrequested

theorem condition_of_offered (h : Offered p requested e) (hchild : p.children[0]? = some child) :
    Condition child.schema e := by
  cases h with
  | own =>
    obtain rfl := Option.some.inj hchild
    obtain ⟨_, hvalid, hboolean⟩ := bind_eq_ok.1 hcheck
    refine condition_of_formed (hformed e (List.mem_singleton_self e)) hvalid ?_
    simpa [IsTruth, requirePredicate, require_eq_ok] using hboolean
  | whole =>
    obtain rfl := Option.some.inj hchild
    exact hrequested e rfl
  | conjunct hpart =>
    obtain rfl := Option.some.inj hchild
    exact (hrequested _ rfl).of_mem hpart
  | @projected id input columns r e hpushed =>
    obtain rfl := Option.some.inj hchild
    refine (hrequested r rfl).substitute (toOption_eq_some.1 hpushed) fun j t replaced hj hr => ?_
    cases hc : columns[j]? with
    | none => simp [hc] at hr
    | some c =>
      simp only [hc, Except.ok.injEq] at hr
      subst hr
      obtain ⟨f, hf, htype⟩ := hj.column
      obtain rfl : { name := c.name, type := c.expr.type } = f := by
        simpa [schema, hc] using hf
      have hmem := List.mem_of_getElem? hc
      refine condition_of_formed (hformed _ (List.mem_map_of_mem hmem))
        (forM_eq_ok.1 hcheck c hmem) ?_
      have htruth := hj.truth
      simpa only [IsTruth, dataType, type, ← htype] using htruth
  | @grouped id input sets calls indicator r part e hpart hpushed =>
    obtain rfl := Option.some.inj hchild
    refine ((hrequested r rfl).of_mem hpart).substitute (toOption_eq_some.1 hpushed)
      fun j t replaced hj hr => ?_
    cases hc : (groupColumns sets).columns[j]? with
    | none => simp [hc] at hr
    | some c =>
      simp only [hc, Except.ok.injEq] at hr
      subst hr
      obtain ⟨f, hf, htype⟩ := hj.column
      obtain ⟨f', g, hf', hg, hsame⟩ := getElem?_schema_aggregate hcheck hc
      obtain rfl := Option.some.inj (hf.symm.trans hf')
      refine ⟨hj.truth, List.forall_mem_singleton.2 ⟨hj.truth, fun k u hk => ?_⟩⟩
      cases hk
      exact ⟨g, hg, hsame.trans htype⟩

theorem condition_of_pushed (hnode : p.kind = node) (h : Pushed node p requested i e)
    (hchild : p.children[i]? = some child) : Condition child.schema e := by
  cases h with
  | conjoined hoffered he =>
    refine condition_of_conjunction (fun part hpart => ?_) he
    exact condition_of_offered hcheck hformed hrequested (hoffered part hpart) hchild
  | passed hpasses he =>
    have he := hrequested e he
    subst hnode
    cases p with
    | sort | exchange =>
      have := List.mem_singleton.1 (List.mem_of_getElem? hchild)
      subst this
      exact he
    | setOp id op inputs all =>
      have hmem := List.mem_of_getElem? hchild
      have htypes := sameTypes_of_checkSetOp hcheck child.schema
        (by rw [schemas_eq_map]; exact List.mem_map_of_mem hmem)
      refine he.mono fun j f hf => ?_
      obtain ⟨g, hg, hsame⟩ := forall₂_exists_getElem? htypes hf
      exact ⟨g, hg, hsame.symm⟩
    | _ => simp [kind] at hpasses

theorem not_unconjoined (error : Error) : ¬ Unconjoined p requested error := by
  intro h
  cases h with
  | offered hoffered herror =>
    obtain ⟨e, he⟩ := conjunction_isTruth fun part hpart => by
      obtain ⟨child, hchild⟩ := (hoffered part hpart).exists_input
      exact (condition_of_offered hcheck hformed hrequested (hoffered part hpart) hchild).truth
    cases he.symm.trans herror
  | requested he hes herror =>
    obtain ⟨e, he⟩ := conjunction_isTruth fun part hpart =>
      ((hrequested _ he).conjuncts part (hes part hpart)).truth
    cases he.symm.trans herror

end
end Metadata
end Relational
