import Relational.Proofs.Expr.Condition
import Relational.Proofs.Expr.Pinned

/-!
# Flattened conjunctions

The conjunction of the conjuncts of a predicate comes to what the predicate comes to, errors
included. Operands may stand for a conjunction of their own inside another one, because all that the
operands behind them depend on is whether there was a null.
-/
namespace Relational

namespace Compiled
variable {what : String} {neutral : Bool} {row : Row} {cs ds cs' ds' : List Compiled}
  {x x' y y' : Except Error (List Compiled)}

/-- How a junction goes on behind an operand with that truth. -/
def resume (what : String) (neutral sawNull : Bool) (row : Row) (rest : List Compiled) :
    Option Bool → Except Error Value
  | some b => if b = neutral then evalJunction what neutral sawNull row rest else .ok (.boolean b)
  | none => evalJunction what neutral true row rest

theorem evalJunction_cons (sawNull : Bool) (c : Compiled) :
    evalJunction what neutral sawNull row (c :: cs) =
      c.eval row >>= fun v => truth? what v >>= resume what neutral sawNull row cs :=
  rfl

/-- The operands in front may be evaluated as a junction of their own. -/
theorem evalJunction_append (seen sawNull : Bool) :
    evalJunction what neutral (sawNull || seen) row (cs ++ ds) =
      evalJunction what neutral seen row cs >>= fun v =>
        truth? what v >>= resume what neutral sawNull row ds := by
  induction cs generalizing seen with
  | nil =>
    cases seen with
    | false =>
      rw [Bool.or_false]
      exact (if_pos rfl).symm
    | true =>
      rw [Bool.or_true]
      rfl
  | cons c rest ih =>
    simp only [List.cons_append, evalJunction_cons, bind_assoc]
    congr 1
    funext v
    congr 1
    funext truth
    cases truth with
    | none =>
      have hnull := ih true
      rwa [Bool.or_true] at hnull
    | some b =>
      by_cases hb : b = neutral
      · simpa only [resume, if_pos hb] using ih seen
      · simp [resume, hb, truth?]

/-- Among the operands of a conjunction the ones do as well as the others. -/
def Interchange (row : Row) (cs ds : List Compiled) : Prop :=
  ∀ sawNull rest, evalJunction "AND" true sawNull row (cs ++ rest) =
    evalJunction "AND" true sawNull row (ds ++ rest)

theorem Interchange.append (h : Interchange row cs ds) (h' : Interchange row cs' ds') :
    Interchange row (cs ++ cs') (ds ++ ds') := by
  intro sawNull rest
  have hresume : resume "AND" true sawNull row (cs' ++ rest) =
      resume "AND" true sawNull row (ds' ++ rest) := by
    funext truth
    cases truth <;> simp only [resume, h' _ rest]
  have hfirst (later : List Compiled) : evalJunction "AND" true sawNull row (ds ++ later) =
      evalJunction "AND" true false row ds >>= fun v =>
        truth? "AND" v >>= resume "AND" true sawNull row later := by
    rw [← evalJunction_append, Bool.or_false]
  rw [List.append_assoc, h, List.append_assoc, hfirst, hfirst, hresume]

theorem interchange_conjunction (cs : List Compiled) :
    Interchange row [⟨.boolean, fun row => evalJunction "AND" true false row cs⟩] cs := by
  intro sawNull rest
  rw [List.singleton_append, evalJunction_cons, ← evalJunction_append, Bool.or_false]

inductive Conjoin (row : Row) : Except Error (List Compiled) → Except Error (List Compiled) → Prop
  | error (e : Error) : Conjoin row (.error e) (.error e)
  | ok {cs ds : List Compiled} (h : Interchange row cs ds) : Conjoin row (.ok cs) (.ok ds)

theorem Conjoin.refl (x : Except Error (List Compiled)) : Conjoin row x x := by
  cases x with
  | error e => exact .error e
  | ok cs => exact .ok fun _ _ => rfl

theorem Conjoin.append (h : Conjoin row x x') (h' : Conjoin row y y') :
    Conjoin row (do return (← x) ++ (← y)) (do return (← x') ++ (← y')) := by
  cases h with
  | error e => exact .error e
  | ok h =>
    cases h' with
    | error e => exact .error e
    | ok h' => exact .ok (h.append h')

theorem Conjoin.outcome (h : Conjoin row x x') :
    x >>= evalJunction "AND" true false row = x' >>= evalJunction "AND" true false row := by
  cases h with
  | error e => rfl
  | ok h => simpa using h false []

theorem evalJunction_eq_true (h : ∀ c ∈ cs, c.eval row = .ok (.boolean true)) :
    evalJunction what true false row cs = .ok (.boolean true) := by
  induction cs with
  | nil => rfl
  | cons c rest ih =>
    obtain ⟨hc, hrest⟩ := List.forall_mem_cons.1 h
    rw [evalJunction_cons, hc]
    exact ih hrest

end Compiled

namespace Expr
open Compiled
variable {schema : Schema} {row : Row} {e p : Expr} {es operands : List Expr} {t : SqlType}

theorem compileAll_append (es fs : List Expr) :
    compileAll schema (es ++ fs) = do
      return (← compileAll schema es) ++ (← compileAll schema fs) := by
  simp only [compileAll_eq_mapM, List.mapM_append]

theorem evaluate_and :
    (call .and operands t).evaluate schema row =
      compileAll schema operands >>= evalJunction "AND" true false row := by
  rw [evaluate, compile, bind_assoc]
  rfl

theorem exists_codes {v : Value} (h : ∀ e ∈ es, e.evaluate schema row = .ok v) :
    ∃ cs, List.Forall₂ (fun e c => e.compile schema = .ok c) es cs ∧
      ∀ c ∈ cs, c.eval row = .ok v := by
  induction es with
  | nil => exact ⟨[], .nil, by simp⟩
  | cons e rest ih =>
    obtain ⟨he, hrest⟩ := List.forall_mem_cons.1 h
    obtain ⟨c, hc, hv⟩ := evaluate_eq_ok.1 he
    obtain ⟨cs, hcs, hvs⟩ := ih hrest
    exact ⟨c :: cs, .cons hc hcs, List.forall_mem_cons.2 ⟨hv, hvs⟩⟩

theorem evaluate_and_eq_true :
    (call .and operands t).evaluate schema row = .ok (.boolean true) ↔
      ∀ o ∈ operands, o.evaluate schema row = .ok (.boolean true) := by
  rw [evaluate_and, bind_eq_ok]
  constructor
  · rintro ⟨cs, hcs, htrue⟩ o ho
    obtain ⟨i, hi⟩ := List.getElem?_of_mem ho
    obtain ⟨c, hc, hcompile⟩ := forall₂_exists_getElem? (compileAll_eq_ok.1 hcs) hi
    rw [evaluate_of_compile hcompile]
    exact (evalJunction_and_eq_true htrue).2 c (List.mem_of_getElem? hc)
  · intro h
    obtain ⟨cs, hcs, htrue⟩ := exists_codes h
    exact ⟨cs, compileAll_eq_ok.2 hcs, evalJunction_eq_true htrue⟩

theorem true_of_mem_conjuncts {part : Expr} (h : e.evaluate schema row = .ok (.boolean true))
    (hpart : part ∈ e.conjuncts) : part.evaluate schema row = .ok (.boolean true) := by
  induction e using operandInduction with
  | call op operands t ih =>
    by_cases hop : op = .and
    · subst hop
      rw [conjuncts, conjunctsOf_eq_flatMap] at hpart
      obtain ⟨o, ho, hpart⟩ := List.mem_flatMap.1 hpart
      exact ih o ho (evaluate_and_eq_true.1 h o ho) hpart
    · rw [conjuncts_eq_singleton (by simp [hop])] at hpart
      rwa [List.mem_singleton.1 hpart]
  | _ => rwa [List.mem_singleton.1 hpart]

mutual
theorem conjoin_conjuncts (e : Expr) :
    Conjoin row (compileAll schema [e]) (compileAll schema e.conjuncts) := by
  cases e with
  | call op operands t =>
    by_cases hop : op = .and
    · subst hop
      have hoperands : Conjoin row (compileAll schema operands)
          (compileAll schema (conjunctsOf operands)) := conjoin_conjunctsOf operands
      simp only [conjuncts, compileAll, compile]
      generalize compileAll schema operands = x, compileAll schema (conjunctsOf operands) = x'
        at hoperands
      cases hoperands with
      | error error => exact .error error
      | @ok cs ds h =>
        exact .ok fun sawNull rest =>
          (interchange_conjunction cs sawNull rest).trans (h sawNull rest)
    · rw [conjuncts_eq_singleton (by simp [hop])]
      exact .refl _
  | _ => exact .refl _

theorem conjoin_conjunctsOf (es : List Expr) :
    Conjoin row (compileAll schema es) (compileAll schema (conjunctsOf es)) := by
  cases es with
  | nil => exact .refl _
  | cons e rest =>
    rw [← List.singleton_append, compileAll_append, List.singleton_append, conjunctsOf,
      compileAll_append]
    exact (conjoin_conjuncts e).append (conjoin_conjunctsOf rest)
end

/-- Made of any conditions, each of them no conjunction, by conjunctions that pass their checks. -/
inductive Conjoined : Expr → Prop
  | condition {e : Expr} (h : ∀ operands t, e ≠ .call .and operands t) : Conjoined e
  | call {operands : List Expr} {e : Expr} (h : mkCall .and operands = .ok e)
      (conjoined : ∀ o ∈ operands, Conjoined o) : Conjoined e
  | conjunction {exprs : List Expr} {e : Expr} (h : conjunction exprs = .ok e)
      (conjoined : ∀ o ∈ exprs, Conjoined o) : Conjoined e

theorem operands_of_mkCall (h : mkCall .and operands = .ok e) :
    (∃ t, e = .call .and operands t) ∧ 2 ≤ operands.length ∧ ∀ o ∈ operands, o.IsTruth := by
  simp only [mkCall, callType, bind_eq_ok, require_eq_ok, decide_eq_true_eq] at h
  obtain ⟨t, ⟨_, hcount, _, hboolean, -⟩, he⟩ := h
  cases he
  exact ⟨⟨t, rfl⟩, hcount, fun o ho => requireBoolean_eq_ok.1 (forM_eq_ok.1 hboolean o ho)⟩

theorem conjunction_of_two_le (hcount : 2 ≤ es.length) (h : ∀ e ∈ es, e.IsTruth) :
    ∃ t, conjunction es = .ok (.call .and es t) := by
  obtain ⟨e, he⟩ := conjunction_isTruth h
  match es, hcount with
  | first :: second :: rest, _ =>
    obtain ⟨⟨t, rfl⟩, -⟩ := operands_of_mkCall he
    exact ⟨t, he⟩

theorem Conjoined.of_and (h : Conjoined (.call .and operands t)) :
    2 ≤ operands.length ∧ ∀ o ∈ operands, o.Conjoined ∧ o.IsTruth := by
  generalize he : Expr.call .and operands t = e at h
  induction h with
  | condition h => exact absurd he.symm (h operands t)
  | call h conjoined =>
    obtain ⟨⟨u, rfl⟩, hcount, htruth⟩ := operands_of_mkCall h
    cases he
    exact ⟨hcount, fun o ho => ⟨conjoined o ho, htruth o ho⟩⟩
  | @conjunction exprs e h conjoined ih =>
    match exprs with
    | [] =>
      cases h
      cases he
    | [e] =>
      cases h
      exact ih e (List.mem_singleton_self e) he
    | first :: second :: rest =>
      obtain ⟨⟨u, rfl⟩, hcount, htruth⟩ := operands_of_mkCall h
      cases he
      exact ⟨hcount, fun o ho => ⟨conjoined o ho, htruth o ho⟩⟩

theorem Conjoined.conjuncts_ne_nil (h : p.Conjoined) : p.conjuncts ≠ [] := by
  induction p using operandInduction with
  | call op operands t ih =>
    by_cases hop : op = .and
    · subst hop
      obtain ⟨hcount, hoperands⟩ := h.of_and
      obtain ⟨o, ho⟩ := List.exists_mem_of_length_pos (Nat.lt_of_lt_of_le Nat.two_pos hcount)
      obtain ⟨part, hpart⟩ := List.exists_mem_of_ne_nil _ (ih o ho (hoperands o ho).1)
      rw [conjuncts, conjunctsOf_eq_flatMap]
      exact List.ne_nil_of_mem (List.mem_flatMap.2 ⟨o, ho, hpart⟩)
    · rw [conjuncts_eq_singleton (by simp [hop])]
      exact List.cons_ne_nil _ _
  | _ => exact List.cons_ne_nil _ _

theorem Conjoined.isTruth_conjuncts (h : p.Conjoined) (htruth : p.IsTruth) :
    ∀ part ∈ p.conjuncts, part.IsTruth := by
  induction p using operandInduction with
  | call op operands t ih =>
    by_cases hop : op = .and
    · subst hop
      intro part hpart
      rw [conjuncts, conjunctsOf_eq_flatMap] at hpart
      obtain ⟨o, ho, hpart⟩ := List.mem_flatMap.1 hpart
      obtain ⟨hconjoined, htruth⟩ := h.of_and.2 o ho
      exact ih o ho hconjoined htruth part hpart
    · rw [conjuncts_eq_singleton (by simp [hop])]
      exact List.forall_mem_singleton.2 htruth
  | _ => exact List.forall_mem_singleton.2 htruth

theorem Conjoined.conjunction_conjunctsOf (h : Conjoined (.call .and operands t)) :
    ∃ u, Expr.conjunction (conjunctsOf operands) = .ok (.call .and (conjunctsOf operands) u) := by
  obtain ⟨hcount, hoperands⟩ := h.of_and
  refine conjunction_of_two_le ?_ fun part hpart => ?_
  · match operands, hcount with
    | first :: second :: rest, _ =>
      obtain ⟨hfirst, hothers⟩ := List.forall_mem_cons.1 hoperands
      obtain ⟨hsecond, -⟩ := List.forall_mem_cons.1 hothers
      have hpos := List.length_pos_of_ne_nil hfirst.1.conjuncts_ne_nil
      have hpos' := List.length_pos_of_ne_nil hsecond.1.conjuncts_ne_nil
      simp only [conjunctsOf, List.length_append]
      omega
  · rw [conjunctsOf_eq_flatMap] at hpart
    obtain ⟨o, ho, hpart⟩ := List.mem_flatMap.1 hpart
    obtain ⟨hconjoined, htruth⟩ := hoperands o ho
    exact hconjoined.isTruth_conjuncts htruth part hpart

/-- Flattened, a conjunction has no conjunction among its operands, and over any row it has the same
outcome as before: true where every conjunct is. -/
theorem evaluate_flattened (h : p.Conjoined) :
    (∀ part ∈ p.conjuncts, ∀ operands t, part ≠ .call .and operands t) ∧
      ∃ q, conjunction p.conjuncts = .ok q ∧ ∀ schema row,
        q.evaluate schema row = p.evaluate schema row ∧
          (p.evaluate schema row = .ok (.boolean true) ↔
            ∀ part ∈ p.conjuncts, part.evaluate schema row = .ok (.boolean true)) := by
  refine ⟨fun part => ne_and_of_mem_conjuncts, ?_⟩
  by_cases hand : ∃ operands t, p = .call .and operands t
  · obtain ⟨operands, t, rfl⟩ := hand
    obtain ⟨u, hq⟩ := h.conjunction_conjunctsOf
    refine ⟨_, hq, fun schema row => ?_⟩
    have hsame : (call .and (conjunctsOf operands) u).evaluate schema row =
        (call .and operands t).evaluate schema row := by
      rw [evaluate_and, evaluate_and]
      exact (conjoin_conjunctsOf operands).outcome.symm
    exact ⟨hsame, hsame ▸ evaluate_and_eq_true⟩
  · rw [conjuncts_eq_singleton (by simpa using hand)]
    exact ⟨p, rfl, fun schema row => ⟨rfl, by rw [List.forall_mem_singleton]⟩⟩

theorem evaluate_flattened_large_quotients :
    let schema : Schema := [⟨"open", .boolean true, {}⟩, ⟨"total", .int64 false, {}⟩,
      ⟨"parts", .int64 false, {}⟩]
    let isOpen : Expr := .column 0 (.boolean true)
    let isSplit : Expr := .call (.compare .ne) [.column 2 (.int64 false), mkLiteral (.int64 1)]
      (.boolean false)
    let quotient : Expr := .call (.arith .divide) [.column 1 (.int64 false),
      .column 2 (.int64 false)] (.float64 false)
    let isLarge : Expr := .call (.compare .gt) [quotient, mkLiteral (.int64 3)] (.boolean false)
    let p : Expr := .call .and [.call .and [isOpen, isSplit] (.boolean true), isLarge]
      (.boolean true)
    p.Conjoined ∧ ∃ q, conjunction [isOpen, isSplit, isLarge] = .ok q ∧
      (∀ row, q.evaluate schema row = p.evaluate schema row) ∧
      p.evaluate schema [.null, .int64 8, .int64 2] = .ok .null ∧
      p.evaluate schema [.null, .int64 8, .int64 0] = .error (.execution .divisionByZero) ∧
      p.evaluate schema [.null, .int64 8, .int64 1] = .ok (.boolean false) := by
  intro schema isOpen isSplit quotient isLarge p
  have hopen : isOpen.Conjoined := .condition (by simp [isOpen])
  have hsplit : isSplit.Conjoined := .condition (by simp [isSplit])
  have hlarge : isLarge.Conjoined := .condition (by simp [isLarge])
  let inner : Expr := .call .and [isOpen, isSplit] (.boolean true)
  have hinner : inner.Conjoined :=
    .call (rfl : mkCall .and [isOpen, isSplit] = .ok inner) (by simp [hopen, hsplit])
  have hp : p.Conjoined :=
    .call (rfl : mkCall .and [inner, isLarge] = .ok p) (by simp [hinner, hlarge])
  obtain ⟨-, q, hq, hsame⟩ := evaluate_flattened hp
  exact ⟨hp, q, hq, fun row => (hsame schema row).1, rfl, rfl, rfl⟩

end Expr
end Relational
