import Relational.Proofs.Binary.Order
import Relational.Proofs.Expr.Flattening

/-!
# Membership as a disjunction

Whether a value is among candidates is whether it equals the first, or the second, and so on, in
three-valued logic. Both loops go through the candidates until one decides; where none does, all
that counts is whether there was a null.
-/
namespace Relational

namespace Compiled
variable {row : Row} {p c : Compiled} {cs : List Compiled} {x v : Value}

def equality (p c : Compiled) : Compiled := binary .boolean (compareValues .eq) p c

/-- The comparison with the candidate has a result, which is null beside null. -/
def Settles (row : Row) (x : Value) (c : Compiled) : Prop :=
  ∃ v, c.eval row = .ok v ∧ (v = .null ∨ ∃ o, x.compare? v = some o)

theorem eval_equality (hp : p.eval row = .ok x) (hc : c.eval row = .ok v) :
    (equality p c).eval row =
      if x.isNull || v.isNull then .ok .null else compareValues .eq x v := by
  simp only [equality, binary, hp, hc, ok_bind]
  split <;> rfl

theorem eval_equality_of_compare? {o : Ordering} (hp : p.eval row = .ok x)
    (hc : c.eval row = .ok v) (hx : x ≠ .null) (ho : x.compare? v = some o) :
    v ≠ .null ∧ (equality p c).eval row = .ok (.boolean (o == .eq)) := by
  have hv : v ≠ .null := by
    rintro rfl
    cases x <;> cases ho
  refine ⟨hv, ?_⟩
  have hnull : (x.isNull || v.isNull) = false := by
    rw [Bool.or_eq_false_iff, ← Bool.not_eq_true, ← Bool.not_eq_true, Value.isNull_iff,
      Value.isNull_iff]
    exact ⟨hx, hv⟩
  rw [eval_equality hp hc, hnull]
  simp only [compareValues, ho]
  rfl

theorem evalJunction_equality_null (hp : p.eval row = .ok .null)
    (hcs : ∀ c ∈ cs, ∃ v, c.eval row = .ok v) :
    evalJunction "OR" false true row (cs.map (equality p)) = .ok .null := by
  induction cs with
  | nil => rfl
  | cons c rest ih =>
    obtain ⟨⟨v, hc⟩, hrest⟩ := List.forall_mem_cons.1 hcs
    rw [List.map_cons, evalJunction_cons, eval_equality hp hc]
    exact ih hrest

/-- From the same candidate on, and with the same memory of nulls, both loops end alike. -/
theorem evalIn_eq_evalJunction (hp : p.eval row = .ok x) (hx : x ≠ .null)
    (hcs : ∀ c ∈ cs, Settles row x c) (sawNull : Bool) :
    evalIn x sawNull row cs = evalJunction "OR" false sawNull row (cs.map (equality p)) := by
  induction cs generalizing sawNull with
  | nil => rfl
  | cons c rest ih =>
    obtain ⟨⟨v, hc, hv⟩, hrest⟩ := List.forall_mem_cons.1 hcs
    rw [evalIn, hc, ok_bind, List.map_cons, evalJunction_cons]
    rcases hv with rfl | ⟨o, ho⟩
    · have hequality : (equality p c).eval row = .ok .null := by
        rw [eval_equality hp hc, Value.isNull, Bool.or_true, if_pos rfl]
      rw [hequality]
      exact ih hrest true
    · obtain ⟨hv, hequality⟩ := eval_equality_of_compare? hp hc hx ho
      rw [hequality, if_neg (mt (Value.isNull_iff v).1 hv), ho]
      cases o with
      | eq => rfl
      | lt | gt => exact ih hrest sawNull

/-- Over candidates that settle it, a membership has the outcome of the disjunction. -/
theorem eval_isIn {out : DataType} {code : Compiled} (hcode : call .isIn (p :: cs) out = .ok code)
    (hp : p.eval row = .ok x) (hcs : ∀ c ∈ cs, x ≠ .null → Settles row x c)
    (hvalues : ∀ c ∈ cs, ∃ v, c.eval row = .ok v) :
    code.eval row = evalJunction "OR" false false row (cs.map (equality p)) := by
  match cs with
  | [] => cases hcode
  | c :: rest =>
    cases hcode
    simp only [hp, ok_bind]
    by_cases hx : x = .null
    · subst hx
      obtain ⟨⟨v, hc⟩, hrest⟩ := List.forall_mem_cons.1 hvalues
      rw [List.map_cons, evalJunction_cons, eval_equality hp hc]
      exact (evalJunction_equality_null hp hrest).symm
    · rw [if_neg (mt (Value.isNull_iff x).1 hx)]
      exact evalIn_eq_evalJunction hp hx (fun c hc => hcs c hc hx) false

theorem evalJunction_singleton {what : String} {b : Option Bool}
    (h : c.eval row = .ok (ofTruth b)) :
    evalJunction what false false row [c] = .ok (ofTruth b) := by
  rw [evalJunction_cons, h]
  rcases b with _ | _ | _ <;> rfl

theorem eval_equality_ofTruth (hp : p.eval row = .ok x) (hc : c.eval row = .ok v)
    (hsettles : x ≠ .null → Settles row x c) :
    ∃ b, (equality p c).eval row = .ok (ofTruth b) := by
  by_cases hx : x = .null
  · subst hx
    exact ⟨none, eval_equality hp hc⟩
  obtain ⟨w, hw, hcomparable⟩ := hsettles hx
  obtain rfl := Except.ok.inj (hw.symm.trans hc)
  rcases hcomparable with rfl | ⟨o, ho⟩
  · refine ⟨none, ?_⟩
    rw [eval_equality hp hc, Value.isNull, Bool.or_true, if_pos rfl]
    rfl
  · exact ⟨some (o == .eq), (eval_equality_of_compare? hp hc hx ho).2⟩

theorem evalJunction_ofTruth (h : ∀ c ∈ cs, ∃ b, c.eval row = .ok (ofTruth b)) (what : String)
    (neutral sawNull : Bool) :
    ∃ b, evalJunction what neutral sawNull row cs = .ok (ofTruth b) := by
  induction cs generalizing sawNull with
  | nil =>
    cases sawNull with
    | false => exact ⟨some neutral, rfl⟩
    | true => exact ⟨none, rfl⟩
  | cons c rest ih =>
    obtain ⟨⟨b, hc⟩, hrest⟩ := List.forall_mem_cons.1 h
    rw [evalJunction_cons, hc]
    cases b with
    | none => exact ih hrest true
    | some b =>
      by_cases hb : b = neutral
      · simpa [ofTruth, truth?, resume, hb] using ih hrest sawNull
      · exact ⟨some b, by simp [ofTruth, truth?, resume, hb]⟩

end Compiled

namespace Expr
open Compiled
variable {schema : Schema} {row : Row} {x c e : Expr} {cs : List Expr}

def equalsAny (x : Expr) : List Expr → Except Error Expr
  | [c] => mkCall (.compare .eq) [x, c]
  | cs => do mkCall .or (← cs.mapM fun c => mkCall (.compare .eq) [x, c])

def equal (x c : Expr) : Expr :=
  .call (.compare .eq) [x, c] (.boolean ([x, c].any (·.nullable)))

theorem mkCall_eq (h : x.dataType.comparable c.dataType = true) :
    mkCall (.compare .eq) [x, c] = .ok (equal x c) := by
  simp [mkCall, callType, require, h, equal]

theorem comparable_of_mkCall_isIn (h : mkCall .isIn (x :: cs) = .ok e) :
    cs ≠ [] ∧ (∃ t, e = .call .isIn (x :: cs) t) ∧
      ∀ c ∈ cs, x.dataType.comparable c.dataType = true := by
  match cs with
  | [] => cases h
  | c :: rest =>
    obtain ⟨t, ht, he⟩ := bind_eq_ok.1 h
    cases he
    obtain ⟨_, hcandidates, -⟩ := bind_eq_ok.1 ht
    exact ⟨List.cons_ne_nil _ _, ⟨t, rfl⟩,
      fun c hc => require_eq_ok.1 (forM_eq_ok.1 hcandidates c hc)⟩

theorem mkCall_or (hcount : 2 ≤ cs.length) (h : ∀ c ∈ cs, c.dataType = .boolean) :
    ∃ t, mkCall .or cs = .ok (.call .or cs t) := by
  have htruth : cs.forM requireBoolean = .ok () :=
    forM_eq_ok.2 fun c hc => requireBoolean_eq_ok.2 (.inl (h c hc))
  exact ⟨.boolean (cs.any (·.nullable)), by simp [mkCall, callType, require, hcount, htruth]⟩

theorem equalsAny_eq_ok (hcs : cs ≠ []) (h : ∀ c ∈ cs, x.dataType.comparable c.dataType = true) :
    (∃ c, cs = [c] ∧ equalsAny x cs = .ok (equal x c)) ∨
      ∃ t, equalsAny x cs = .ok (.call .or (cs.map (equal x)) t) := by
  have hequal : cs.mapM (fun c => mkCall (.compare .eq) [x, c]) = .ok (cs.map (equal x)) := by
    refine mapM_eq_ok.2 (List.forall₂_map_right_iff.2 (List.forall₂_same.2 fun c hc => ?_))
    exact mkCall_eq (h c hc)
  match cs with
  | [c] => exact .inl ⟨c, rfl, mkCall_eq (h c (List.mem_singleton_self c))⟩
  | first :: second :: rest =>
    obtain ⟨t, ht⟩ : ∃ t, mkCall .or ((first :: second :: rest).map (equal x)) =
        .ok (.call .or ((first :: second :: rest).map (equal x)) t) :=
      mkCall_or (by simp) (List.forall_mem_map.2 fun c _ => rfl)
    refine .inr ⟨t, ?_⟩
    rw [equalsAny, hequal, ok_bind, ht]
    simp

theorem compile_equal {p code : Compiled} (hp : x.compile schema = .ok p)
    (hcode : c.compile schema = .ok code) :
    (equal x c).compile schema = .ok (equality p code) := by
  simp [equal, compile, compileAll, hp, hcode]
  rfl

theorem compileAll_equal {p : Compiled} {codes : List Compiled} (hp : x.compile schema = .ok p)
    (hcodes : compileAll schema cs = .ok codes) :
    compileAll schema (cs.map (equal x)) = .ok (codes.map (equality p)) := by
  refine compileAll_eq_ok.2 (List.forall₂_map_left_iff.2 (List.forall₂_map_right_iff.2 ?_))
  exact (compileAll_eq_ok.1 hcodes).imp fun c code hcode => compile_equal hp hcode

theorem evaluate_or {operands : List Expr} {t : SqlType} :
    (call .or operands t).evaluate schema row =
      compileAll schema operands >>= evalJunction "OR" false false row := by
  rw [evaluate, compile, bind_assoc]
  rfl

theorem settles_of_comparable {p code : Compiled} {v w : Value} (hp : p.For schema x)
    (hcode : code.For schema c) (hcomparable : x.dataType.comparable c.dataType = true)
    (hrow : row.Conforms schema) (hv : p.eval row = .ok v) (hw : code.eval row = .ok w)
    (hvNaN : ¬ v.IsNaN) (hwNaN : ¬ w.IsNaN) (hvnull : v ≠ .null) : Settles row v code := by
  refine ⟨w, hw, or_iff_not_imp_left.2 fun hwnull => ?_⟩
  have hvConforms : v.Conforms x.dataType := by
    have hyields := hp.2 row hrow
    rwa [hv, hp.1] at hyields
  have hwConforms : w.Conforms c.dataType := by
    have hyields := hcode.2 row hrow
    rwa [hw, hcode.1] at hyields
  cases ho : v.compare? w with
  | some o => exact ⟨o, rfl⟩
  | none =>
    have hNaN := Value.compare?_comparable hvConforms hwConforms hvnull hwnull hcomparable ho
    exact absurd hNaN (not_or.2 ⟨hvNaN, hwNaN⟩)

section
variable {p : Compiled} {codes : List Compiled} {t : SqlType}
  (hp : x.compile schema = .ok p) (hcodes : compileAll schema cs = .ok codes)
  (hpFor : p.For schema x) (hfor : List.Forall₂ (Compiled.For schema) cs codes)
  (hcomparable : ∀ c ∈ cs, x.dataType.comparable c.dataType = true)
  (hrow : row.Conforms schema)
  (hvalues : ∀ o ∈ x :: cs, ∃ v, o.evaluate schema row = .ok v ∧ ¬ v.IsNaN)
include hp hcodes hpFor hfor hcomparable hrow hvalues

theorem exists_settled : ∃ v, p.eval row = .ok v ∧ ∀ code ∈ codes,
    ∃ w, code.eval row = .ok w ∧ (v ≠ .null → Settles row v code) := by
  obtain ⟨⟨v, hv, hvNaN⟩, hcandidates⟩ := List.forall_mem_cons.1 hvalues
  rw [evaluate_of_compile hp] at hv
  refine ⟨v, hv, fun code hcode => ?_⟩
  obtain ⟨i, hi⟩ := List.getElem?_of_mem hcode
  obtain ⟨c, hc, hcodeFor⟩ := forall₂_exists_getElem?
    (List.Forall₂.flip (R := fun code c => Compiled.For schema c code) hfor) hi
  have hmem := List.mem_of_getElem? hc
  obtain ⟨w, hw, hwNaN⟩ := hcandidates c hmem
  rw [evaluate_of_compile (forall₂_getElem? (compileAll_eq_ok.1 hcodes) hc hi)] at hw
  exact ⟨w, hw,
    settles_of_comparable hpFor hcodeFor (hcomparable c hmem) hrow hv hw hvNaN hwNaN⟩

theorem evaluate_isIn_eq (hne : cs ≠ []) :
    (∀ code ∈ codes, ∃ b, (equality p code).eval row = .ok (ofTruth b)) ∧
      (call .isIn (x :: cs) t).evaluate schema row =
        evalJunction "OR" false false row (codes.map (equality p)) := by
  obtain ⟨v, hv, hsettled⟩ := exists_settled hp hcodes hpFor hfor hcomparable hrow hvalues
  constructor
  · intro code hcode
    obtain ⟨w, hw, hsettles⟩ := hsettled code hcode
    exact eval_equality_ofTruth hv hw hsettles
  · obtain ⟨code, hcode⟩ : ∃ code, Compiled.call .isIn (p :: codes) t.dataType = .ok code := by
      cases hfor with
      | nil => exact absurd rfl hne
      | cons _ _ => exact ⟨_, rfl⟩
    have hcompile : (call .isIn (x :: cs) t).compile schema = .ok code := by
      simp [compile, compileAll, hp, hcodes, hcode]
    rw [evaluate_of_compile hcompile]
    refine eval_isIn hcode hv (fun code hcode => ?_) fun code hcode => ?_
    · obtain ⟨w, -, hsettles⟩ := hsettled code hcode
      exact hsettles
    · obtain ⟨w, hw, -⟩ := hsettled code hcode
      exact ⟨w, hw⟩

end

/-- Over rows on which the probe and the candidates come to values, none of them a NaN, a membership
and the disjunction of the equalities come to the same truth. -/
theorem evaluate_isIn (hx : Built schema x) (hcs : ∀ c ∈ cs, Built schema c)
    (he : mkCall .isIn (x :: cs) = .ok e) :
    ∃ d, equalsAny x cs = .ok d ∧ ∀ row : Row, row.Conforms schema →
      (∀ o ∈ x :: cs, ∃ v, o.evaluate schema row = .ok v ∧ ¬ v.IsNaN) →
      ∃ b, e.evaluate schema row = .ok (ofTruth b) ∧ d.evaluate schema row = .ok (ofTruth b) := by
  obtain ⟨hne, ⟨t, rfl⟩, hcomparable⟩ := comparable_of_mkCall_isIn he
  obtain ⟨p, hp, hpFor⟩ := hx.compiles
  obtain ⟨codes, hcodes, hfor⟩ := compileAll_of_compiles fun c hc => (hcs c hc).compiles
  rcases equalsAny_eq_ok hne hcomparable with ⟨c, rfl, hd⟩ | ⟨u, hd⟩
  · refine ⟨_, hd, fun row hrow hvalues => ?_⟩
    obtain ⟨htruth, heval⟩ :=
      evaluate_isIn_eq (t := t) hp hcodes hpFor hfor hcomparable hrow hvalues hne
    obtain ⟨code, rfl, hcode⟩ : ∃ code, codes = [code] ∧ c.compile schema = .ok code := by
      cases compileAll_eq_ok.1 hcodes with
      | cons hcode hnone =>
        cases hnone
        exact ⟨_, rfl, hcode⟩
    obtain ⟨b, hb⟩ := htruth code (List.mem_singleton_self code)
    refine ⟨b, heval.trans (evalJunction_singleton hb), ?_⟩
    rw [evaluate_of_compile (compile_equal hp hcode), hb]
  · refine ⟨_, hd, fun row hrow hvalues => ?_⟩
    obtain ⟨htruth, heval⟩ :=
      evaluate_isIn_eq (t := t) hp hcodes hpFor hfor hcomparable hrow hvalues hne
    obtain ⟨b, hb⟩ := evalJunction_ofTruth (List.forall_mem_map.2 htruth) "OR" false false
    refine ⟨b, heval.trans hb, ?_⟩
    rw [evaluate_or, compileAll_equal hp hcodes, ok_bind, hb]

theorem evaluate_isIn_parts :
    let schema : Schema := [⟨"total", .int64 false, {}⟩, ⟨"parts", ⟨.int32, true⟩, {}⟩]
    let total : Expr := .column 0 (.int64 false)
    let parts : Expr := .column 1 ⟨.int32, true⟩
    let three : Expr := mkLiteral (.float64 (.ofInt 3))
    let e : Expr := .call .isIn [total, parts, three] (.boolean true)
    let d : Expr := .call .or [equal total parts, equal total three] (.boolean true)
    let row : Row := [.int64 3, .null]
    let other : Row := [.int64 4, .null]
    (Built schema total ∧ (∀ c ∈ [parts, three], Built schema c) ∧
      mkCall .isIn [total, parts, three] = .ok e) ∧
    (row.Conforms schema ∧
      ∀ o ∈ [total, parts, three], ∃ v, o.evaluate schema row = .ok v ∧ ¬ v.IsNaN) ∧
    equalsAny total [parts, three] = .ok d ∧
      (e.evaluate schema row = .ok (.boolean true) ∧ d.evaluate schema row = .ok (.boolean true)) ∧
      e.evaluate schema other = .ok .null ∧ d.evaluate schema other = .ok .null := by
  intro schema total parts three e d row other
  have htotal : Built schema total := .column (i := 0) rfl
  have hcandidates : ∀ c ∈ [parts, three], Built schema c :=
    List.forall_mem_cons.2 ⟨.column (i := 1) rfl, List.forall_mem_singleton.2 (.literal _)⟩
  have he : mkCall .isIn [total, parts, three] = .ok e := rfl
  have hrow (n : Int64) : Row.Conforms [.int64 n, .null] schema :=
    .cons (.inr (.inl rfl)) (.cons (.inl rfl) .nil)
  have hNaN (x : Value) (n : Int) (hx : x.number? = some (.ofInt n)) : ¬ x.IsNaN := by
    rintro ⟨y, hy, hnan⟩
    obtain rfl := Option.some.inj (hx.symm.trans hy)
    rw [Binary.Word.isNaN_ofInt] at hnan
    cases hnan
  have hvalues (n : Int64) : ∀ o ∈ [total, parts, three],
      ∃ v, o.evaluate schema [.int64 n, .null] = .ok v ∧ ¬ v.IsNaN := by
    refine List.forall_mem_cons.2 ⟨⟨.int64 n, rfl, hNaN _ _ rfl⟩, ?_⟩
    refine List.forall_mem_cons.2 ⟨⟨.null, rfl, ?_⟩, ?_⟩
    · rintro ⟨y, hy, -⟩
      cases hy
    · exact List.forall_mem_singleton.2 ⟨_, rfl, hNaN _ _ rfl⟩
  obtain ⟨d', hd, hsame⟩ := evaluate_isIn htotal hcandidates he
  obtain rfl : d = d' := Except.ok.inj hd
  obtain ⟨b, hb, hb'⟩ := hsame row (hrow 3) (hvalues 3)
  obtain ⟨b', hother, hother'⟩ := hsame other (hrow 4) (hvalues 4)
  have htrue : e.evaluate schema row = .ok (.boolean true) := by rfl
  have hnull : e.evaluate schema other = .ok .null := by rfl
  exact ⟨⟨htotal, hcandidates, he⟩, ⟨hrow 3, hvalues 3⟩, hd,
    ⟨htrue, hb'.trans (hb.symm.trans htrue)⟩, hnull, hother'.trans (hother.symm.trans hnull)⟩

end Expr
end Relational
