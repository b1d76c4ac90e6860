import Relational.Proofs.Expr.Evaluation
import Relational.Proofs.Typing.Expression

/-!
# Faults of evaluation

Expressions share the errors of the data with the aggregates, but never report one of theirs. What
is left for an expression of the checked constructors is a number that is out of range, a quotient
by zero, a cast, and a comparison with what is not a number.
-/
namespace Relational

inductive Error.OfEvaluation : Error → Prop
  | overflow (a : Arithmetic) (l r : Int) : OfEvaluation (.execution (.overflow a l r))
  | divisionByZero : OfEvaluation (.execution .divisionByZero)
  | failedCast (v : Value) (t : DataType) : OfEvaluation (.execution (.cast v t))
  | unsupportedCast (t : DataType) : OfEvaluation (.unsupported (.cast t))
  | notANumber {l r : Value} (h : l.IsNaN ∨ r.IsNaN) :
    OfEvaluation (.execution (.incomparable l r))

theorem Error.DataDependent.ofEvaluation {error : Error} (h : error.DataDependent)
    (hfault : ∀ fault, error ≠ .accumulator fault) : error.OfEvaluation := by
  cases h with
  | overflow a l r => exact .overflow a l r
  | sumOverflow v => exact absurd rfl (hfault _)
  | divisionByZero => exact .divisionByZero
  | failedCast v t => exact .failedCast v t
  | unsupportedCast t => exact .unsupportedCast t
  | notANumber h => exact .notANumber h

def Blameless {α : Type} (x : Except Error α) : Prop := ∀ fault, x ≠ .error (.accumulator fault)

namespace Blameless
variable {α β : Type} {x : Except Error α}

@[simp] theorem ok (a : α) : Blameless (.ok a) := by simp [Blameless]

@[simp] theorem execution (fault : ExecutionFault) :
    Blameless (.error (.execution fault) : Except Error α) := by simp [Blameless]

@[simp] theorem unsupported (fault : UnsupportedFault) :
    Blameless (.error (.unsupported fault) : Except Error α) := by simp [Blameless]

theorem bind (h : Blameless x) {f : α → Except Error β} (hf : ∀ a, Blameless (f a)) :
    Blameless (x >>= f) := by
  cases x with
  | ok a => exact hf a
  | error e =>
    intro fault heq
    cases heq
    exact h fault rfl

end Blameless

theorem Value.castTo_blameless (v : Value) (t : DataType) : Blameless (v.castTo t) := by
  unfold castTo
  split
  · exact .ok _
  · split
    · exact .unsupported _
    · split
      · exact .ok _
      · exact .execution _

namespace Compiled
open Value
variable {c : Compiled} {cs : List Compiled} {row : Row}

theorem truth?_blameless (what : String) (v : Value) : Blameless (truth? what v) := by
  cases v <;> simp [truth?]

theorem compareValues_blameless (k : Comparison) (x y : Value) :
    Blameless (compareValues k x y) := by
  unfold compareValues
  split <;> simp

theorem floatArith_blameless (a : Arithmetic) (x y : Binary64) :
    Blameless (floatArith a x y) := by
  cases a <;> simp only [floatArith, Blameless.ok]
  split <;> simp

theorem intArith_blameless (a : Arithmetic) (x y : Int) : Blameless (intArith a x y) := by
  cases a <;> simp [intArith]

theorem arithValues_blameless (a : Arithmetic) (out : DataType) (x y : Value) :
    Blameless (arithValues a out x y) := by
  unfold arithValues
  split
  case h_1 | h_2 =>
    split
    · exact (floatArith_blameless a _ _).bind fun z => castTo_blameless _ _
    · exact .execution _
  case h_3 | h_4 =>
    split
    · refine (intArith_blameless a _ _).bind fun n => ?_
      split
      · split <;> simp
      · exact .execution _
    · exact .execution _
  · exact .unsupported _

def Clear (c : Compiled) : Prop := ∀ row, Blameless (c.eval row)

theorem evalJunction_blameless (what : String) (neutral sawNull : Bool)
    (hcs : ∀ c ∈ cs, c.Clear) : Blameless (evalJunction what neutral sawNull row cs) := by
  induction cs generalizing sawNull with
  | nil => exact .ok _
  | cons c rest ih =>
    obtain ⟨hc, hrest⟩ := List.forall_mem_cons.1 hcs
    unfold evalJunction
    refine (hc row).bind fun v => (truth?_blameless what v).bind fun b => ?_
    split
    · split
      · exact ih sawNull hrest
      · exact .ok _
    · exact ih true hrest

theorem evalIn_blameless (probe : Value) (sawNull : Bool) (hcs : ∀ c ∈ cs, c.Clear) :
    Blameless (evalIn probe sawNull row cs) := by
  induction cs generalizing sawNull with
  | nil => exact .ok _
  | cons c rest ih =>
    obtain ⟨hc, hrest⟩ := List.forall_mem_cons.1 hcs
    unfold evalIn
    refine (hc row).bind fun v => ?_
    split
    · exact ih true hrest
    · split
      · exact .ok _
      · exact ih sawNull hrest

theorem evalCase_blameless (out : DataType) (hcs : ∀ c ∈ cs, c.Clear) :
    Blameless (evalCase out row cs) := by
  -- by the pairs of a condition and a result
  induction cs using evalCase.induct with
  | case1 condition result rest ih =>
    obtain ⟨hcondition, hcs⟩ := List.forall_mem_cons.1 hcs
    obtain ⟨hresult, hrest⟩ := List.forall_mem_cons.1 hcs
    unfold evalCase
    refine (hcondition row).bind fun v => (truth?_blameless _ v).bind fun b => ?_
    split
    · exact (hresult row).bind fun w => castTo_blameless w out
    · exact ih hrest
  | case2 otherwise =>
    exact (hcs otherwise List.mem_cons_self row).bind fun v => castTo_blameless v out
  | case3 => exact .ok _

theorem evalCoalesce_blameless (out : DataType) (hcs : ∀ c ∈ cs, c.Clear) :
    Blameless (evalCoalesce out row cs) := by
  induction cs with
  | nil => exact .ok _
  | cons c rest ih =>
    obtain ⟨hc, hrest⟩ := List.forall_mem_cons.1 hcs
    unfold evalCoalesce
    refine (hc row).bind fun v => ?_
    split
    · exact ih hrest
    · exact castTo_blameless v out

theorem binary_clear {l r : Compiled} {out : DataType} {f : Value → Value → Except Error Value}
    (hl : l.Clear) (hr : r.Clear) (hf : ∀ x y, Blameless (f x y)) : (binary out f l r).Clear := by
  intro row
  refine (hl row).bind fun x => (hr row).bind fun y => ?_
  split
  · exact .ok _
  · exact hf x y

theorem clear_of_call {op : Op} {out : DataType} (hcs : ∀ c ∈ cs, c.Clear)
    (h : call op cs out = .ok c) : c.Clear := by
  have hfirst : ∀ {first rest}, cs = first :: rest → first.Clear :=
    fun heq => hcs _ (heq ▸ List.mem_cons_self)
  have hsecond : ∀ {first second rest}, cs = first :: second :: rest → second.Clear :=
    fun heq => hcs _ (heq ▸ List.mem_cons_of_mem _ List.mem_cons_self)
  unfold call at h
  split at h
  case h_1 k _ _ =>
    cases h
    exact binary_clear (hfirst rfl) (hsecond rfl) (compareValues_blameless _)
  case h_2 =>
    cases h
    exact binary_clear (hfirst rfl) (hsecond rfl) (arithValues_blameless _ _)
  case h_3 | h_4 =>
    cases h
    exact fun row => evalJunction_blameless _ _ _ hcs
  case h_5 =>
    cases h
    exact fun row => (hfirst rfl row).bind fun v => (truth?_blameless _ v).bind fun b => .ok _
  case h_6 | h_7 =>
    cases h
    exact fun row => (hfirst rfl row).bind fun v => .ok _
  case h_8 probe c rest =>
    cases h
    refine fun row => (hfirst rfl row).bind fun v => ?_
    split
    · exact .ok _
    · exact evalIn_blameless v false fun c hc => hcs c (List.mem_cons_of_mem _ hc)
  case h_9 =>
    split at h
    · cases h
    · cases h
      exact fun row => evalCase_blameless out hcs
  case h_10 =>
    cases h
    exact fun row => evalCoalesce_blameless out hcs
  case h_11 =>
    cases h
    exact fun row => (hfirst rfl row).bind fun v => castTo_blameless v out
  case h_12 => cases h

end Compiled

namespace Expr
variable {schema : Schema} {e : Expr} {c : Compiled}

/-- Compiled code never blames an accumulator, of whatever types its operands are. -/
theorem clear_of_compile (h : e.compile schema = .ok c) : c.Clear := by
  induction e using operandInduction generalizing c with
  | literal v t =>
    cases h
    exact fun _ => .ok v
  | column i t =>
    simp only [compile] at h
    split at h
    · cases h
    · cases h
      intro row
      simp only
      split <;> simp
  | call op operands t ih =>
    simp only [compile, bind_eq_ok, compileAll_eq_ok] at h
    obtain ⟨cs, hcs, hcall⟩ := h
    refine Compiled.clear_of_call (fun c hc => ?_) hcall
    obtain ⟨o, ho, hcompile⟩ := forall₂_exists_mem hcs hc
    exact ih o ho hcompile
  | correlation id t => cases h
  | tableColumn table i t => cases h

/-- An expression that the checked constructors make over a schema compiles there, and over any
row of the schema it is null, or a value of its type, or fails for the data it is given. -/
theorem Built.evaluates (h : Built schema e) :
    ∃ c, e.compile schema = .ok c ∧ c.type = e.dataType ∧
      ∀ row : Row, row.Conforms schema →
        (∃ v, c.eval row = .ok v ∧ v.Conforms e.dataType) ∨
          ∃ error, c.eval row = .error error ∧ error.OfEvaluation := by
  obtain ⟨c, hcompile, htype, hsound⟩ := h.compiles
  refine ⟨c, hcompile, htype, fun row hrow => ?_⟩
  have hyields := hsound row hrow
  have hclear := clear_of_compile hcompile row
  cases heval : c.eval row with
  | ok v =>
    rw [heval, htype] at hyields
    exact .inl ⟨v, rfl, hyields⟩
  | error error =>
    rw [heval] at hyields hclear
    exact .inr ⟨error, rfl, hyields.ofEvaluation fun fault heq => hclear fault (heq ▸ rfl)⟩

theorem evaluates_guarded_quotient :
    let schema : Schema := [⟨"a", ⟨.int32, true⟩, {}⟩, ⟨"b", .int64 true, {}⟩]
    let a : Expr := .column 0 ⟨.int32, true⟩
    let b : Expr := .column 1 (.int64 true)
    let missing : Expr := .call .isNull [a] (.boolean false)
    let quotient : Expr := .call (.arith .divide) [a, b] (.float64 true)
    let e : Expr := .call .case [missing, b, quotient] (.float64 true)
    Built schema e ∧ ∃ c, e.compile schema = .ok c ∧ c.type = .float64 ∧
      ∀ row : Row, row.Conforms schema →
        (∃ v, c.eval row = .ok v ∧ v.Conforms .float64) ∨
          ∃ error, c.eval row = .error error ∧ error.OfEvaluation := by
  intro schema a b missing quotient e
  have ha : Built schema a := .column (i := 0) rfl
  have hb : Built schema b := .column (i := 1) rfl
  have hisNull : mkCall .isNull [a] = .ok missing := rfl
  have hmissing : Built schema missing := .call hisNull (by simp [ha])
  have hdivide : mkCall (.arith .divide) [a, b] = .ok quotient := rfl
  have hquotient : Built schema quotient := .call hdivide (by simp [ha, hb])
  have htyped : mkCall .case [missing, b, quotient] = .ok e := by
    simp only [e, missing, quotient, a, b]
    rfl
  have he : Built schema e := .call htyped (by simp [hmissing, hb, hquotient])
  exact ⟨he, he.evaluates⟩

end Expr
end Relational
