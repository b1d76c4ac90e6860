import Relational.Proofs.Expr.Evaluation

/-!
# Substitution

An expression over replaced columns has on one row the outcome that the expression itself has on
another, where every replacement has the outcome of the column that it replaces.
-/
namespace Relational

namespace Compiled
variable {row row' : Row} {cs cs' : List Compiled} {x y : Except Error Compiled}

def Matches (row row' : Row) (c c' : Compiled) : Prop := c.eval row = c'.eval row'

/-- Neither compiles, for the same reason, or both have the same outcome. -/
inductive Agree (row row' : Row) : Except Error Compiled → Except Error Compiled → Prop
  | error (e : Error) : Agree row row' (.error e) (.error e)
  | ok {c c' : Compiled} (h : Matches row row' c c') : Agree row row' (.ok c) (.ok c')

theorem Agree.outcome (h : Agree row row' x y) :
    (x >>= fun c => c.eval row) = y >>= fun c => c.eval row' := by
  cases h with
  | error e => rfl
  | ok h => exact h

theorem Matches.binary {l l' r r' : Compiled} (hl : Matches row row' l l')
    (hr : Matches row row' r r') (out : DataType) (f : Value → Value → Except Error Value) :
    Matches row row' (binary out f l r) (binary out f l' r') := by
  rw [Matches] at hl hr
  simp only [Matches, Compiled.binary, hl, hr]

variable (h : List.Forall₂ (Matches row row') cs cs')
include h

theorem evalJunction_congr (what : String) (neutral sawNull : Bool) :
    evalJunction what neutral sawNull row cs = evalJunction what neutral sawNull row' cs' := by
  induction h generalizing sawNull with
  | nil => rfl
  | cons hc _ ih =>
    rw [Matches] at hc
    simp only [evalJunction, hc, ih]

theorem evalIn_congr (probe : Value) (sawNull : Bool) :
    evalIn probe sawNull row cs = evalIn probe sawNull row' cs' := by
  induction h generalizing sawNull with
  | nil => rfl
  | cons hc _ ih =>
    rw [Matches] at hc
    simp only [evalIn, hc, ih]

theorem evalCoalesce_congr (out : DataType) :
    evalCoalesce out row cs = evalCoalesce out row' cs' := by
  induction h with
  | nil => rfl
  | cons hc _ ih =>
    rw [Matches] at hc
    simp only [evalCoalesce, hc, ih]

theorem evalCase_congr (out : DataType) : evalCase out row cs = evalCase out row' cs' := by
  induction cs using evalCase.induct generalizing cs' with
  | case1 condition result rest ih =>
    obtain _ | ⟨hcondition, _ | ⟨hresult, hrest⟩⟩ := h
    rw [Matches] at hcondition hresult
    simp only [evalCase, hcondition, hresult, ih hrest]
  | case2 otherwise =>
    obtain _ | ⟨hotherwise, _ | _⟩ := h
    rw [Matches] at hotherwise
    simp only [evalCase, hotherwise]
  | case3 =>
    cases h
    rfl

theorem call_agree (op : Op) (out : DataType) :
    Agree row row' (call op cs out) (call op cs' out) := by
  have hlength := h.length_eq
  cases op with
  | compare | arith =>
    obtain _ | ⟨hl, _ | ⟨hr, _ | ⟨_, _⟩⟩⟩ := h
    · exact .error _
    · exact .error _
    · exact .ok (hl.binary hr out _)
    · simp only [call, hlength]
      exact .error _
  | and | or => exact .ok (evalJunction_congr h _ _ _)
  | not | isNull | isNotNull | cast =>
    obtain _ | ⟨hc, _ | ⟨_, _⟩⟩ := h
    · exact .error _
    · rw [Matches] at hc
      refine .ok ?_
      simp only [Matches, hc]
    · simp only [call, hlength]
      exact .error _
  | isIn =>
    obtain _ | ⟨hprobe, hrest⟩ := h
    · exact .error _
    · have hin := evalIn_congr hrest
      obtain _ | ⟨_, _⟩ := hrest
      · exact .error _
      · rw [Matches] at hprobe
        refine .ok ?_
        simp only [Matches, hprobe, hin]
  | case =>
    have hcase := evalCase_congr h out
    simp only [call, hlength]
    split
    · exact .error _
    · exact .ok hcase
  | coalesce => exact .ok (evalCoalesce_congr h out)

end Compiled

namespace Expr
open Compiled

mutual
def tables : Expr → List TableOccurrence
  | tableColumn table _ _ => [table]
  | call _ operands _ => tablesOf operands
  | _ => []

def tablesOf : List Expr → List TableOccurrence
  | [] => []
  | e :: rest => e.tables ++ tablesOf rest
end

mutual
def overTable : Expr → Expr
  | tableColumn _ i t => column i t
  | call op operands t => call op (overTableAll operands) t
  | e => e

def overTableAll : List Expr → List Expr
  | [] => []
  | e :: rest => e.overTable :: overTableAll rest
end

inductive Over (width : Nat) : Expr → Prop
  | literal (v : Value) (t : SqlType) : Over width (.literal v t)
  | column {i : Nat} (h : i < width) (t : SqlType) : Over width (.column i t)
  | call {operands : List Expr} (op : Op) (h : ∀ o ∈ operands, Over width o) (t : SqlType) :
    Over width (.call op operands t)

variable {ε : Type} {f : Nat → SqlType → Except ε Expr} {e e' : Expr} {es es' : List Expr}
  {row row' : Row} {schema schema' : Schema} {width width' : Nat} {r : Nat × SqlType}
  {table : TableOccurrence}

theorem readingsOf_eq_flatMap : readingsOf es = es.flatMap readings := by
  induction es with
  | nil => rfl
  | cons e rest ih => rw [readingsOf, List.flatMap_cons, ih]

theorem tablesOf_eq_flatMap : tablesOf es = es.flatMap tables := by
  induction es with
  | nil => rfl
  | cons e rest ih => rw [tablesOf, List.flatMap_cons, ih]

theorem overTableAll_eq_map : overTableAll es = es.map overTable := by
  induction es with
  | nil => rfl
  | cons e rest ih => rw [overTableAll, List.map_cons, ih]

theorem mem_readings_call {op : Op} {t : SqlType} (he : e ∈ es) (hr : r ∈ e.readings) :
    r ∈ (call op es t).readings := by
  rw [readings, readingsOf_eq_flatMap]
  exact List.mem_flatMap.2 ⟨e, he, hr⟩

theorem substituteAll_eq_mapM : substituteAll f es = es.mapM (substitute f) := by
  induction es with
  | nil => rfl
  | cons e rest ih => simp only [substituteAll, List.mapM_cons, ih]

theorem substitute_call_eq_ok {op : Op} {t : SqlType} :
    (call op es t).substitute f = .ok e' ↔
      ∃ es', List.Forall₂ (fun e e' => e.substitute f = .ok e') es es' ∧ e' = call op es' t := by
  simp only [substitute, bind_eq_ok, substituteAll_eq_mapM, mapM_eq_ok, pure_eq_ok,
    Except.ok.injEq]
  exact exists_congr fun _ => and_congr_right' eq_comm

theorem compileAll_agree
    (h : List.Forall₂ (fun e e' => Agree row row' (e.compile schema) (e'.compile schema'))
      es es') :
    (∃ error, compileAll schema es = .error error ∧ compileAll schema' es' = .error error) ∨
      ∃ cs cs', compileAll schema es = .ok cs ∧ compileAll schema' es' = .ok cs' ∧
        List.Forall₂ (Matches row row') cs cs' := by
  induction h with
  | nil => exact .inr ⟨[], [], rfl, rfl, .nil⟩
  | @cons e e' es es' he _ ih =>
    simp only [compileAll]
    generalize e.compile schema = x, e'.compile schema' = x' at he
    cases he with
    | error error => exact .inl ⟨error, rfl, rfl⟩
    | @ok c c' hc =>
      rcases ih with ⟨error, hes, hes'⟩ | ⟨cs, cs', hes, hes', hcs⟩
      · exact .inl ⟨error, by rw [hes]; rfl, by rw [hes']; rfl⟩
      · exact .inr ⟨c :: cs, c' :: cs', by rw [hes]; rfl, by rw [hes']; rfl, .cons hc hcs⟩

/-- By induction over the expression: a call of operands that agree agrees. -/
theorem compile_agree (h : e.substitute f = .ok e')
    (hf : ∀ r ∈ e.readings, ∀ d, f r.1 r.2 = .ok d →
      Agree row row' ((column r.1 r.2).compile schema) (d.compile schema')) :
    Agree row row' (e.compile schema) (e'.compile schema') := by
  induction e using operandInduction generalizing e' with
  | literal v t =>
    cases h
    exact .ok rfl
  | column i t => exact hf (i, t) (List.mem_singleton_self _) e' h
  | call op operands t ih =>
    obtain ⟨operands', hoperands, rfl⟩ := substitute_call_eq_ok.1 h
    have hagree : List.Forall₂
        (fun o o' => Agree row row' (o.compile schema) (o'.compile schema')) operands operands' :=
      forall₂_imp_of_mem hoperands fun o ho _ h =>
        ih o ho h fun r hr => hf r (mem_readings_call ho hr)
    simp only [compile]
    rcases compileAll_agree hagree with ⟨error, ho, ho'⟩ | ⟨cs, cs', ho, ho', hcs⟩
    · rw [ho, ho']
      exact .error error
    · rw [ho, ho']
      exact call_agree hcs op t.dataType
  | correlation | tableColumn =>
    cases h
    exact .error _

theorem evaluate_substitute (h : e.substitute f = .ok e')
    (hf : ∀ r ∈ e.readings, ∀ d, f r.1 r.2 = .ok d →
      Agree row row' ((column r.1 r.2).compile schema) (d.compile schema')) :
    e.evaluate schema row = e'.evaluate schema' row' :=
  (compile_agree h hf).outcome

theorem substitute_eq_self (h : ∀ r ∈ e.readings, f r.1 r.2 = .ok (column r.1 r.2)) :
    e.substitute f = .ok e := by
  induction e using operandInduction with
  | column i t => exact h (i, t) (List.mem_singleton_self _)
  | call op operands t ih =>
    refine substitute_call_eq_ok.2 ⟨operands, List.forall₂_same.2 fun o ho => ?_, rfl⟩
    exact ih o ho fun r hr => h r (mem_readings_call ho hr)
  | _ => rfl

theorem evaluate_congr (h : ∀ r ∈ e.readings, Agree row row' ((column r.1 r.2).compile schema)
    ((column r.1 r.2).compile schema')) : e.evaluate schema row = e.evaluate schema' row' := by
  have hself : e.substitute (fun i t => (.ok (column i t) : Except Error Expr)) = .ok e :=
    substitute_eq_self fun _ _ => rfl
  refine evaluate_substitute hself fun r hr d hd => ?_
  cases hd
  exact h r hr

theorem exists_of_substitute (h : e.substitute f = .ok e') :
    ∀ r ∈ e.readings, ∃ d, f r.1 r.2 = .ok d := by
  induction e using operandInduction generalizing e' with
  | column i t => exact List.forall_mem_singleton.2 ⟨e', h⟩
  | call op operands t ih =>
    obtain ⟨operands', hoperands, -⟩ := substitute_call_eq_ok.1 h
    rw [readings, readingsOf_eq_flatMap]
    intro r hr
    obtain ⟨o, ho, hr⟩ := List.mem_flatMap.1 hr
    obtain ⟨o', -, ho'⟩ := forall₂_exists_mem (R := fun o' o => o.substitute f = .ok o')
      hoperands.flip ho
    exact ih o ho ho' r hr
  | _ => exact fun r hr => absurd hr List.not_mem_nil

theorem exists_substitute (h : ∀ r ∈ e.readings, ∃ d, f r.1 r.2 = .ok d) :
    ∃ e', e.substitute f = .ok e' := by
  induction e using operandInduction with
  | column i t => exact h (i, t) (List.mem_singleton_self _)
  | call op operands t ih =>
    obtain ⟨operands', hoperands⟩ := exists_forall₂ fun o ho =>
      ih o ho fun r hr => h r (mem_readings_call ho hr)
    exact ⟨_, substitute_call_eq_ok.2 ⟨operands', hoperands, rfl⟩⟩
  | _ => exact ⟨_, rfl⟩

theorem substitute_congr {ε' : Type} {g : Nat → SqlType → Except ε' Expr}
    (h : e.substitute f = .ok e')
    (hg : ∀ r ∈ e.readings, ∀ d, f r.1 r.2 = .ok d → g r.1 r.2 = .ok d) :
    e.substitute g = .ok e' := by
  induction e using operandInduction generalizing e' with
  | column i t => exact hg (i, t) (List.mem_singleton_self _) e' h
  | call op operands t ih =>
    obtain ⟨operands', hoperands, rfl⟩ := substitute_call_eq_ok.1 h
    refine substitute_call_eq_ok.2 ⟨operands', ?_, rfl⟩
    exact forall₂_imp_of_mem hoperands fun o ho _ h =>
      ih o ho h fun r hr => hg r (mem_readings_call ho hr)
  | _ =>
    cases h
    rfl

theorem evaluate_column {i : Nat} {t : SqlType} {v : Value} (hi : i < schema.length)
    (hv : row[i]? = some v) : (column i t).evaluate schema row = .ok v := by
  simp only [evaluate, compile, List.getElem?_eq_getElem hi, ok_bind, hv]

theorem column_agree {i : Nat} {t : SqlType} {v : Value} (hi : i < schema.length)
    (hv : row[i]? = some v) (h : e.evaluate schema' row' = .ok v) :
    Agree row row' ((column i t).compile schema) (e.compile schema') := by
  obtain ⟨c, hc, heval⟩ := evaluate_eq_ok.1 (evaluate_column (t := t) hi hv)
  obtain ⟨c', hc', heval'⟩ := evaluate_eq_ok.1 h
  rw [hc, hc']
  exact .ok (heval.trans heval'.symm)

theorem over_of_compile {c : Compiled} (h : e.compile schema = .ok c) : e.Over schema.length := by
  induction e using operandInduction generalizing c with
  | literal v t => exact .literal v t
  | column i t =>
    simp only [compile] at h
    split at h
    · cases h
    next hfield => exact .column (List.getElem?_eq_some_iff.1 hfield).1 t
  | call op operands t ih =>
    simp only [compile, bind_eq_ok, compileAll_eq_ok] at h
    obtain ⟨cs, hcs, -⟩ := h
    refine .call op (fun o ho => ?_) t
    obtain ⟨c, -, hc⟩ := forall₂_exists_mem (R := fun c o => o.compile schema = .ok c) hcs.flip ho
    exact ih o ho hc
  | correlation | tableColumn => cases h

theorem Over.reading (h : e.Over width) : ∀ r ∈ e.readings, r.1 < width := by
  induction h with
  | literal => exact fun r hr => absurd hr List.not_mem_nil
  | column hi t => exact List.forall_mem_singleton.2 hi
  | call op _ t ih =>
    rw [readings, readingsOf_eq_flatMap]
    intro r hr
    obtain ⟨o, ho, hr⟩ := List.mem_flatMap.1 hr
    exact ih o ho r hr

theorem Over.substitute (h : e.Over width) (he : e.substitute f = .ok e')
    (hf : ∀ r ∈ e.readings, ∀ d, f r.1 r.2 = .ok d → d.Over width') : e'.Over width' := by
  induction h generalizing e' with
  | literal v t =>
    cases he
    exact .literal v t
  | @column i _ t => exact hf (i, t) (List.mem_singleton_self _) e' he
  | call op _ t ih =>
    obtain ⟨operands', hoperands, rfl⟩ := substitute_call_eq_ok.1 he
    refine .call op (fun o' ho' => ?_) t
    obtain ⟨o, ho, hsubstitute⟩ := forall₂_exists_mem hoperands ho'
    exact ih o ho hsubstitute fun r hr => hf r (mem_readings_call ho hr)

theorem Over.evaluate_eq (h : e.Over schema.length) (hwidth : schema.length = schema'.length)
    (row : Row) : e.evaluate schema row = e.evaluate schema' row := by
  refine evaluate_congr fun r hr => ?_
  have hr := h.reading r hr
  simp only [compile, List.getElem?_eq_getElem hr, List.getElem?_eq_getElem (hwidth ▸ hr)]
  exact .ok rfl

/-- Where the replacements have the values of the columns, the outcome stays. -/
theorem Over.evaluate_substitute (h : e.Over schema.length) (he : e.substitute f = .ok e')
    (hf : ∀ r ∈ e.readings, ∀ d, f r.1 r.2 = .ok d →
      ∃ v, row[r.1]? = some v ∧ d.evaluate schema' row' = .ok v) :
    e'.Over schema'.length ∧ e.evaluate schema row = e'.evaluate schema' row' := by
  constructor
  · refine h.substitute he fun r hr d hd => ?_
    obtain ⟨v, -, hv⟩ := hf r hr d hd
    obtain ⟨c, hc, -⟩ := evaluate_eq_ok.1 hv
    exact over_of_compile hc
  · refine Expr.evaluate_substitute he fun r hr d hd => ?_
    obtain ⟨v, hrow, hv⟩ := hf r hr d hd
    exact column_agree (h.reading r hr) hrow hv

theorem Over.tables (h : e.Over width) : e.tables = [] := by
  induction h with
  | literal | column => rfl
  | call op _ t ih =>
    rw [Expr.tables, tablesOf_eq_flatMap]
    exact List.flatMap_eq_nil_iff.2 ih

structure Placed (table : TableOccurrence) (e e' : Expr) : Prop where
  readings : e'.readings = []
  tables : ∀ t ∈ e'.tables, t = table
  overTable : e'.overTable = e

theorem Over.placed (h : e.Over width) (he : e.substitute f = .ok e')
    (hf : ∀ i t d, f i t = .ok d → d = tableColumn table i t) : Placed table e e' := by
  induction h generalizing e' with
  | literal v t =>
    cases he
    exact ⟨rfl, by simp [Expr.tables], rfl⟩
  | @column i _ t =>
    obtain rfl := hf i t e' he
    exact ⟨rfl, by simp [Expr.tables], rfl⟩
  | @call operands op _ t ih =>
    obtain ⟨operands', hoperands, rfl⟩ := substitute_call_eq_ok.1 he
    have hplaced : List.Forall₂ (Placed table) operands operands' :=
      forall₂_imp_of_mem hoperands fun o ho _ h => ih o ho h
    constructor
    · rw [Expr.readings, readingsOf_eq_flatMap]
      exact List.flatMap_eq_nil_iff.2 fun o' ho' =>
        (forall₂_exists_mem hplaced ho').elim fun o ho => ho.2.readings
    · rw [Expr.tables, tablesOf_eq_flatMap]
      intro occurrence hmem
      obtain ⟨o', ho', hmem⟩ := List.mem_flatMap.1 hmem
      obtain ⟨o, -, ho⟩ := forall₂_exists_mem hplaced ho'
      exact ho.tables occurrence hmem
    · have hcolumns : List.Forall₂ (· = ·) (operands'.map Expr.overTable) operands :=
        List.forall₂_map_left_iff.2 (hplaced.imp fun _ _ ho => ho.overTable).flip
      rw [List.forall₂_eq_eq_eq] at hcolumns
      rw [Expr.overTable, overTableAll_eq_map, hcolumns]

end Expr
end Relational
