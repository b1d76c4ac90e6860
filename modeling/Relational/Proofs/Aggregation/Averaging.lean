import Relational.Proofs.Aggregation.Combining
import Relational.Proofs.Binary.Counting

/-!
# Averages

The program of an average counts the values that contribute, and divides by their number only where
there are some, so that it divides by zero for no rows.
-/
namespace Relational

namespace Value

theorem toInt_of_int64? {m : Int} {n : Int64} (h : Integer.int64? m = some n) : n.toInt = m := by
  unfold Integer.int64? at h
  split at h
  next hbounds =>
    cases h
    exact Int64.toInt_ofInt_of_le hbounds.1 (Int.lt_of_le_sub_one hbounds.2)
  · cases h

theorem int64?_eq_none {m : Int} :
    Integer.int64? m = none ↔ m < -2 ^ 63 ∨ 2 ^ 63 ≤ m := by
  unfold Integer.int64? Integer.least64 Integer.greatest64
  split <;> simp <;> omega

theorem ofInt_equals_zero {n : Int} (hn : 0 < n) :
    (Binary.Word.ofInt n : Binary64).equals 0 = false := by
  have hone : (Binary.Word.ofInt n : Binary64).AtLeast (1 : Nat) :=
    Binary.Word.ofInt_atLeast (by norm_num) hn
  exact Binary.Word.equals_eq_false (hone.zero_lt (by norm_num))

end Value

namespace Program
open Relational.Expr Value
variable {input : Schema} {arg : Nat} {argument : Field} {row : Row} {v sum : Value} {n : Int64}

def started (sum : Value) : Value := if sum.isNull then .float64 0 else sum

theorem exists_started (h : sum.Conforms .float64) : ∃ y, started sum = .float64 y := by
  by_cases hnull : sum = .null
  · exact ⟨0, by rw [hnull]; rfl⟩
  · rcases h.cases hnull with h | ⟨-, h⟩
    · cases sum <;> cases h
      exact ⟨_, rfl⟩
    · cases h

theorem averageAdd_means (harg : input[arg]? = some argument) (hrow : row.Conforms input)
    (hv : row[arg]? = some v) (hsum : sum.Conforms .float64) {x : Value}
    (hx : v.castTo .float64 = .ok x) :
    ∃ addSum addCount, averageAdd input arg = .ok [addSum, addCount] ∧
      Means (input ++ averageState) (row ++ [sum, .int64 n]) addSum .float64
        ((if v.isNull then .ok sum else if (started sum).isNull || x.isNull then .ok .null
          else Compiled.arithValues .plus .float64 (started sum) x) >>= (·.castTo .float64)) ∧
      Means (input ++ averageState) (row ++ [sum, .int64 n]) addCount .int64
        ((if v.isNull then .ok (.int64 n)
          else Compiled.arithValues .plus .int64 (.int64 n) (.int64 1)) >>= (·.castTo .int64)) := by
  have hlength := hrow.length_eq
  have hlt : arg < input.length := (List.getElem?_eq_some_iff.1 harg).1
  have hstarted : (started sum).Conforms .float64 := by
    unfold started
    split
    · exact conforms_dataType (.float64 0)
    · exact hsum
  obtain ⟨e, he, mx⟩ := means_column (input ++ averageState) (row ++ [sum, .int64 n])
    (by rw [List.getElem?_append_left hlt, harg])
    (by rw [List.getElem?_append_left (hlength ▸ hlt), hv])
  obtain ⟨total, htotal, msum⟩ := means_column (input ++ averageState)
    (row ++ [sum, .int64 n]) (i := input.length) (v := sum)
    (by rw [List.getElem?_append_right le_rfl, Nat.sub_self]; rfl) (by simp [← hlength])
  obtain ⟨count, hcount, mcount⟩ := means_column (input ++ averageState)
    (row ++ [sum, .int64 n]) (i := input.length + 1) (v := .int64 n)
    (by rw [List.getElem?_append_right (Nat.le_add_right _ _), Nat.add_sub_cancel_left]; rfl)
    (by simp [← hlength])
  obtain ⟨nullX, hnullX, mnullX⟩ := means_isNull mx
  obtain ⟨start, hstart, mstart⟩ := means_coalesce msum (means_literal (.float64 0))
  change Means _ _ start .float64 ((started sum).castTo .float64) at mstart
  rw [castTo_self hstarted] at mstart
  have mcast := means_cast mx .float64
  rw [hx] at mcast
  obtain ⟨more, hmore, mmore⟩ := means_arith mstart mcast plus_float
  obtain ⟨addSum, haddSum, maddSum⟩ := means_choice mnullX msum mmore
  obtain ⟨next, hnext, mnext⟩ := means_arith mcount (means_literal (.int64 1)) plus_integer
  obtain ⟨addCount, haddCount, maddCount⟩ := means_choice mnullX mcount mnext
  refine ⟨addSum, addCount, ?_, maddSum, maddCount⟩
  simp only [averageAdd, he, htotal, hcount, hnullX, hstart, hmore, haddSum, hnext, haddCount,
    ok_bind, pure_eq_ok]

theorem averageResult_evaluates (sum : Value) (n : Int64) : ∃ e, averageResult = .ok e ∧
    (n.toInt = 0 → e.evaluate averageState [sum, .int64 n] = .ok .null) ∧
    ∀ x, 0 < n.toInt → sum = .float64 x →
      ∃ z, e.evaluate averageState [sum, .int64 n] = .ok (.float64 z) := by
  obtain ⟨total, htotal, mtotal⟩ := means_column averageState [sum, .int64 n]
    (i := 0) (v := sum) rfl rfl
  obtain ⟨number, hnumber, mnumber⟩ := means_column averageState [sum, .int64 n]
    (i := 1) (v := .int64 n) rfl rfl
  obtain ⟨isZero, hisZero, misZero⟩ := means_compare .eq mnumber (means_literal (.int64 0)) rfl
  have hmissing : mkTypedLiteral .null (.float64 true) = .ok (.literal .null (.float64 true)) := rfl
  have mmissing : Means averageState [sum, .int64 n] (.literal .null (.float64 true)) .float64
      (.ok .null) := ⟨⟨.typedLiteral hmissing, rfl⟩, rfl⟩
  have mcast := means_cast mnumber .float64
  obtain ⟨quotient, hquotient, mquotient⟩ := means_arith mtotal mcast
    (show arithmeticType .divide .float64 .float64 = .ok .float64 from rfl)
  obtain ⟨result, hresult, mresult⟩ := means_choice misZero mmissing mquotient
  refine ⟨result, ?_, fun hn => ?_, ?_⟩
  · simp only [averageResult, htotal, hnumber, hisZero, hmissing, hquotient, hresult, ok_bind]
  · have hcompare : compare n.toInt (0 : Int64).toInt = .eq := compare_eq_iff_eq.2 hn
    rw [mresult.value, hcompare]
    rfl
  · rintro x hn rfl
    have hcompare : compare n.toInt (0 : Int64).toInt = .gt := compare_gt_iff_gt.2 hn
    have hquotient : Compiled.arithValues .divide .float64 (.float64 x)
        (.float64 (.ofInt n.toInt)) = .ok (.float64 (x / .ofInt n.toInt)) := by
      simp only [Compiled.arithValues, number?, Compiled.floatArith, ofInt_equals_zero hn]
      rfl
    refine ⟨x / .ofInt n.toInt, ?_⟩
    rw [mresult.value, hcompare]
    exact congrArg (· >>= (·.castTo .float64)) hquotient

variable {p : Program} {s : Source}

theorem average_eq_ok (h : average input arg = .ok s) : s.state = averageState ∧
    s.start = [.null, .int64 0] ∧ averageAdd input arg = .ok s.add ∧
      averageResult = .ok s.result := by
  simp only [average, bind_eq_ok, pure_eq_ok, Except.ok.injEq] at h
  obtain ⟨add, hadd, merge, -, result, hresult, rfl⟩ := h
  exact ⟨rfl, rfl, hadd, hresult⟩

theorem plus_int64 (m n : Int64) : Compiled.arithValues .plus .int64 (.int64 m) (.int64 n) =
    match Integer.int64? (m.toInt + n.toInt) with
    | some total => .ok (.int64 total)
    | none => .error (.execution (.overflow .plus m.toInt n.toInt)) := by
  cases htotal : Integer.int64? (m.toInt + n.toInt) with
  | none => simp [Compiled.arithValues, integer?, Compiled.intArith, htotal]
  | some total =>
    have hcast : (Value.int64 total).castTo? .int64 = some (.int64 total) := by
      simp [castTo?, castInteger?, integer?, int64?_toInt]
    simp [Compiled.arithValues, integer?, Compiled.intArith, htotal, hcast]

section Step
variable (hs : average input arg = .ok s) (hp : Compiles input s p)
  (harg : input[arg]? = some argument) (hrow : row.Conforms input)
include hs hp harg hrow

theorem average_pass (hv : row[arg]? = some .null) (hsum : sum.Conforms .float64) :
    step p.add (row ++ [sum, .int64 n]) = .ok [sum, .int64 n] := by
  obtain ⟨hstate, -, hadd, -⟩ := average_eq_ok hs
  obtain ⟨addSum, addCount, hboth, msum, mcount⟩ :=
    averageAdd_means (n := n) harg hrow hv hsum (null_castTo .float64)
  have hadds : s.add = [addSum, addCount] := Except.ok.inj (hadd.symm.trans hboth)
  have hcode := hp.add
  rw [hstate, hadds] at hcode
  have hkeepsSum : sum.castTo .float64 = .ok sum := castTo_self hsum
  have hkeepsCount : (Value.int64 n).castTo .int64 = .ok (.int64 n) :=
    castTo_self (conforms_dataType (.int64 n))
  rw [step_eq_mapM hcode]
  simp [msum.value, mcount.value, hkeepsSum, hkeepsCount]

theorem average_take {v : Value} {y z : Binary64} (hv : row[arg]? = some v) (hnull : v ≠ .null)
    (hz : v.castTo .float64 = .ok (.float64 z)) (hsum : sum.Conforms .float64)
    (hy : started sum = .float64 y) :
    step p.add (row ++ [sum, .int64 n]) =
      match Integer.int64? (n.toInt + 1) with
      | some next => .ok [.float64 (y + z), .int64 next]
      | none => .error (.execution (.overflow .plus n.toInt 1)) := by
  obtain ⟨hstate, -, hadd, -⟩ := average_eq_ok hs
  obtain ⟨addSum, addCount, hboth, msum, mcount⟩ := averageAdd_means (n := n) harg hrow hv hsum hz
  have hadds : s.add = [addSum, addCount] := Except.ok.inj (hadd.symm.trans hboth)
  have hcode := hp.add
  rw [hstate, hadds] at hcode
  have hsome : v.isNull = false := by simpa [← Bool.not_eq_true] using hnull
  have hplus : Compiled.arithValues .plus .float64 (.float64 y) (.float64 z) =
      .ok (.float64 (y + z)) := rfl
  have hkeeps (x : Binary64) : (Value.float64 x).castTo .float64 = .ok (.float64 x) := rfl
  have hsum' : addSum.evaluate (input ++ averageState) (row ++ [sum, .int64 n]) =
      .ok (.float64 (y + z)) := by
    rw [msum.value, hsome, hy]
    exact congrArg (· >>= (·.castTo .float64)) hplus
  have hone : (1 : Int64).toInt = 1 := rfl
  rw [step_eq_mapM hcode, List.mapM_cons, hsum', List.mapM_cons, mcount.value, hsome, plus_int64,
    hone]
  cases Integer.int64? (n.toInt + 1) with
  | none => rfl
  | some next =>
    have hkept : (Value.int64 next).castTo .int64 = .ok (.int64 next) :=
      castTo_self (conforms_dataType (.int64 next))
    simp [hkept]

end Step

theorem castTo_float64 {t : DataType} (ht : t = .int32 ∨ t = .int64 ∨ t = .float32 ∨ t = .float64)
    (hv : v.Conforms t) (hnull : v ≠ .null) :
    ∃ z, v.number? = some z ∧ v.castTo .float64 = .ok (.float64 z) := by
  rcases hv.cases hnull with rfl | ⟨-, rfl⟩
  · cases v <;> simp [Value.dataType] at ht <;> exact ⟨_, rfl, rfl⟩
  · rcases ht with h | h | h | h <;> cases h

end Program

namespace Accumulator
open Program Value
variable {input : Schema} {arg : Nat} {f : Field} {p : Program} {s : Source}

def Averaged (p : Program) (vs : List Value) (acc : Accumulator) : Prop :=
  ∃ sum n, acc = .program p [sum, .int64 n] ∧ n.toInt = vs.length ∧
    (vs = [] ∧ sum = .null ∨ vs ≠ [] ∧ ∃ x, sum = .float64 x)

theorem steps_average (hs : average input arg = .ok s) (hp : Compiles input s p)
    (harg : input[arg]? = some f)
    (hf : f.type.dataType = .int32 ∨ f.type.dataType = .int64 ∨ f.type.dataType = .float32 ∨
      f.type.dataType = .float64) :
    StepsOn input arg f.type.dataType (Averaged p) fun vs _ => 2 ^ 63 ≤ vs.length := by
  have hsums {vs : List Value} {sum : Value}
      (h : vs = [] ∧ sum = .null ∨ vs ≠ [] ∧ ∃ x, sum = .float64 x) : sum.Conforms .float64 := by
    obtain ⟨-, rfl⟩ | ⟨-, x, rfl⟩ := h
    · exact null_conforms _
    · exact conforms_dataType (.float64 x)
  refine ⟨⟨f, harg, rfl⟩, ?_, ?_⟩
  · rintro vs _ row ⟨sum, n, rfl, -, hsum⟩ hrow hv
    simp only [send, addRow_eq hp.width hrow, average_pass hs hp harg hrow hv (hsums hsum), ok_bind,
      pure_eq_ok]
  · rintro vs _ row v ⟨sum, n, rfl, hn, hsum⟩ hrow hv hnull hconforms
    obtain ⟨z, -, hz⟩ := castTo_float64 hf hconforms hnull
    obtain ⟨y, hy⟩ := exists_started (hsums hsum)
    have hstep := average_take (n := n) hs hp harg hrow hv hnull hz (hsums hsum) hy
    simp only [send, addRow_eq hp.width hrow, hstep]
    cases hnext : Integer.int64? (n.toInt + 1) with
    | none =>
      have hfull := int64?_eq_none.1 hnext
      have hlength : (vs ++ [v]).length = vs.length + 1 := by simp
      simp only [Leaves, error_bind]
      omega
    | some next =>
      refine ⟨.float64 (y + z), next, rfl, ?_, .inr ⟨by simp, y + z, rfl⟩⟩
      simp [toInt_of_int64? hnext, hn]

theorem averaged_start (hs : average input arg = .ok s) (hp : Compiles input s p) :
    Averaged p [] (.program p p.start) := by
  obtain ⟨-, hstart, -⟩ := average_eq_ok hs
  exact ⟨.null, 0, by rw [hp.start, hstart], rfl, .inl ⟨rfl, rfl⟩⟩

theorem averaged_finish (hs : average input arg = .ok s) (hp : Compiles input s p)
    {vs : List Value} {acc : Accumulator} (h : Averaged p vs acc) :
    (vs = [] → acc.finish = .ok .null) ∧ (vs ≠ [] → ∃ z, acc.finish = .ok (.float64 z)) := by
  obtain ⟨hstate, -, -, hresult⟩ := average_eq_ok hs
  obtain ⟨sum, n, rfl, hn, hsum⟩ := h
  obtain ⟨e, he, hzero, hsome⟩ := averageResult_evaluates sum n
  obtain rfl : e = s.result := Except.ok.inj (he.symm.trans hresult)
  have hcode := hp.result
  rw [hstate] at hcode
  rw [finish, ← Expr.evaluate_of_compile hcode]
  constructor
  · rintro rfl
    exact hzero (by simpa using hn)
  · intro hne
    obtain ⟨hnil, -⟩ | ⟨-, x, hx⟩ := hsum
    · exact absurd hnil hne
    · have hpos := List.length_pos_of_ne_nil hne
      exact hsome x (by omega) hx

end Accumulator
end Relational
