import Relational.Proofs.Aggregation.Averaging
import Relational.Proofs.Binary.Amount

/-!
# Merged states

The state of a program over some rows and its state over others merge into the state over all of
them. Where values are combined, any grouping of them comes to the same; an average adds its sums, so
that there the additions have to be exact.
-/
namespace Relational

namespace Program
open Relational.Expr Value
variable {f : AggregateFunction} {input : Schema} {arg : Nat} {t : DataType} {p : Program}
  {s : Source} {combine : Value → Value → Value} {acc v : Value} {vs ws : List Value}

/-- Combining does not depend on the grouping, and null makes no difference to what was combined. -/
structure Merges (t : DataType) (combine : Value → Value → Value) : Prop where
  conforms {a v : Value} (ha : a.Conforms t) (hv : v.Conforms t) : (combine a v).Conforms t
  assoc {a b v : Value} (ha : a.Conforms t) (hb : b.Conforms t) (hv : v.Conforms t) :
    combine a (combine b v) = combine (combine a b) v
  null : combine .null .null = .null
  settled (a v : Value) : combine (combine a v) .null = combine a v

theorem Merges.foldl_conforms (h : Merges t combine) (hvs : ∀ v ∈ vs, v.Conforms t)
    (hacc : acc.Conforms t) : (vs.foldl combine acc).Conforms t := by
  induction vs generalizing acc with
  | nil => exact hacc
  | cons v rest ih =>
    obtain ⟨hv, hrest⟩ := List.forall_mem_cons.1 hvs
    exact ih hrest (h.conforms hacc hv)

theorem Merges.append (h : Merges t combine) (hvs : ∀ v ∈ vs, v.Conforms t)
    (hws : ∀ w ∈ ws, w.Conforms t) :
    combine (vs.foldl combine .null) (ws.foldl combine .null) = (vs ++ ws).foldl combine .null := by
  induction ws using List.reverseRecOn with
  | nil =>
    rw [List.append_nil, List.foldl_nil]
    cases vs using List.reverseRecOn with
    | nil => exact h.null
    | append_singleton vs v =>
      rw [List.foldl_append]
      exact h.settled _ v
  | append_singleton ws w ih =>
    obtain ⟨hws, hw⟩ := List.forall_mem_append.1 hws
    have hleft := h.foldl_conforms hvs (null_conforms t)
    have hright := h.foldl_conforms hws (null_conforms t)
    rw [← List.append_assoc, List.foldl_concat, List.foldl_concat,
      h.assoc hleft hright (hw w (List.mem_singleton_self w)), ih hws]

theorem merges_later (op : Op) : Merges .boolean (later (both op)) where
  conforms := later_conforms fun acc v _ _ => both_conforms op acc v
  assoc {a b v} ha hb hv := by
    rcases ha.bool with rfl | ⟨p, rfl⟩ <;> rcases hb.bool with rfl | ⟨q, rfl⟩ <;>
      rcases hv.bool with rfl | ⟨r, rfl⟩
    case inr.inr.inr =>
      by_cases hop : op = .and
      · simp [later, both, hop, Bool.and_assoc]
      · simp [later, both, hop, Bool.or_assoc]
    all_goals rfl
  null := rfl
  settled a v := rfl

theorem merges_anyValue (t : DataType) : Merges t (later fun acc _ => acc) where
  conforms := later_conforms fun acc v hacc _ => hacc
  assoc {a b v} _ _ _ := by
    unfold later
    cases ha : a.isNull <;> cases hb : b.isNull <;> cases hv : v.isNull <;> simp [ha, hb, hv]
  null := rfl
  settled a v := rfl

theorem exists_merge (h : compile f arg input = .ok p) :
    ∃ s, source f arg input = .ok s ∧ Compiles input s p ∧
      List.Forall₂ (fun e c => e.compile (s.state ++ s.state) = .ok c) s.merge p.merge := by
  simp only [compile, bind_eq_ok, pure_eq_ok, Except.ok.injEq] at h
  obtain ⟨s, hs, add, hadd, merge, hmerge, result, hresult, rfl⟩ := h
  exact ⟨s, hs, ⟨rfl, rfl, compileAll_eq_ok.1 hadd, hresult⟩, compileAll_eq_ok.1 hmerge⟩

theorem merge_of_folding {fold : Expr → Expr → Except Error Expr}
    (hs : folding input arg t fold = .ok s)
    (hp : List.Forall₂ (fun e c => e.compile (s.state ++ s.state) = .ok c) s.merge p.merge)
    (hfold : FoldsTo fold t combine) (hacc : acc.Conforms t) (hv : v.Conforms t) :
    step p.merge [acc, v] = .ok [combine acc v] := by
  simp only [folding, bind_eq_ok, pure_eq_ok, Except.ok.injEq] at hs
  obtain ⟨a, -, b, -, add, -, l, hl, r, hr, merge, hmerge, result, -, rfl⟩ := hs
  let state := [field "acc" t true]
  obtain ⟨l', hl', meansL⟩ := means_column (state ++ state) [acc, v] (i := 0) (v := acc)
    (f := field "acc" t true) rfl rfl
  obtain ⟨r', hr', meansR⟩ := means_column (state ++ state) [acc, v] (i := 1) (v := v)
    (f := field "acc" t true) rfl rfl
  obtain rfl : l' = l := Except.ok.inj (hl'.symm.trans hl)
  obtain rfl : r' = r := Except.ok.inj (hr'.symm.trans hr)
  obtain ⟨merge', hmerge', means⟩ := hfold meansL meansR hacc hv
  obtain rfl : merge' = merge := Except.ok.inj (hmerge'.symm.trans hmerge)
  rw [step_eq_mapM hp]
  simp only [List.mapM_cons, List.mapM_nil, pure_eq_ok]
  rw [means.value]
  rfl

def totalled (zs : List Binary64) : Value :=
  if zs = [] then .null else .float64 (zs.foldl (· + ·) 0)

variable {zs : List Binary64} {m n : Int64}

theorem totalled_of_ne_nil (h : zs ≠ []) : totalled zs = .float64 (zs.foldl (· + ·) 0) := if_neg h

theorem totalled_conforms (zs : List Binary64) : (totalled zs).Conforms .float64 := by
  unfold totalled
  split
  · exact null_conforms _
  · exact conforms_dataType (.float64 _)

theorem started_totalled (zs : List Binary64) :
    started (totalled zs) = .float64 (zs.foldl (· + ·) 0) := by
  by_cases h : zs = []
  · subst h
    rfl
  · rw [totalled_of_ne_nil h]
    rfl

theorem totalled_concat (zs : List Binary64) (z : Binary64) :
    totalled (zs ++ [z]) = .float64 (zs.foldl (· + ·) 0 + z) := by
  rw [totalled_of_ne_nil (by simp), List.foldl_concat]

theorem averageMerge_means (sum sum' : Value) (m n : Int64) :
    ∃ mergeSum mergeCount, averageMerge = .ok [mergeSum, mergeCount] ∧
      Means (averageState ++ averageState) [sum, .int64 m, sum', .int64 n] mergeSum .float64
        ((if sum'.isNull then .ok sum else if sum.isNull then .ok sum' else
          if sum.isNull || sum'.isNull then .ok .null
          else Compiled.arithValues .plus .float64 sum sum') >>= (·.castTo .float64)) ∧
      Means (averageState ++ averageState) [sum, .int64 m, sum', .int64 n] mergeCount .int64
        (Compiled.arithValues .plus .int64 (.int64 m) (.int64 n)) := by
  have hcolumn {i : Nat} {f : Field} {v : Value}
      (hf : (averageState ++ averageState)[i]? = some f)
      (hv : [sum, .int64 m, sum', .int64 n][i]? = some v) :=
    means_column (averageState ++ averageState) [sum, .int64 m, sum', .int64 n] hf hv
  obtain ⟨sumL, hsumL, meansL⟩ := hcolumn (i := 0) rfl rfl
  obtain ⟨countL, hcountL, numberL⟩ := hcolumn (i := 1) rfl rfl
  obtain ⟨sumR, hsumR, meansR⟩ := hcolumn (i := 2) rfl rfl
  obtain ⟨countR, hcountR, numberR⟩ := hcolumn (i := 3) rfl rfl
  obtain ⟨mergeSum, hmergeSum, msum⟩ :=
    means_skipNulls meansL meansR (means_arith meansL meansR plus_float)
  obtain ⟨mergeCount, hmergeCount, mcount⟩ := means_arith numberL numberR plus_integer
  refine ⟨mergeSum, mergeCount, ?_, msum, mcount⟩
  simp only [averageMerge, hsumL, hcountL, hsumR, hcountR, hmergeSum, hmergeCount, ok_bind,
    pure_eq_ok]

def joined (zs ws : List Binary64) : Value :=
  if ws = [] then totalled zs else if zs = [] then totalled ws
  else .float64 (zs.foldl (· + ·) 0 + ws.foldl (· + ·) 0)

theorem joined_eq_null {ws : List Binary64} :
    joined zs ws = .null ↔ totalled (zs ++ ws) = .null := by
  unfold joined
  by_cases hws : ws = []
  · rw [if_pos hws, hws, List.append_nil]
  · rw [if_neg hws]
    by_cases hzs : zs = []
    · rw [if_pos hzs, hzs, List.nil_append]
    · rw [if_neg hzs, totalled_of_ne_nil (by simp [hzs])]
      exact iff_of_false Value.noConfusion Value.noConfusion

theorem joined_eq_totalled {ws : List Binary64}
    (hwhole : Binary.Word.SumsExactly 0 (zs ++ ws)) (hright : Binary.Word.SumsExactly 0 ws)
    (hjoined : (zs.foldl (· + ·) 0).Exact (ws.foldl (· + ·) 0)) :
    joined zs ws = totalled (zs ++ ws) ∨ (joined zs ws).IsNaN ∧ (totalled (zs ++ ws)).IsNaN := by
  unfold joined
  by_cases hws : ws = []
  · rw [if_pos hws, hws, List.append_nil]
    exact .inl rfl
  · rw [if_neg hws]
    by_cases hzs : zs = []
    · rw [if_pos hzs, hzs, List.nil_append]
      exact .inl rfl
    · rw [if_neg hzs, totalled_of_ne_nil (by simp [hzs])]
      refine (Binary.Word.add_foldl hwhole hright hjoined).imp (congrArg float64) ?_
      rintro ⟨hnan, hnan'⟩
      exact ⟨⟨_, rfl, hnan⟩, ⟨_, rfl, hnan'⟩⟩

theorem average_merge {ws : List Binary64} {k : Int64} (hs : average input arg = .ok s)
    (hp : List.Forall₂ (fun e c => e.compile (s.state ++ s.state) = .ok c) s.merge p.merge)
    (hk : Integer.int64? (m.toInt + n.toInt) = some k) :
    step p.merge [totalled zs, .int64 m, totalled ws, .int64 n] = .ok [joined zs ws, .int64 k] := by
  simp only [average, bind_eq_ok, pure_eq_ok, Except.ok.injEq] at hs
  obtain ⟨add, -, merge, hmerge, result, -, rfl⟩ := hs
  obtain ⟨mergeSum, mergeCount, hboth, msum, mcount⟩ :=
    averageMerge_means (totalled zs) (totalled ws) m n
  obtain rfl : merge = [mergeSum, mergeCount] := Except.ok.inj (hmerge.symm.trans hboth)
  have hsum : mergeSum.evaluate (averageState ++ averageState)
      [totalled zs, .int64 m, totalled ws, .int64 n] = .ok (joined zs ws) := by
    rw [msum.value, joined]
    by_cases hws : ws = []
    · rw [if_pos hws, hws]
      exact castTo_self (totalled_conforms zs)
    · rw [if_neg hws, totalled_of_ne_nil hws]
      by_cases hzs : zs = []
      · rw [if_pos hzs, hzs]
        rfl
      · rw [if_neg hzs, totalled_of_ne_nil hzs]
        rfl
  have hcount : mergeCount.evaluate (averageState ++ averageState)
      [totalled zs, .int64 m, totalled ws, .int64 n] = .ok (.int64 k) := by
    rw [mcount.value, plus_int64, hk]
  rw [step_eq_mapM hp]
  simp only [List.mapM_cons, List.mapM_nil, hsum, hcount, ok_bind, pure_eq_ok]

end Program

namespace Accumulator
open Program Value Grouping
variable {input : Schema} {arg : Nat} {f : Field} {p : Program} {s : Source}
  {combine : Value → Value → Value} {rows xs ys : List Row}

def column (arg : Nat) (rows : List Row) : List Value := rows.filterMap (·[arg]?)

theorem column_conforms (harg : input[arg]? = some f) (hrows : ∀ row ∈ rows, row.Conforms input) :
    ∀ v ∈ column arg rows, v.Conforms f.type.dataType := by
  intro v hv
  obtain ⟨row, hrow, hv⟩ := List.mem_filterMap.1 hv
  obtain ⟨w, hw, hconforms⟩ := (hrows row hrow).getElem harg
  exact Option.some.inj (hv.symm.trans hw) ▸ hconforms

theorem fed_combines (hp : Combines input arg f.type.dataType combine p)
    (h : Merges f.type.dataType combine) (harg : input[arg]? = some f)
    (hrows : ∀ row ∈ rows, row.Conforms input) :
    fed ⟨.program p, none⟩ rows = .ok (.program p [(column arg rows).foldl combine .null]) := by
  induction rows using List.reverseRecOn with
  | nil =>
    change Except.ok (Accumulator.program p p.start) = _
    rw [hp.start]
    rfl
  | append_singleton rows row ih =>
    simp only [List.forall_mem_append, List.forall_mem_singleton] at hrows
    obtain ⟨hrows, hrow⟩ := hrows
    obtain ⟨v, hv, hconforms⟩ := hrow.getElem harg
    have hacc := h.foldl_conforms (column_conforms harg hrows) (null_conforms f.type.dataType)
    have hcolumn : column arg (rows ++ [row]) = column arg rows ++ [v] := by simp [column, hv]
    refine fed_append.2 ⟨_, ih hrows, ?_⟩
    rw [send, addRow_eq hp.width hrow, hp.add hrow hv hconforms hacc, hcolumn, List.foldl_concat]
    rfl

def numbers (arg : Nat) (rows : List Row) : List Binary64 :=
  (column arg rows).filterMap Value.number?

theorem fed_average (hs : average input arg = .ok s) (hp : Compiles input s p)
    (harg : input[arg]? = some f)
    (hf : f.type.dataType = .int32 ∨ f.type.dataType = .int64 ∨ f.type.dataType = .float32 ∨
      f.type.dataType = .float64) (hrows : ∀ row ∈ rows, row.Conforms input)
    (hfew : rows.length < 2 ^ 63) :
    ∃ n, fed ⟨.program p, none⟩ rows = .ok (.program p [totalled (numbers arg rows), .int64 n]) ∧
      n.toInt = (numbers arg rows).length ∧ (numbers arg rows).length ≤ rows.length := by
  induction rows using List.reverseRecOn with
  | nil =>
    obtain ⟨-, hstart, -⟩ := average_eq_ok hs
    refine ⟨0, ?_, rfl, Nat.le_refl _⟩
    change Except.ok (Accumulator.program p p.start) = _
    rw [hp.start, hstart]
    rfl
  | append_singleton rows row ih =>
    simp only [List.forall_mem_append, List.forall_mem_singleton] at hrows
    obtain ⟨hrows, hrow⟩ := hrows
    rw [List.length_append, List.length_singleton] at hfew ⊢
    obtain ⟨n, hfed, hn, hle⟩ := ih hrows (Nat.lt_of_succ_lt hfew)
    obtain ⟨v, hv, hconforms⟩ := hrow.getElem harg
    by_cases hnull : v = .null
    · subst hnull
      have hnumbers : numbers arg (rows ++ [row]) = numbers arg rows := by
        simp [numbers, column, hv, number?]
      rw [hnumbers]
      refine ⟨n, fed_append.2 ⟨_, hfed, ?_⟩, hn, Nat.le_succ_of_le hle⟩
      rw [send, addRow_eq hp.width hrow,
        average_pass hs hp harg hrow hv (totalled_conforms _)]
      rfl
    · obtain ⟨z, hz, hcast⟩ := castTo_float64 hf hconforms hnull
      have hnumbers : numbers arg (rows ++ [row]) = numbers arg rows ++ [z] := by
        simp [numbers, column, hv, hz]
      obtain ⟨k, hk⟩ : ∃ k, Integer.int64? (n.toInt + 1) = some k := by
        rw [← Option.ne_none_iff_exists', Ne, int64?_eq_none]
        omega
      rw [hnumbers, List.length_append, List.length_singleton, totalled_concat]
      refine ⟨k, fed_append.2 ⟨_, hfed, ?_⟩, ?_, Nat.succ_le_succ hle⟩
      · rw [send, addRow_eq hp.width hrow, average_take hs hp harg hrow hv hnull hcast
          (totalled_conforms _) (started_totalled _), hk]
        rfl
      · rw [toInt_of_int64? hk, hn]
        rfl

/-- No addition of numbers in the column loses anything, neither in the two sums that are merged nor
in the one over all rows. -/
structure AddsExactly (arg : Nat) (xs ys : List Row) : Prop where
  whole : Binary.Word.SumsExactly 0 (numbers arg (xs ++ ys))
  right : Binary.Word.SumsExactly 0 (numbers arg ys)
  joined : ((numbers arg xs).foldl (· + ·) 0).Exact ((numbers arg ys).foldl (· + ·) 0)

/-- What the states over some rows and over others merge into, and the state over all of them. -/
structure Merged (p : Program) (xs ys : List Row) (merged whole : List Value) : Prop where
  merged : ∃ a b, fed ⟨.program p, none⟩ xs = .ok (.program p a) ∧
    fed ⟨.program p, none⟩ ys = .ok (.program p b) ∧ mergeStates p a b = .ok merged
  whole : fed ⟨.program p, none⟩ (xs ++ ys) = .ok (.program p whole)

section
variable (harg : input[arg]? = some f) (hxs : ∀ row ∈ xs, row.Conforms input)
  (hys : ∀ row ∈ ys, row.Conforms input)
include harg hxs hys

theorem merged_of_folding {fold : Expr → Expr → Except Error Expr}
    (hs : folding input arg f.type.dataType fold = .ok s) (hp : Compiles input s p)
    (hmerge : List.Forall₂ (fun e c => e.compile (s.state ++ s.state) = .ok c) s.merge p.merge)
    (hfold : FoldsTo fold f.type.dataType combine) (h : Merges f.type.dataType combine) :
    ∃ state, Merged p xs ys state state := by
  have hcombines := combines_of_folding hs hp harg rfl hfold
  have hxs' := column_conforms harg hxs
  have hys' := column_conforms harg hys
  have hall : ∀ row ∈ xs ++ ys, row.Conforms input := List.forall_mem_append.2 ⟨hxs, hys⟩
  have hmerged := merge_of_folding hs hmerge hfold
    (h.foldl_conforms hxs' (null_conforms _)) (h.foldl_conforms hys' (null_conforms _))
  rw [h.append hxs' hys'] at hmerged
  refine ⟨_, ⟨_, _, fed_combines hcombines h harg hxs, fed_combines hcombines h harg hys, hmerged⟩, ?_⟩
  rw [fed_combines hcombines h harg hall, column, List.filterMap_append]
  rfl

theorem merged_of_average (hs : average input arg = .ok s) (hp : Compiles input s p)
    (hmerge : List.Forall₂ (fun e c => e.compile (s.state ++ s.state) = .ok c) s.merge p.merge)
    (hf : f.type.dataType = .int32 ∨ f.type.dataType = .int64 ∨ f.type.dataType = .float32 ∨
      f.type.dataType = .float64) (hfew : xs.length + ys.length < 2 ^ 63) :
    ∃ n, Merged p xs ys [joined (numbers arg xs) (numbers arg ys), .int64 n]
      [totalled (numbers arg (xs ++ ys)), .int64 n] := by
  have hall : ∀ row ∈ xs ++ ys, row.Conforms input := List.forall_mem_append.2 ⟨hxs, hys⟩
  obtain ⟨k, ha, hk, -⟩ := fed_average hs hp harg hf hxs (by omega)
  obtain ⟨m, hb, hm, -⟩ := fed_average hs hp harg hf hys (by omega)
  obtain ⟨n, hwhole, hn, -⟩ := fed_average hs hp harg hf hall (by rwa [List.length_append])
  have hcount : Integer.int64? (k.toInt + m.toInt) = some n := by
    have hnumbers : (numbers arg (xs ++ ys)).length =
        (numbers arg xs).length + (numbers arg ys).length := by simp [numbers, column]
    have hsum : k.toInt + m.toInt = n.toInt := by omega
    rw [hsum, int64?_toInt]
  exact ⟨n, ⟨_, _, ha, hb, average_merge hs hmerge hcount⟩, hwhole⟩

end

theorem ofCall_of_built {c : AggregateCall} (h : c.Built input) (hfolds : Folds c.function) :
    ∃ p, Program.ofCall c input = .ok p := by
  obtain ⟨types, hderived⟩ := CallPlan.derived_of_built h
  have htype := hderived.type
  obtain ⟨t, rfl⟩ : ∃ t, types = [t] := by
    rcases hfolds with hf | hf | hf | hf <;>
      simp only [hf, AggregateFunction.resultType, bind_eq_ok] at htype <;>
      obtain ⟨t, hsingle, -⟩ := htype <;> exact ⟨t, CallPlan.single_eq_ok hsingle⟩
  obtain ⟨arg, f, hargs, harg, rfl⟩ := hderived.argument
  obtain ⟨p, -, hp, -⟩ := exists_compiles hfolds hargs harg hderived.type
  exact ⟨p, hp⟩

/-- A call that is folded by a program has one, and merging the program's states over some rows and
over others leaves the state over all of them. For an average the count is the same, there is a sum
if there is one over all, and if nothing is lost by the additions it is the same, or neither is a
number. -/
theorem mergeStates_append {c : AggregateCall} (hxs : ∀ row ∈ xs, row.Conforms input)
    (hys : ∀ row ∈ ys, row.Conforms input) (hfew : xs.length + ys.length < 2 ^ 63) :
    (c.Built input → Folds c.function → ∃ p, Program.ofCall c input = .ok p) ∧
    ∀ p, Program.ofCall c input = .ok p → ∃ merged whole, Merged p xs ys merged whole ∧
      (c.function ≠ .avg → merged = whole) ∧
      (c.function = .avg → ∃ sum total n, merged = [sum, .int64 n] ∧ whole = [total, .int64 n] ∧
        (sum = .null ↔ total = .null) ∧
        ∀ arg ∈ c.args, AddsExactly arg xs ys → sum = total ∨ sum.IsNaN ∧ total.IsNaN) := by
  refine ⟨ofCall_of_built, fun p hp => ?_⟩
  simp only [Program.ofCall, bind_eq_ok] at hp
  obtain ⟨arg, honly, hp⟩ := hp
  have hargs := AggregateCall.onlyArgument_eq_ok honly
  obtain ⟨s, hs, hcompiles, hmerge⟩ := exists_merge hp
  cases harg : input[arg]? with
  | none =>
    rw [source, harg] at hs
    cases hs
  | some f =>
    simp only [source, harg] at hs
    cases hf : c.function <;> simp only [hf] at hs
    case avg =>
      obtain ⟨haverage, ht⟩ : average input arg = .ok s ∧ (f.type.dataType = .int32 ∨
          f.type.dataType = .int64 ∨ f.type.dataType = .float32 ∨ f.type.dataType = .float64) := by
        split at hs <;> simp_all
      obtain ⟨n, hmerged⟩ := merged_of_average harg hxs hys haverage hcompiles hmerge ht hfew
      have hnumbers : numbers arg (xs ++ ys) = numbers arg xs ++ numbers arg ys := by
        simp [numbers, column]
      refine ⟨_, _, hmerged, by simp, fun _ => ⟨_, _, n, rfl, rfl, ?_, ?_⟩⟩
      · rw [hnumbers]
        exact joined_eq_null
      · rw [hargs, List.forall_mem_singleton]
        rintro ⟨hwhole, hright, hjoined⟩
        rw [hnumbers] at hwhole ⊢
        exact joined_eq_totalled hwhole hright hjoined
    case boolAnd | boolOr =>
      split at hs
      · cases hs
      next ht =>
        rw [← not_not.1 ht] at hs
        obtain ⟨state, hmerged⟩ := merged_of_folding harg hxs hys hs hcompiles hmerge
          (not_not.1 ht ▸ foldsTo_junction (by simp)) (not_not.1 ht ▸ merges_later _)
        exact ⟨state, state, hmerged, fun _ => rfl, by simp⟩
    case anyValue =>
      obtain ⟨state, hmerged⟩ :=
        merged_of_folding harg hxs hys hs hcompiles hmerge (foldsTo_anyValue _) (merges_anyValue _)
      exact ⟨state, state, hmerged, fun _ => rfl, by simp⟩
    all_goals cases hs

theorem mergeStates_append_mean :
    let input : Schema := [⟨"amount", .int64 true, {}⟩]
    let c : AggregateCall := ⟨.avg, [0], none, "mean", .float64 true⟩
    let xs : List Row := [[.int64 1], [.null]]
    let ys : List Row := [[.int64 2], [.int64 6]]
    c.Built input ∧ (∀ row ∈ xs ++ ys, row.Conforms input) ∧ AddsExactly 0 xs ys ∧
      ∃ p sum total n, Program.ofCall c input = .ok p ∧
        Merged p xs ys [sum, .int64 n] [total, .int64 n] ∧ (sum = .null ↔ total = .null) ∧
        (sum = total ∨ sum.IsNaN ∧ total.IsNaN) := by
  intro input c xs ys
  have hderive : AggregateCall.derive .avg [0] "mean" input = .ok c := rfl
  have hbuilt : c.Built input := .derived hderive
  have hrows : ∀ row ∈ xs ++ ys, row.Conforms input := by
    simp [xs, ys, input, Row.Conforms, Value.Conforms, Value.dataType, SqlType.int64]
  have hexact : AddsExactly 0 xs ys := by
    refine ⟨?_, ?_, ?_⟩
    · exact (Binary.Word.foldl_ofInt (m := 0) [1, 2, 6] (by decide)).2
    · exact (Binary.Word.foldl_ofInt (m := 0) [2, 6] (by decide)).2
    · have hxs := (Binary.Word.foldl_ofInt (m := 0) [1] (by decide)).1
      have hys := (Binary.Word.foldl_ofInt (m := 0) [2, 6] (by decide)).1
      exact (congrArg₂ Binary.Word.Exact hxs hys).mpr (Binary.Word.exact_ofInt (by decide))
  obtain ⟨hxs, hys⟩ := List.forall_mem_append.1 hrows
  obtain ⟨hexists, hmerges⟩ := mergeStates_append (c := c) hxs hys (by decide)
  obtain ⟨p, hp⟩ := hexists hbuilt (.inl rfl)
  obtain ⟨_, _, hmerged, -, haverage⟩ := hmerges p hp
  obtain ⟨sum, total, n, rfl, rfl, hnull, hequal⟩ := haverage rfl
  exact ⟨hbuilt, hrows, hexact, p, sum, total, n, hp, hmerged, hnull, hequal 0 (by simp [c]) hexact⟩

end Accumulator
end Relational
