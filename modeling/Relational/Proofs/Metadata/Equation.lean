import Relational.Metadata.Rule
import Relational.Proofs.Expr.Flattening
import Relational.Proofs.Value.SortOrder

/-!
# What a join condition equates

On a row that satisfies a condition, the columns that it equates hold equal values, none of them
null. Equal integers may differ in width, but values of one column that equal the same value are the
same, except for floats: the two zeros are equal.
-/
namespace Relational

namespace Value
variable {v w u : Value} {t : DataType}

theorem ne_null_of_compare? (h : v.compare? w = some .eq) : v ≠ .null ∧ w ≠ .null := by
  constructor
  · rintro rfl
    cases w <;> cases h
  · rintro rfl
    cases v <;> cases h

theorem Conforms.same_dataType (hv : v.Conforms t) (hw : w.Conforms t) (hvnull : v ≠ .null)
    (hwnull : w ≠ .null) : v.dataType = w.dataType := by
  have hlarge (v : Value) : v.dataType ≠ .largeUtf8 := by cases v <;> simp [dataType]
  rcases hv.resolve_left hvnull with hvtype | ⟨hvtype, htext⟩ <;>
    rcases hw.resolve_left hwnull with hwtype | ⟨hwtype, htext'⟩
  · exact hvtype.trans hwtype.symm
  · exact absurd (hvtype.trans htext') (hlarge v)
  · exact absurd (hwtype.trans htext) (hlarge w)
  · exact hvtype.trans hwtype.symm

theorem eq_of_compare? (htype : v.dataType = w.dataType) (hv : ¬ v.IsFloat) (hu : ¬ u.IsFloat)
    (hvu : v.compare? u = some .eq) (hwu : w.compare? u = some .eq) : v = w := by
  cases v <;> cases w <;> cases htype <;> cases u <;>
    simp_all [compare?, integer?, number?, IsFloat, ← Int32.toInt_inj, ← Int64.toInt_inj]

end Value

theorem Row.Conforms.type_at {row row' : Row} {schema : Schema} {i : Nat} {v w : Value}
    (h : row.Conforms schema) (h' : row'.Conforms schema) (hv : row[i]? = some v)
    (hw : row'[i]? = some w) : ∃ t, v.Conforms t ∧ w.Conforms t := by
  obtain ⟨hi, -⟩ := List.getElem?_eq_some_iff.1 hv
  have hf := List.getElem?_eq_getElem (h.length_eq ▸ hi)
  obtain ⟨v', hv', hvtype⟩ := h.getElem hf
  obtain ⟨w', hw', hwtype⟩ := h'.getElem hf
  obtain rfl := Option.some.inj (hv.symm.trans hv')
  obtain rfl := Option.some.inj (hw.symm.trans hw')
  exact ⟨_, hvtype, hwtype⟩

namespace Expr
variable {schema : Schema} {row : Row} {e part : Expr}

theorem validate_of_mem_conjuncts (h : e.validate schema = .ok ()) (hpart : part ∈ e.conjuncts) :
    part.validate schema = .ok () := by
  induction e using operandInduction with
  | call op operands t ih =>
    by_cases hop : op = .and
    · subst hop
      rw [validate, validateAll_eq_ok] at h
      rw [conjuncts, conjunctsOf_eq_flatMap] at hpart
      obtain ⟨o, ho, hpart⟩ := List.mem_flatMap.1 hpart
      exact ih o ho (h o ho) hpart
    · rw [conjuncts_eq_singleton (by simp [hop])] at hpart
      rwa [List.mem_singleton.1 hpart]
  | _ => rwa [List.mem_singleton.1 hpart]

end Expr

namespace Metadata
variable {condition : Expr} {schema : Schema} {row row' : Row} {width l r : Nat}

theorem exists_equation (h : (l, r) ∈ equatedColumns condition width) :
    ∃ i j t u v, .call (.compare .eq) [.column i t, .column j u] v ∈ condition.conjuncts ∧
      l < width ∧ (i = l ∧ j = r + width ∨ i = r + width ∧ j = l) := by
  obtain ⟨e, he, hpair⟩ := List.mem_filterMap.1 h
  split at hpair
  next i t j u v =>
    simp only at hpair
    split at hpair
    next hsides =>
      cases hpair
      exact ⟨i, j, t, u, v, he, hsides.1, by omega⟩
    · cases hpair
  · cases hpair

theorem equated_lt (hvalid : condition.validate schema = .ok ())
    (h : (l, r) ∈ equatedColumns condition width) : l < width ∧ r + width < schema.length := by
  obtain ⟨i, j, t, u, v, he, hl, hsides⟩ := exists_equation h
  have hread := Expr.readings_of_validate (Expr.validate_of_mem_conjuncts hvalid he)
  simp only [Expr.readings, Expr.readingsOf, List.append_nil, List.singleton_append,
    List.forall_mem_cons] at hread
  obtain ⟨⟨f, hf, -⟩, ⟨g, hg, -⟩, -⟩ := hread
  obtain ⟨hi, -⟩ := List.getElem?_eq_some_iff.1 hf
  obtain ⟨hj, -⟩ := List.getElem?_eq_some_iff.1 hg
  omega

theorem equal_of_equated (htrue : condition.evaluate schema row = .ok (.boolean true))
    (h : (l, r) ∈ equatedColumns condition width) :
    ∃ v w, row[l]? = some v ∧ row[r + width]? = some w ∧ v.compare? w = some .eq := by
  obtain ⟨i, j, t, u, out, he, -, hsides⟩ := exists_equation h
  obtain ⟨cs, c, hcs, hc, heval⟩ :=
    Expr.evaluate_call_eq_ok.1 (Expr.true_of_mem_conjuncts htrue he)
  cases hcs with | @cons _ left _ _ hleft hcs =>
  cases hcs with | @cons _ right _ _ hright hcs =>
  cases hcs
  cases hc
  obtain ⟨x, y, hx, hy, heq⟩ := Compiled.binary_eq_true heval
  have hx := Expr.eval_column rfl hleft hx
  have hy := Expr.eval_column rfl hright hy
  rcases hsides with ⟨rfl, rfl⟩ | ⟨rfl, rfl⟩
  · exact ⟨x, y, hx, hy, heq⟩
  · exact ⟨y, x, hy, hx, Value.compare?_symm heq⟩

section TwoRows
variable (hrow : row.Conforms schema) (hrow' : row'.Conforms schema)
  (hexact : ∀ v ∈ row, ¬ v.IsFloat)
include hrow hrow' hexact

theorem eq_of_equal {i : Nat} {u v w : Value} (hv : row[i]? = some v) (hw : row'[i]? = some w)
    (hu : ¬ u.IsFloat) (hvu : v.compare? u = some .eq) (hwu : w.compare? u = some .eq) :
    row[i]? = row'[i]? := by
  obtain ⟨t, hvt, hwt⟩ := hrow.type_at hrow' hv hw
  have htype := hvt.same_dataType hwt (Value.ne_null_of_compare? hvu).1
    (Value.ne_null_of_compare? hwu).1
  rw [hv, hw, Value.eq_of_compare? htype (hexact v (List.mem_of_getElem? hv)) hu hvu hwu]

variable (htrue : condition.evaluate schema row = .ok (.boolean true))
  (htrue' : condition.evaluate schema row' = .ok (.boolean true))
  (h : (l, r) ∈ equatedColumns condition width)
include htrue htrue' h

theorem equated_left (hright : row[r + width]? = row'[r + width]?) : row[l]? = row'[l]? := by
  obtain ⟨v, u, hv, hu, hvu⟩ := equal_of_equated htrue h
  obtain ⟨w, u', hw, hu', hwu⟩ := equal_of_equated htrue' h
  obtain rfl : u = u' := Option.some.inj (hu.symm.trans (hright.trans hu'))
  exact eq_of_equal hrow hrow' hexact hv hw (hexact u (List.mem_of_getElem? hu)) hvu hwu

theorem equated_right (hleft : row[l]? = row'[l]?) : row[r + width]? = row'[r + width]? := by
  obtain ⟨u, v, hu, hv, huv⟩ := equal_of_equated htrue h
  obtain ⟨u', w, hu', hw, huw⟩ := equal_of_equated htrue' h
  obtain rfl : u = u' := Option.some.inj (hu.symm.trans (hleft.trans hu'))
  have huexact := hexact u (List.mem_of_getElem? hu)
  exact eq_of_equal hrow hrow' hexact hv hw huexact (Value.compare?_symm huv)
    (Value.compare?_symm huw)

end TwoRows

theorem equated_ne_null (htrue : condition.evaluate schema row = .ok (.boolean true))
    (h : (l, r) ∈ equatedColumns condition width) :
    row[l]? ≠ some .null ∧ row[r + width]? ≠ some .null := by
  obtain ⟨v, w, hv, hw, heq⟩ := equal_of_equated htrue h
  obtain ⟨hvnull, hwnull⟩ := Value.ne_null_of_compare? heq
  exact ⟨by simpa [hv] using hvnull, by simpa [hw] using hwnull⟩

end Metadata
end Relational
