import Relational.Proofs.Execution.Repetition
import Relational.Proofs.Grouping.Opening

/-!
# Groups without repetition

The rows of a single grouping set differ in their keys. They also differ in any grouping columns
that keep the rows apart that were grouped.
-/
namespace Relational.Grouping
variable {plans : List CallPlan} {rows part : List Row} {set columns grouped : ColumnSet}
  {s : SetState} {indicator ignoreNulls : Bool} {ks : List (List Value)}

theorem noRepeat_keys (hnodup : ks.Nodup) (hover : ∀ k ∈ ks, KeyOver set rows k) :
    NoRepeat (.range set.size) false ks := by
  refine List.Pairwise.imp_of_mem (fun {a b} ha hb hne hagree => absurd ?_ hne) hnodup
  have hlength : a.length = b.length := (hover a ha).length_eq.trans (hover b hb).length_eq.symm
  refine List.ext_getElem? fun i => ?_
  rcases Nat.lt_or_ge i set.size with hlt | hge
  · exact hagree i (List.mem_range.2 hlt)
  · have ha : a.length ≤ i := (hover a ha).length_eq ▸ hge
    rw [List.getElem?_eq_none ha, List.getElem?_eq_none (hlength ▸ ha)]

theorem noRepeat_grouped_keys (hnodup : ks.Nodup) (hover : ∀ k ∈ ks, KeyOver set rows k)
    (hrows : NoRepeat grouped ignoreNulls rows)
    (hcolumns : ∀ d ∈ grouped, ∃ c ∈ columns, set.columns[c]? = some d)
    (hset : set.isEmpty = false) : NoRepeat columns ignoreNulls ks := by
  refine List.Pairwise.imp_of_mem (fun {a b} ha hb hne hagree => ?_) hnodup
  have hrow : ∀ k ∈ ks, ∃ row ∈ rows, keyOf set row = .ok k := by
    intro k hk
    refine (hover k hk).resolve_right fun ⟨hempty, _⟩ => ?_
    rw [hset] at hempty
    cases hempty
  obtain ⟨row, hmem, hkey⟩ := hrow a ha
  obtain ⟨row', hmem', hkey'⟩ := hrow b hb
  have hdistinct : row ≠ row' := by
    rintro rfl
    exact hne (Except.ok.inj (hkey.symm.trans hkey'))
  have hvalue {k : List Value} {r : Row} (h : keyOf set r = .ok k) {c d : Nat}
      (hc : set.columns[c]? = some d) : k[c]? = r[d]? := by
    obtain ⟨v, hv, hr⟩ := forall₂_exists_getElem? (eq_of_keyOf h) hc
    rw [hv, hr]
  have hsource : row.Agree grouped row' := by
    intro d hd
    obtain ⟨c, hc, hcolumn⟩ := hcolumns d hd
    rw [← hvalue hkey hcolumn, ← hvalue hkey' hcolumn, hagree c hc]
  obtain ⟨hignore, d, hd, hnull⟩ := hrows.apart hmem hmem' hdistinct hsource
  obtain ⟨c, hc, hcolumn⟩ := hcolumns d hd
  exact ⟨hignore, c, hc, (hvalue hkey hcolumn).trans hnull⟩

theorem noRepeat_of_keys (h : NoRepeat columns ignoreNulls ks)
    (houtput : List.Forall₂ (fun k out => k.length = set.columns.length ∧ ∃ rest, out = k ++ rest)
      ks part) (hcolumns : ∀ c ∈ columns, c < set.columns.length) :
    NoRepeat columns ignoreNulls part := by
  refine h.transport houtput fun c hc => ⟨c, hc, ?_⟩
  rintro k out ⟨hlength, rest, rfl⟩
  exact List.getElem?_append_left (hlength ▸ hcolumns c hc)

theorem noRepeat_emitted (h : s.Opened rows set)
    (hpart : ExecUnit.emitted (Plan.groupColumns [set]) plans indicator s = .ok part) :
    NoRepeat (.range set.size) false part := by
  obtain ⟨ks, hnodup, hover, houtput⟩ := emitted_single h hpart
  exact noRepeat_of_keys (noRepeat_keys hnodup hover) houtput fun c hc => List.mem_range.1 hc

theorem noRepeat_grouped (h : s.Opened rows set)
    (hpart : ExecUnit.emitted (Plan.groupColumns [set]) plans indicator s = .ok part)
    (hrows : NoRepeat grouped ignoreNulls rows)
    (hcolumns : ∀ c ∈ columns, ∃ d ∈ grouped, set.columns[c]? = some d)
    (hgrouped : ∀ d ∈ grouped, ∃ c ∈ columns, set.columns[c]? = some d)
    (hset : set.isEmpty = false) : NoRepeat columns ignoreNulls part := by
  obtain ⟨ks, hnodup, hover, houtput⟩ := emitted_single h hpart
  refine noRepeat_of_keys (noRepeat_grouped_keys hnodup hover hrows hgrouped hset) houtput ?_
  intro c hc
  obtain ⟨d, -, hd⟩ := hcolumns c hc
  exact (List.getElem?_eq_some_iff.1 hd).1

end Relational.Grouping
