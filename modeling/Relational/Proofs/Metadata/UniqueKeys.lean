import Relational.Proofs.Grouping.Repetition
import Relational.Proofs.Metadata.Answering
import Relational.Proofs.Metadata.RowBound
import Relational.Proofs.Ordered

/-!
# Unique keys of executed plans

Where the tables repeat none of their declared keys, the rows of a node repeat none of the keys
that the built-in rules derive for it.
-/
namespace Relational

namespace Plan
variable {Q : Type} {registry : UserAggregate.Registry} {contents : Contents} {p : Plan}

def Respected (source : TableSource Q) (contents : Contents) (p : Plan) : Prop :=
  ∀ id table shape notes, .scan id table shape notes ∈ p.nodes →
    ∀ d, source.table table.id = .ok d → ∀ key ∈ d.uniqueKeys, NoRepeat key false (contents table)

theorem Respected.below {source : TableSource Q} (h : p.Respected source contents)
    {node : Plan} (hnode : node ∈ p.nodes) : node.Respected source contents :=
  fun id table shape notes hmem => h id table shape notes (mem_nodes_trans hnode hmem)

theorem Respected.scan {setting : Metadata.Setting Q} {id : Nat} {table : TableRef}
    {shape : Schema} {notes : Notes}
    (h : (Plan.scan id table shape notes).Respected setting.source contents) {d : TableDescriptor}
    (hd : setting.descriptor? (.scan id table shape notes) = some d) :
    ∀ key ∈ d.uniqueKeys, NoRepeat key false (contents table) := by
  refine h id table shape notes (self_mem_nodes _) d ?_
  simp only [Metadata.Setting.descriptor?, table?, Option.bind_some] at hd
  cases hknown : setting.source.table table.id with
  | error e => rw [hknown] at hd; cases hd
  | ok found => rw [hknown] at hd; cases hd; rfl

theorem copies_of_copyOf? {columns : List Projection} {i c : Nat}
    (h : Metadata.copyOf? columns i = some c) {row out : Row} (hcopied : Copies columns row out) :
    out[c]? = row[i]? := by
  obtain ⟨hc, hcolumn, -⟩ := List.findIdx?_eq_some_iff_getElem.1 h
  exact hcopied c columns[c] i (List.getElem?_eq_getElem hc) (beq_iff_eq.1 hcolumn)

end Plan

namespace Metadata

theorem mem_of_mem_keySet {keys : List ColumnSet} {key : ColumnSet} (h : key ∈ keySet keys) :
    key ∈ keys :=
  (mem_of_mem_mergeOrdered h).resolve_left List.not_mem_nil

namespace Basis
variable {Q : Type} {b : Basis Q} {p : Plan} {registry : UserAggregate.Registry}
  {contents : Contents} {rows source : List Row} {keys : List ColumnSet} {ignoreNulls : Bool}

def KeysHold (b : Basis Q) (registry : UserAggregate.Registry) (contents : Contents) (p : Plan) :
    Prop :=
  ∀ ignoreNulls keys rows,
    b.Answers p ⟨.uniqueKeys, .ignoreNulls ignoreNulls⟩ (.ok (some (.keys keys))) →
    p.collect registry contents = .ok rows → ∀ key ∈ keys, NoRepeat key ignoreNulls rows

theorem KeysHold.asked {s : Subject} {node : Plan} (hs : b.node? p s = some node)
    (hnode : b.KeysHold registry contents node)
    (h : b.Gives p (uniqueKeys s ignoreNulls) (.ok (some keys)))
    (hrows : node.collect registry contents = .ok rows) :
    ∀ key ∈ keys, NoRepeat key ignoreNulls rows := by
  obtain ⟨other, hother, hanswers⟩ := gives_uniqueKeys.1 h
  obtain rfl := Option.some.inj (hs.symm.trans hother)
  exact hnode ignoreNulls keys rows hanswers hrows

theorem singleRow_noRepeat
    (h : b.Gives p UniqueKeys.singleRow (.ok (some (.keys keys)))) (hrows : rows.length ≤ 1) :
    ∀ key ∈ keys, NoRepeat key ignoreNulls rows := by
  cases gives_known.1 h
  exact fun _ _ => .of_length_le_one hrows

theorem passedOn_keys {setting : Setting Q} {input : Plan} (hs : b.node? p (.input 0) = some input)
    (hinput : b.KeysHold registry contents input)
    (h : b.Gives p (UniqueKeys.passedOn setting p (.ignoreNulls ignoreNulls))
      (.ok (some (.keys keys))))
    (hsource : input.collect registry contents = .ok source) :
    ∀ key ∈ keys, NoRepeat key ignoreNulls source := by
  obtain ⟨found, hfound, hfact⟩ := gives_fromInput h
  cases hfact
  exact hinput.asked hs hfound hsource

theorem length_le_of_atMostOne {id : Nat} {input : Plan} {collation : Collation}
    {offset fetch : Option Nat}
    (h : UniqueKeys.atMostOne (.sort id input collation offset fetch) = true) :
    (window offset fetch rows).length ≤ 1 := by
  cases fetch with
  | none => cases h
  | some n =>
    rw [length_window]
    have hn : n ≤ 1 := of_decide_eq_true h
    exact Nat.le_trans (Nat.min_le_right _ _) hn

variable [Quantity Q]

theorem keys_setOp {id : Nat} {op : SetOp} {inputs : List Plan} {all : Bool}
    (hrules : b.rules = .builtin)
    (h : b.Answers (.setOp id op inputs all) ⟨.uniqueKeys, .ignoreNulls ignoreNulls⟩
      (.ok (some (.keys keys)))) :
    ¬ (op = .union ∧ all = true) ∧ keys = [.range (Plan.setOp id op inputs all).width] := by
  have hgives : b.Gives (.setOp id op inputs all) (UniqueKeys.ofSetOp b.setting
      (.setOp id op inputs all) (.ignoreNulls ignoreNulls)) (.ok (some (.keys keys))) := by
    cases op <;> exact gives_of_builtin hrules h rfl
  by_cases hop : op = .union ∧ all = true
  · obtain ⟨rfl, rfl⟩ := hop
    cases gives_unknown.1 hgives
  · have hrule : UniqueKeys.ofSetOp b.setting (.setOp id op inputs all) (.ignoreNulls ignoreNulls) =
        .known (.keys [.range (Plan.setOp id op inputs all).width]) := by
      cases op <;> cases all <;> simp_all [UniqueKeys.ofSetOp]
    rw [hrule] at hgives
    cases gives_known.1 hgives
    exact ⟨hop, rfl⟩

theorem keysHold (hrules : b.rules = .builtin)
    (hrespected : p.Respected b.setting.source contents) : b.KeysHold registry contents p := by
  induction p using Plan.inputInduction with
  | node p ih =>
    have hchild : ∀ child ∈ p.children, b.KeysHold registry contents child := fun child hmem =>
      ih child hmem (hrespected.below (Plan.mem_nodes_of_mem_children hmem))
    clear ih
    intro ignoreNulls keys rows h hrows
    cases Plan.executed_of_collect hrows with
    | @scan id table shape notes =>
      have hgives := gives_of_builtin hrules h rfl
      simp only [UniqueKeys.ofScan] at hgives
      split at hgives
      next d hd =>
        cases gives_known.1 hgives
        intro key hkey
        exact (hrespected.scan hd key (mem_of_mem_keySet hkey)).ignoring ignoreNulls
      · cases gives_unknown.1 hgives
    | values =>
      have hgives := gives_of_builtin hrules h rfl
      simp only [UniqueKeys.ofValues] at hgives
      split at hgives
      next hlength => exact singleRow_noRepeat hgives hlength
      · cases gives_unknown.1 hgives
    | filter hinput hsublist =>
      intro key hkey
      exact (passedOn_keys rfl (hchild _ List.mem_cons_self) (gives_of_builtin hrules h rfl) hinput
        key hkey).sublist hsublist
    | project hinput hcopied =>
      obtain ⟨found, hfound, hfact⟩ := gives_report.1 (gives_of_builtin hrules h rfl)
      cases hfact
      intro key hkey
      obtain ⟨k, hk, hrenumbered⟩ := List.mem_filterMap.1 (mem_of_mem_keySet hkey)
      refine ((hchild _ List.mem_cons_self).asked rfl hfound hinput k hk).transport hcopied ?_
      intro m hm
      obtain ⟨c, hc, hcopy⟩ := (ColumnSet.renumber?_eq_some hrenumbered).1 m hm
      exact ⟨c, hc, fun row out => Plan.copies_of_copyOf? hcopy⟩
    | @aggregate id input sets calls indicator source plans states parts hinput hstates hparts =>
      have hgives := gives_of_builtin hrules h rfl
      simp only [UniqueKeys.ofAggregate] at hgives
      split at hgives
      next set _ _ heq =>
        cases heq
        cases gives_known.1 hgives
        obtain ⟨s, hs, hrows⟩ := Grouping.foldlM_sendRow_single hstates hparts
        rw [List.forall_mem_singleton]
        exact (Grouping.noRepeat_emitted hs hrows).ignoring ignoreNulls
      · cases gives_unknown.1 hgives
    | union hinputs =>
      cases gives_unknown.1 (gives_of_builtin hrules h rfl)
    | @sort id input collation offset fetch source hinput =>
      have hgives := gives_of_builtin hrules h rfl
      simp only [UniqueKeys.ofSort] at hgives
      split at hgives
      next hlimit => exact singleRow_noRepeat hgives (length_le_of_atMostOne hlimit)
      · intro key hkey
        exact (passedOn_keys rfl (hchild _ List.mem_cons_self) hgives hinput key hkey).window_sort
          collation offset fetch
    | exchange hinput =>
      exact passedOn_keys rfl (hchild _ List.mem_cons_self) (gives_of_builtin hrules h rfl) hinput

end Basis
end Metadata
end Relational
