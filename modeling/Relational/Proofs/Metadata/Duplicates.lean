import Mathlib.Data.List.Perm.Subperm
import Relational.Proofs.Metadata.Uniqueness
import Relational.Proofs.Plan.Document

/-!
# Columns that are found not unique

Over literal rows, columns are found not unique where some of these rows repeat them. The answer is
passed on to nodes that put out only some of the rows, as a filter does and a sort with an offset or
a limit, though the rows that repeat the columns may be among those that are dropped.
-/
namespace Relational

theorem forall₂_sublist {α β : Type} {R : α → β → Prop} {xs : List α} {ys zs : List β}
    (h : List.Forall₂ R xs ys) (hsub : zs.Sublist ys) :
    ∃ ws, ws.Sublist xs ∧ List.Forall₂ R ws zs := by
  induction hsub generalizing xs with
  | slnil => exact ⟨[], List.nil_sublist xs, .nil⟩
  | cons y _ ih =>
    cases h with
    | cons _ hrest =>
      obtain ⟨ws, hws, hzs⟩ := ih hrest
      exact ⟨ws, hws.cons _, hzs⟩
  | cons_cons y _ ih =>
    cases h with
    | cons hfirst hrest =>
      obtain ⟨ws, hws, hzs⟩ := ih hrest
      exact ⟨_ :: ws, hws.cons_cons _, .cons hfirst hzs⟩

theorem forall₂_subperm {α β : Type} {R : α → β → Prop} {xs : List α} {ys zs : List β}
    (h : List.Forall₂ R xs ys) (hsub : zs.Subperm ys) :
    ∃ ws, ws.Subperm xs ∧ List.Forall₂ R ws zs := by
  obtain ⟨ys', hperm, hsublist⟩ := hsub
  obtain ⟨xs', hxs', hys'⟩ := forall₂_sublist h hsublist
  obtain ⟨ws, hws, hxs⟩ := List.perm_comp_forall₂ hperm.symm hys'.flip
  exact ⟨ws, hxs.subperm.trans hxs'.subperm, hws.flip⟩

def Repeats (columns : ColumnSet) (rows : List Row) : Prop :=
  ∃ (i j : Nat) (a b : Row), i < j ∧ rows[i]? = some a ∧ rows[j]? = some b ∧ a.Agree columns b

theorem repeats_iff {columns : ColumnSet} {rows : List Row} :
    Repeats columns rows ↔ ¬ NoRepeat columns false rows := by
  rw [NoRepeat, List.pairwise_iff_getElem]
  constructor
  · rintro ⟨i, j, a, b, hij, ha, hb, hagree⟩ hapart
    obtain ⟨hi, rfl⟩ := List.getElem?_eq_some_iff.1 ha
    obtain ⟨hj, rfl⟩ := List.getElem?_eq_some_iff.1 hb
    exact Bool.false_ne_true (hapart i j hi hj hij hagree).1
  · intro hnot
    by_contra hnone
    refine hnot fun i j hi hj hij hagree => absurd ?_ hnone
    exact ⟨i, j, _, _, hij, List.getElem?_eq_getElem hi, List.getElem?_eq_getElem hj, hagree⟩

/-- The rows have in the columns what some of the stored ones have in columns that are traced. -/
def CopiedFrom (columns : ColumnSet) (rows : List Row) (traced : ColumnSet) (stored : List Row) :
    Prop :=
  ∃ kept, kept.Subperm stored ∧ ∃ origin : Nat → Nat, (∀ c ∈ columns, origin c ∈ traced) ∧
    List.Forall₂ (fun (row out : Row) => ∀ c ∈ columns, out[c]? = row[origin c]?) kept rows

namespace CopiedFrom
variable {columns copied traced : ColumnSet} {rows source stored : List Row}

theorem refl (columns : ColumnSet) (rows : List Row) : CopiedFrom columns rows columns rows :=
  ⟨rows, .refl rows, id, fun _ hc => hc, List.forall₂_same.2 fun _ _ _ _ => rfl⟩

theorem length_le (h : CopiedFrom columns rows traced stored) : rows.length ≤ stored.length := by
  obtain ⟨kept, hkept, origin, -, hrows⟩ := h
  exact hrows.length_eq ▸ hkept.length_le

theorem subperm (h : CopiedFrom columns source traced stored) (hrows : rows.Subperm source) :
    CopiedFrom columns rows traced stored := by
  obtain ⟨kept, hkept, origin, horigin, hsource⟩ := h
  obtain ⟨kept', hkept', hcopied⟩ := forall₂_subperm hsource hrows
  exact ⟨kept', hkept'.trans hkept, origin, horigin, hcopied⟩

theorem carried {R : Row → Row → Prop} (h : CopiedFrom copied source traced stored)
    (hrows : List.Forall₂ R source rows)
    (hcarried : ∀ c ∈ columns, ∃ m ∈ copied, ∀ row out, R row out → out[c]? = row[m]?) :
    CopiedFrom columns rows traced stored := by
  obtain ⟨kept, hkept, origin, horigin, hsource⟩ := h
  choose! copy hcopy hvalue using hcarried
  refine ⟨kept, hkept, origin ∘ copy, fun c hc => horigin _ (hcopy c hc), ?_⟩
  refine (forall₂_comp.1 ⟨source, hsource, hrows⟩).imp ?_
  rintro row out ⟨between, hbetween, hR⟩ c hc
  rw [hvalue c hc between out hR, hbetween (copy c) (hcopy c hc), Function.comp_apply]

theorem repeats (h : CopiedFrom columns rows traced stored) (hstored : Repeats traced stored)
    (hall : stored.length ≤ rows.length) : Repeats columns rows := by
  obtain ⟨kept, hkept, origin, horigin, hrows⟩ := h
  have hperm : kept.Perm stored := hkept.perm_of_length_le (hrows.length_eq ▸ hall)
  rw [repeats_iff] at hstored ⊢
  intro hapart
  have hapart' : NoRepeat traced false kept := hapart.transport hrows.flip fun c hc =>
    ⟨origin c, horigin c hc, fun out row hcopied => (hcopied c hc).symm⟩
  exact hstored (hapart'.perm hperm)

end CopiedFrom

theorem Row.agree_of_project? {columns : ColumnSet} {a b : Row} {key : List Value}
    (ha : Metadata.Distinct.project? columns a = some key)
    (hb : Metadata.Distinct.project? columns b = some key) : a.Agree columns b := by
  intro c hc
  obtain ⟨i, hi⟩ := List.getElem?_of_mem hc
  obtain ⟨v, hv, hleft⟩ := forall₂_exists_getElem? (mapM_eq_some.1 ha) hi
  exact hleft.trans (forall₂_getElem? (mapM_eq_some.1 hb) hi hv).symm

namespace Plan
variable {registry : UserAggregate.Registry} {contents : Contents} {p input : Plan}
  {columns copied : ColumnSet} {rows source : List Row}

def mayDrop : Plan → Bool
  | .filter .. => true
  | .sort _ _ _ offset fetch => offset.getD 0 != 0 || fetch.isSome
  | _ => false

/-- The rows are copies of some of the literal rows below the node, which repeat what is copied, and
of all of them if no node drops any. -/
def RepeatedBelow (p : Plan) (columns : ColumnSet) (rows : List Row) : Prop :=
  ∃ id stored shape notes traced, .values id stored shape notes ∈ p.nodes ∧
    Repeats traced stored ∧ CopiedFrom columns rows traced stored ∧
    ((∀ m ∈ p.nodes, m.mayDrop = false) → stored.length ≤ rows.length)

namespace RepeatedBelow

theorem subperm (h : input.RepeatedBelow columns source) (hinput : input ∈ p.children)
    (hrows : rows.Subperm source) (hall : p.mayDrop = false → source.length ≤ rows.length) :
    p.RepeatedBelow columns rows := by
  obtain ⟨id, stored, shape, notes, traced, hmem, hstored, hcopied, hkept⟩ := h
  have hnodes := mem_nodes_of_mem_children hinput
  refine ⟨id, stored, shape, notes, traced, mem_nodes_trans hnodes hmem, hstored,
    hcopied.subperm hrows, fun hnone => ?_⟩
  have hbelow := hkept fun m hm => hnone m (mem_nodes_trans hnodes hm)
  exact hbelow.trans (hall (hnone p (self_mem_nodes p)))

theorem carried {R : Row → Row → Prop} (h : input.RepeatedBelow copied source)
    (hinput : input ∈ p.children) (hrows : List.Forall₂ R source rows)
    (hcarried : ∀ c ∈ columns, ∃ m ∈ copied, ∀ row out, R row out → out[c]? = row[m]?) :
    p.RepeatedBelow columns rows := by
  obtain ⟨id, stored, shape, notes, traced, hmem, hstored, hcopied, hkept⟩ := h
  have hnodes := mem_nodes_of_mem_children hinput
  refine ⟨id, stored, shape, notes, traced, mem_nodes_trans hnodes hmem, hstored,
    hcopied.carried hrows hcarried, fun hnone => ?_⟩
  exact hrows.length_eq ▸ hkept fun m hm => hnone m (mem_nodes_trans hnodes hm)

theorem repeats (h : p.RepeatedBelow columns rows) (hnone : ∀ m ∈ p.nodes, m.mayDrop = false) :
    Repeats columns rows := by
  obtain ⟨id, stored, shape, notes, traced, -, hstored, hcopied, hkept⟩ := h
  exact hcopied.repeats hstored (hkept hnone)

end RepeatedBelow
end Plan

namespace Metadata

theorem repeats_of_distinctKeys? {columns : ColumnSet} {seen : List (List Value)} {rows : List Row}
    (h : ColumnUniqueness.distinctKeys? columns false seen rows = some false) :
    ¬ NoRepeat columns false rows ∨
      ∃ row ∈ rows, ∃ key ∈ seen, Distinct.project? columns row = some key := by
  induction rows generalizing seen with
  | nil => cases h
  | cons row rest ih =>
    unfold ColumnUniqueness.distinctKeys? at h
    split at h
    · cases h
    next key hkey =>
      rw [Bool.false_and, if_neg Bool.false_ne_true] at h
      split at h
      next hseen =>
        exact .inr ⟨row, List.mem_cons_self, key, List.contains_iff_mem.1 hseen, hkey⟩
      · rcases ih h with hrepeats | ⟨other, hother, found, hfound, hsame⟩
        · exact .inl fun hnone => hrepeats (List.pairwise_cons.1 hnone).2
        rcases List.mem_cons.1 hfound with rfl | hfound
        · refine .inl fun hnone => ?_
          have hapart := (List.pairwise_cons.1 hnone).1 other hother
          exact Bool.false_ne_true (hapart (Row.agree_of_project? hkey hsame)).1
        · exact .inr ⟨other, List.mem_cons_of_mem _ hother, found, hfound, hsame⟩

namespace Basis
variable {Q : Type} {b : Basis Q} {p : Plan} {registry : UserAggregate.Registry}
  {contents : Contents} {rows : List Row} {columns : ColumnSet}

theorem passedOn_not_unique {input : Plan} (hs : b.node? p (.input 0) = some input)
    (h : b.Gives p (ColumnUniqueness.passedOn b.setting p (.columns columns false))
      (.ok (some (.flag false)))) :
    b.Answers input ⟨.columnUniqueness, .columns columns false⟩ (.ok (some (.flag false))) := by
  simp only [ColumnUniqueness.passedOn] at h
  split at h
  · cases gives_known.1 h
  · obtain ⟨flag, hflag, hfact⟩ := gives_fromInput h
    cases hfact
    obtain ⟨other, hother, hanswers⟩ := gives_columnsUnique.1 hflag
    obtain rfl := Option.some.inj (hs.symm.trans hother)
    exact hanswers

variable [Quantity Q]

theorem true_of_ofNoColumns {flag : Bool}
    (h : b.Gives p ColumnUniqueness.ofNoColumns (.ok (some (.flag flag)))) : flag = true := by
  obtain ⟨found, hfound, h⟩ := gives_bind.1 h
  cases found with
  | none => cases gives_unknown.1 h
  | some x =>
    simp only at h
    split at h
    · cases gives_known.1 h
      rfl
    · cases gives_unknown.1 h

theorem true_of_byKeys {flag : Bool}
    (h : b.Gives p (ColumnUniqueness.byKeys b.setting p (.columns columns false))
      (.ok (some (.flag flag)))) : flag = true := by
  simp only [ColumnUniqueness.byKeys] at h
  split at h
  · exact true_of_ofNoColumns h
  · obtain ⟨found, -, h⟩ := gives_bind.1 h
    split at h
    · cases gives_known.1 h
      rfl
    · cases gives_unknown.1 h

theorem true_of_ofAggregate {flag : Bool}
    (h : b.Gives p (ColumnUniqueness.ofAggregate b.setting p (.columns columns false))
      (.ok (some (.flag flag)))) : flag = true := by
  unfold ColumnUniqueness.ofAggregate at h
  split at h
  next heq =>
    cases heq
    split at h
    · exact true_of_ofNoColumns h
    split at h
    · cases gives_unknown.1 h
    dsimp only at h
    split at h
    · cases gives_known.1 h
      rfl
    split at h
    · cases gives_unknown.1 h
    · obtain ⟨found, -, h⟩ := gives_bind.1 h
      split at h
      · cases gives_known.1 h
        rfl
      · cases gives_unknown.1 h
  · cases gives_unknown.1 h

theorem project_not_unique {n : Nat} {input : Plan} {projected : List Projection}
    (h : b.Gives (.project n input projected) (ColumnUniqueness.ofProject b.setting
      (.project n input projected) (.columns columns false)) (.ok (some (.flag false)))) :
    ∃ copied, b.Answers input ⟨.columnUniqueness, .columns copied false⟩ (.ok (some (.flag false))) ∧
      ∀ c ∈ columns, ∃ m ∈ copied, (copiedColumns projected)[c]?.bind id = some m := by
  simp only [ColumnUniqueness.ofProject] at h
  split at h
  · cases true_of_ofNoColumns h
  split at h
  · cases gives_unknown.1 h
  · obtain ⟨found, hfound, h⟩ := gives_bind.1 h
    split at h
    · cases gives_known.1 h
    next =>
      split at h
      next hcomplete =>
        obtain ⟨other, hother, hanswers⟩ := gives_columnsUnique.1 hfound
        cases hother
        refine ⟨_, hanswers, fun c hc => ?_⟩
        obtain ⟨m, hm⟩ := Option.isSome_iff_exists.1 (List.all_eq_true.1 hcomplete c hc)
        exact ⟨m, ColumnSet.mem_ofList.2 (List.mem_filterMap.2 ⟨c, hc, hm⟩), hm⟩
      · cases gives_unknown.1 h
    · cases gives_unknown.1 h

/-- Columns are found not unique only above literal rows that repeat them. -/
theorem repeatedBelow (hrules : b.rules = .builtin)
    (hleaves : ∀ m ∈ p.nodes, m.children = [] → m.kind = .values)
    (h : b.Answers p ⟨.columnUniqueness, .columns columns false⟩ (.ok (some (.flag false))))
    (hrows : p.collect registry contents = .ok rows) : p.RepeatedBelow columns rows := by
  induction p using Plan.inputInduction generalizing columns rows with
  | node p ih =>
    have hchild {input : Plan} {asked : ColumnSet} {source : List Row} (hinput : input ∈ p.children)
        (hanswers : b.Answers input ⟨.columnUniqueness, .columns asked false⟩
          (.ok (some (.flag false))))
        (hsource : input.collect registry contents = .ok source) : input.RepeatedBelow asked source :=
      ih input hinput (fun m hm => hleaves m (Plan.mem_nodes_trans
        (Plan.mem_nodes_of_mem_children hinput) hm)) hanswers hsource
    clear ih
    cases Plan.executed_of_collect hrows with
    | scan => cases hleaves _ (Plan.self_mem_nodes _) rfl
    | @values id rows shape notes =>
      have hdistinct := (Except.ok.inj (gives_done.1 (gives_of_builtin hrules h rfl))).symm
      obtain ⟨flag, hflag, hfact⟩ := Option.map_eq_some_iff.1 hdistinct
      cases hfact
      have hrepeats : Repeats columns rows := by
        refine repeats_iff.2 ((repeats_of_distinctKeys? hflag).resolve_right ?_)
        rintro ⟨_, _, _, hnone, _⟩
        exact List.not_mem_nil hnone
      exact ⟨id, rows, shape, notes, columns, Plan.self_mem_nodes _, hrepeats, .refl _ _,
        fun _ => Nat.le_refl _⟩
    | filter hinput hsublist =>
      have hsource := hchild List.mem_cons_self
        (passedOn_not_unique rfl (gives_of_builtin hrules h rfl)) hinput
      exact hsource.subperm List.mem_cons_self hsublist.subperm fun hnone => by cases hnone
    | project hinput hcopied =>
      obtain ⟨copied, hanswers, hcopies⟩ := project_not_unique (gives_of_builtin hrules h rfl)
      refine (hchild List.mem_cons_self hanswers hinput).carried List.mem_cons_self hcopied ?_
      intro c hc
      obtain ⟨m, hm, hcopy⟩ := hcopies c hc
      exact ⟨m, hm, fun row out => copies_of_copiedColumns hcopy⟩
    | aggregate => cases true_of_ofAggregate (gives_of_builtin hrules h rfl)
    | union =>
      have hgives := gives_of_builtin hrules h rfl
      cases true_of_byKeys hgives
    | @sort id input collation offset fetch source hinput =>
      have hsource := hchild List.mem_cons_self
        (passedOn_not_unique rfl (gives_of_builtin hrules h rfl)) hinput
      refine hsource.subperm List.mem_cons_self ?_ fun hnone => ?_
      · exact (window_sublist _ _ _).subperm.trans (stableSort_perm source).subperm
      · simp only [Plan.mayDrop, Bool.or_eq_false_iff, bne_eq_false_iff_eq,
          Option.isSome_eq_false_iff, Option.isNone_iff_eq_none] at hnone
        rw [length_window, length_sort, hnone.1, hnone.2]
        exact Nat.le_refl _
    | exchange hinput =>
      have hsource := hchild List.mem_cons_self
        (passedOn_not_unique rfl (gives_of_builtin hrules h rfl)) hinput
      exact hsource.subperm List.mem_cons_self (.refl rows) fun _ => Nat.le_refl _

end Basis

namespace Query
open Metadata.Basis
variable {Q : Type} [Quantity Q] {root node : Plan} {fresh q q' : Query Q}
  {registry : UserAggregate.Registry} {contents : Contents} {rows : List Row} {columns : ColumnSet}

/-- Whatever was asked before: if columns are found not unique over literal rows only, some literal
rows repeat them, as far as they are copied, and the node puts out copies of these rows. It repeats
the columns if it has all of them, and so if nothing that it executes may drop a row. -/
theorem repeats_of_columnsUnique {α : Type} {source : TableSource Q} {scanRows : Q} {splits : Nat}
    {caching : Bool} {earlier : List (Plan × Inquiry Q α)} {outcomes : List (Except Error α)}
    (hfresh : ofPlan root .builtin source scanRows splits caching = .ok fresh)
    (hearlier : ∀ r ∈ earlier, r.1 ∈ root.nodes)
    (hserve : fresh.serve earlier = some (outcomes, q)) (hnode : node ∈ root.nodes)
    (hleaves : ∀ m ∈ node.nodes, m.children = [] → m.kind = .values)
    (h : q.inquire node (columnsUnique .self columns false) = some (.ok (some false), q'))
    (hrows : node.collect registry contents = .ok rows) :
    ∃ id stored shape notes traced, .values id stored shape notes ∈ node.nodes ∧
      Repeats traced stored ∧ CopiedFrom columns rows traced stored ∧
      (stored.length = rows.length ∨ (∀ m ∈ node.nodes, m.mayDrop = false) →
        Repeats columns rows) := by
  obtain ⟨hbasis, ids, hmemo⟩ := serve_fresh hfresh hearlier hserve
  have hrules : q.rules = .builtin := by rw [hbasis]
  have hmem : node ∈ q.root.nodes := by rw [hbasis]; exact hnode
  obtain ⟨-, -, hgives⟩ := inquire_sound ids hmemo hmem h
  have hanswers := exists_self.1 (gives_columnsUnique.1 hgives)
  obtain ⟨id, stored, shape, notes, traced, hstored, hrepeats, hcopied, hkept⟩ :=
    repeatedBelow hrules hleaves hanswers hrows
  refine ⟨id, stored, shape, notes, traced, hstored, hrepeats, hcopied, fun hall => ?_⟩
  exact hcopied.repeats hrepeats (hall.elim Nat.le_of_eq hkept)

theorem repeats_of_columnsUnique_sorted :
    let shape : Schema := [⟨"id", .int64 false, {}⟩, ⟨"size", .int64 false, {}⟩]
    let source : TableSource Binary64 :=
      ⟨fun _ => .error (.planning (.unknownTableId 0)), fun _ => .ok none⟩
    let stored : List Row := [[.int64 1, .int64 5], [.int64 2, .int64 3], [.int64 3, .int64 5]]
    let sorted : Plan := .sort 2 (.values 1 stored shape) [⟨1, .ascending, .last⟩] none none
    let p : Plan := .project 3 sorted [⟨.column 1 (.int64 false), "size"⟩]
    ∃ fresh q', ofPlan p .builtin source Quantity.one 1 true = .ok fresh ∧
      fresh.inquire p (columnsUnique .self (.range 1) false) = some (.ok (some false), q') ∧
      p.collect {} (fun _ => []) = .ok [[.int64 3], [.int64 5], [.int64 5]] ∧
      Repeats (.range 1) [[.int64 3], [.int64 5], [.int64 5]] := by
  intro shape source stored sorted p
  obtain ⟨fresh, hfresh⟩ : ∃ fresh : Query Binary64,
      ofPlan p .builtin source Quantity.one 1 true = .ok fresh := ⟨_, rfl⟩
  have hnode : p ∈ p.nodes := Plan.self_mem_nodes p
  have hserve : fresh.serve ([] : List (Plan × Inquiry Binary64 Unit)) = some ([], fresh) := rfl
  have hrows : p.collect {} (fun _ => []) = .ok [[.int64 3], [.int64 5], [.int64 5]] := rfl
  have hgives : fresh.Gives p (columnsUnique .self (.range 1) false) (.ok (some false)) := by
    obtain ⟨-, rfl⟩ := ofPlan_eq_ok hfresh
    refine gives_columnsUnique.2 ⟨p, rfl, answers_some.2 ⟨_, rfl, ?_⟩⟩
    refine gives_bind.2 ⟨some false, ?_, gives_known.2 rfl⟩
    refine gives_columnsUnique.2 ⟨sorted, rfl, answers_some.2 ⟨_, rfl, ?_⟩⟩
    refine gives_report.2 ⟨false, ?_, rfl⟩
    exact gives_columnsUnique.2 ⟨_, rfl, answers_some.2 ⟨_, rfl, gives_done.2 rfl⟩⟩
  obtain ⟨q', hinquire⟩ := inquire_fresh hfresh hnode hgives
  obtain ⟨_, _, _, _, _, _, _, _, hrepeats⟩ := repeats_of_columnsUnique hfresh (by simp) hserve
    hnode (by decide) hinquire hrows
  exact ⟨fresh, q', hfresh, hinquire, hrows, hrepeats (.inr (by decide))⟩

/-- The filter drops both rows and still answers for them. -/
theorem not_unique_without_rows :
    let shape : Schema := [⟨"n", .int64 false, {}⟩]
    let source : TableSource Binary64 :=
      ⟨fun _ => .error (.planning (.unknownTableId 0)), fun _ => .ok none⟩
    let p : Plan := .filter 2 (.values 1 [[.int64 1], [.int64 1]] shape)
      (.literal (.boolean false) (.boolean false))
    ∃ fresh q', ofPlan p .builtin source Quantity.one 1 true = .ok fresh ∧ p.Valid ∧
      (∀ m ∈ p.nodes, m.children = [] → m.kind = .values) ∧ p.width = 1 ∧
      fresh.inquire p (columnsUnique .self (.range 1) false) = some (.ok (some false), q') ∧
      p.collect {} (fun _ => []) = .ok [] ∧ ¬ Repeats (.range 1) [] := by
  intro shape source p
  obtain ⟨fresh, hfresh⟩ : ∃ fresh : Query Binary64,
      ofPlan p .builtin source Quantity.one 1 true = .ok fresh := ⟨_, rfl⟩
  have hgives : fresh.Gives p (columnsUnique .self (.range 1) false) (.ok (some false)) := by
    obtain ⟨-, rfl⟩ := ofPlan_eq_ok hfresh
    refine gives_columnsUnique.2 ⟨p, rfl, answers_some.2 ⟨_, rfl, ?_⟩⟩
    refine gives_report.2 ⟨false, ?_, rfl⟩
    exact gives_columnsUnique.2 ⟨_, rfl, answers_some.2 ⟨_, rfl, gives_done.2 rfl⟩⟩
  obtain ⟨q', hinquire⟩ := inquire_fresh hfresh (Plan.self_mem_nodes p) hgives
  exact ⟨fresh, q', hfresh, by decide +kernel, by decide, rfl, hinquire, rfl, by simp [Repeats]⟩

end Query
end Metadata
end Relational
