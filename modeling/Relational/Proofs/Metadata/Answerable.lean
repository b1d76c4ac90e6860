import Relational.Proofs.Metadata.LineageChoices
import Relational.Proofs.Metadata.Pushing
import Relational.Proofs.Metadata.Raised
import Relational.Proofs.Metadata.Termination

/-!
# Every question has an answer

Over a plan of the checked constructors the built-in rules end no question about a condition in an
error, by induction along the order in which questions descend, unless a join counts beyond a
machine word. What is not known, for want of a rule, of a column or of a table in the catalog, is
answered as unknown.
-/
namespace Relational.Metadata
open Relational.Expr
variable {Q α : Type}

/-- The predicate of the question, if it has one, is a condition over rows of the schema. -/
def Question.Fits (schema : Schema) (q : Question) : Prop :=
  ∀ e, q.args.requested? = some e → Condition schema e

theorem Question.fits_of_none {schema : Schema} {q : Question} (h : q.args.requested? = none) :
    q.Fits schema := fun e he => by rw [h] at he; cases he

theorem heeds_answerTo [Quantity Q] {fails : Error → Prop} (question : Question) :
    (answerTo .self question : Inquiry Q _).Heeds
      (fun s q => s = .self ∧ (q.args = question.args ∨ q.args.requested? = none)) fails := by
  obtain ⟨kind, args⟩ := question
  cases kind with
  | tupleCount =>
    exact heeds_report _ (heeds_tupleCount ⟨rfl, .inr rfl⟩ ⟨rfl, .inr rfl⟩ ⟨rfl, .inr rfl⟩)
  | maxRowCount | minRowCount | distinctRowCount | populationSize =>
    exact heeds_report _ (heeds_askAmount ⟨rfl, .inl rfl⟩)
  | _ => exact heeds_report _ ((heeds_askFor _ _ _ _).2 ⟨rfl, .inl rfl⟩)

theorem heeds_columnOrigin (c : Nat) :
    (columnOrigin .self c : Inquiry Q _).Heeds (fun _ q => q.kind = .columnOrigin)
      fun _ => False := by
  refine heeds_bind ((heeds_askFor _ _ _ _).2 rfl) fun origins => ?_
  split <;> trivial

namespace Basis
variable {b : Basis Q} {node : Plan}

/-- Answered, or ended by an overflow of what is counted on the way. -/
def Reckoned (b : Basis Q) (node : Plan) (x : Inquiry Q α) (outcome : Except Error α) : Prop :=
  (∃ a, outcome = .ok a) ∨ outcome = .error .overflow ∧ ¬ b.WordsFit node x

/-- Where the words fit all that is asked is answered, and else it may overflow. -/
theorem reckoned_of_heeds {P : Subject → Question → Prop} {x : Inquiry Q α}
    (hx : x.Heeds P fun _ => False)
    (hanswers : ∀ s q other found, P s q → b.node? node s = some other →
      b.Answers other q found → b.Reckoned other (.request .self q) found)
    {outcome : Except Error α} (h : b.Gives node x outcome) : b.Reckoned node x outcome := by
  have hanswered : b.Answered P (fun e => e = .overflow ∧ ¬ b.WordsFit node x) node x := by
    intro s q other found hP hs hraises hfound
    refine (hanswers s q other found hP hs hfound).imp id fun ⟨hover, hwords⟩ => ⟨hover, rfl, ?_⟩
    exact fun hfit => hwords (hfit.below hraises)
  rcases ends_of_heeds (heeds_weaken (fun _ => False.elim) hx) hanswered h with
    hok | ⟨e, ⟨rfl, hwords⟩, hover⟩
  · exact .inl hok
  · exact .inr ⟨hover, hwords⟩

theorem reckoned_of_asked {P : Subject → Question → Prop} {question : Question}
    (hheeds : (b.inquiry node question).Heeds P fun e =>
      e = .overflow ∧ Counts node.kind question.kind)
    (hcounts : Counts node.kind question.kind → b.WordsFit node (.request .self question) →
      b.Answered P (fun _ => False) node (b.inquiry node question) →
      ∀ e, ¬ b.Answers node question (.error e))
    (hasked : ∀ s q other found, P s q → b.node? node s = some other →
      b.Answers other q found → b.Reckoned other (.request .self q) found)
    {outcome : Except Error (Option (Fact Q))} (h : b.Answers node question outcome) :
    b.Reckoned node (.request .self question) outcome := by
  by_cases hwords : b.WordsFit node (.request .self question)
  · have hanswered : b.Answered P (fun _ => False) node (b.inquiry node question) := by
      intro s q other found hP hother hraises hfound
      rcases hasked s q other found hP hother hfound with hok | ⟨-, hnot⟩
      · exact .inl hok
      · exact absurd (hwords.below (.within rfl hraises)) hnot
    cases outcome with
    | ok fact => exact .inl ⟨fact, rfl⟩
    | error e =>
      refine absurd h ?_
      by_cases hnode : Counts node.kind question.kind
      · exact hcounts hnode hwords hanswered e
      · exact hanswered.not_error (heeds_weaken (fun _ he => hnode he.2) hheeds) e
  · have hanswered : b.Answered P (· = .overflow) node (b.inquiry node question) := by
      intro s q other found hP hother _ hfound
      exact (hasked s q other found hP hother hfound).imp_right fun hover => ⟨hover.1, rfl⟩
    rcases ends_of_heeds (heeds_weaken (fun _ he => he.1) hheeds) hanswered h with
      hok | ⟨e, rfl, hover⟩
    · exact .inl hok
    · exact .inr ⟨hover, hwords⟩

theorem exists_join (h : node.kind = .join) :
    ∃ id left right condition type, node = .join id left right condition type := by
  cases node with
  | join id left right condition type => exact ⟨id, left, right, condition, type, rfl⟩
  | setOp id op => cases op <;> cases h
  | _ => cases h

variable [Quantity Q]

theorem inquiry_heeds (hrules : b.rules = .builtin) (hcheck : node.check = .ok ())
    (hformed : ∀ e ∈ node.exprs, e.Formed) {question : Question}
    (hfits : question.Fits node.schema) :
    (b.inquiry node question).Heeds
      (Allows question.kind.rank node.kind node question.args.requested?)
      fun e => e = .overflow ∧ Counts node.kind question.kind := by
  unfold inquiry
  split
  next rule hrule =>
    refine heeds_weaken (fun e he => ?_) (RuleTable.builtin_heeds (hrules ▸ hrule))
    exact he.resolve_left (not_unconjoined hcheck hformed hfits e)
  · trivial

theorem lineage_not_error (hrules : b.rules = .builtin) {args : Args} (hnode : node.kind = .join)
    (hwords : b.WordsFit node (.request .self ⟨.expressionLineage, args⟩))
    {P : Subject → Question → Prop} (hP : ∀ i e, P (.input i) ⟨.expressionLineage, .expr e⟩)
    (hanswered : b.Answered P (fun _ => False) node (b.inquiry node ⟨.expressionLineage, args⟩))
    (e : Error) : ¬ b.Answers node ⟨.expressionLineage, args⟩ (.error e) := by
  obtain ⟨id, left, right, condition, type, rfl⟩ := exists_join hnode
  unfold Answers
  rw [inquiry_of_builtin hrules rfl] at hanswered ⊢
  refine lineage_join_not_error hP (fun requested columns hargs hcolumns => ?_) hanswered
  obtain rfl : args = .expr requested := hargs
  exact hwords.choices id left right condition type requested columns (.here rfl) hcolumns

theorem keys_not_error (hrules : b.rules = .builtin) {args : Args} (hnode : node.kind = .join)
    (hwords : b.WordsFit node (.request .self ⟨.uniqueKeys, args⟩))
    {P : Subject → Question → Prop} (hkeys : ∀ i n, P (.input i) ⟨.uniqueKeys, .ignoreNulls n⟩)
    (hcolumns : ∀ i c n, P (.input i) ⟨.columnUniqueness, .columns c n⟩)
    (hanswered : b.Answered P (fun _ => False) node (b.inquiry node ⟨.uniqueKeys, args⟩))
    (e : Error) : ¬ b.Answers node ⟨.uniqueKeys, args⟩ (.error e) := by
  obtain ⟨id, left, right, condition, type, rfl⟩ := exists_join hnode
  unfold Answers
  rw [inquiry_of_builtin hrules rfl] at hanswered ⊢
  exact keys_join_not_error hkeys hcolumns (fun htype keys =>
    hwords.keys id left right condition type args keys (.here rfl) htype) hanswered

theorem answers_reckoned (hrules : b.rules = .builtin) (hvalid : node.Valid)
    (hformed : ∀ inner ∈ node.nodes, ∀ e ∈ inner.exprs, e.Formed) {question : Question}
    (hfits : question.Fits node.schema) {outcome : Except Error (Option (Fact Q))}
    (h : b.Answers node question outcome) :
    b.Reckoned node (.request .self question) outcome := by
  -- the arguments may be any at the questions that precede this one
  suffices hall : ∀ x : Plan × Kind, x.1.Valid →
      (∀ inner ∈ x.1.nodes, ∀ e ∈ inner.exprs, e.Formed) →
      ∀ args outcome, Question.Fits x.1.schema ⟨x.2, args⟩ → b.Answers x.1 ⟨x.2, args⟩ outcome →
        b.Reckoned x.1 (.request .self ⟨x.2, args⟩) outcome from
    hall (node, question.kind) hvalid hformed question.args outcome hfits h
  intro x
  induction x using Precedes.wellFounded.induction with
  | _ x ih =>
    obtain ⟨node, kind⟩ := x
    intro hvalid hformed args outcome hfits h
    have hasked : ∀ s q other found, Allows kind.rank node.kind node args.requested? s q →
        b.node? node s = some other → b.Answers other q found →
        b.Reckoned other (.request .self q) found := by
      intro s q other found hallows hother answers
      cases s with
      | self =>
        obtain rfl : node = other := Option.some.inj hother
        exact ih (node, q.kind) (.ranked hallows.1) hvalid hformed q.args found
          (Question.fits_of_none hallows.2) answers
      | input i =>
        have hchild := List.mem_of_getElem? hother
        refine ih (other, q.kind) (.input hchild) (hvalid.child hchild) (fun inner hinner => ?_)
          q.args found (fun e he => ?_) answers
        · exact hformed inner (Plan.mem_nodes_trans (Plan.mem_nodes_of_mem_children hchild) hinner)
        · exact condition_of_pushed hvalid.check (hformed node node.self_mem_nodes) hfits rfl
            (hallows e he) hother
      | node id => exact hallows.elim
    refine reckoned_of_asked
      (inquiry_heeds hrules hvalid.check (hformed node node.self_mem_nodes) hfits) ?_ hasked h
    rintro ⟨hnode, hkind⟩ hwords hanswered
    rcases hkind with rfl | rfl
    · exact keys_not_error hrules hnode hwords (fun _ _ => allows_input_of_none rfl)
        (fun _ _ _ => allows_input_of_none rfl) hanswered
    · exact lineage_not_error hrules hnode hwords (fun _ _ => allows_input_of_none rfl) hanswered

/-! Kinds that are asked only of inputs and only on behalf of themselves -/

section Inputs
variable {p : Plan} {kind : Kind} {args : Args}

theorem inquiry_heeds_inputs (hrules : b.rules = .builtin) {fails : Error → Prop}
    (hheeds : ∀ rule : Rule Q, RuleTable.builtin.lookup p.kind kind = some rule →
      (rule b.setting p args).Heeds (fun s q => (∃ i, s = .input i) ∧ q.kind = kind) fails) :
    (b.inquiry p ⟨kind, args⟩).Heeds (fun s q => (∃ i, s = .input i) ∧ q.kind = kind) fails := by
  unfold inquiry
  split
  next rule hrule => exact hheeds rule (hrules ▸ hrule)
  · trivial

theorem columnOrigin_ok (hrules : b.rules = .builtin) {outcome : Except Error (Option (Fact Q))}
    (h : b.Answers p ⟨.columnOrigin, args⟩ outcome) : ∃ fact, outcome = .ok fact := by
  induction p using Plan.inputInduction generalizing args outcome with
  | node p ih =>
    have hheeds : (b.inquiry p ⟨.columnOrigin, args⟩).Heeds
        (fun s q => (∃ i, s = .input i) ∧ q.kind = .columnOrigin) fun _ => False :=
      inquiry_heeds_inputs hrules fun rule hrule => by
        generalize p.kind = node at hrule
        cases node <;> cases hrule <;> simp
    have hanswered : b.Answered (fun s q => (∃ i, s = .input i) ∧ q.kind = .columnOrigin)
        (fun _ => False) p (b.inquiry p ⟨.columnOrigin, args⟩) := by
      rintro s ⟨-, args⟩ other found ⟨⟨i, rfl⟩, rfl⟩ hother - hfound
      exact .inl (ih other (List.mem_of_getElem? hother) hfound)
    cases outcome with
    | ok fact => exact ⟨fact, rfl⟩
    | error e => exact absurd h (hanswered.not_error hheeds e)

theorem origins_not_error (hrules : b.rules = .builtin) {x : Inquiry Q α}
    (hx : x.Heeds (fun _ q => q.kind = .columnOrigin) fun _ => False) (e : Error) :
    ¬ b.Gives node x (.error e) := by
  have hanswered : b.Answered (fun _ q => q.kind = .columnOrigin) (fun _ => False) node x := by
    rintro s ⟨-, args⟩ other found rfl - - hfound
    exact .inl (columnOrigin_ok hrules hfound)
  exact hanswered.not_error hx e

theorem lineage_reckoned (hrules : b.rules = .builtin) {outcome : Except Error (Option (Fact Q))}
    (h : b.Answers p ⟨.expressionLineage, args⟩ outcome) :
    b.Reckoned p (.request .self ⟨.expressionLineage, args⟩) outcome := by
  induction p using Plan.inputInduction generalizing args outcome with
  | node p ih =>
    refine reckoned_of_asked (P := fun s q => (∃ i, s = .input i) ∧ q.kind = .expressionLineage)
      (inquiry_heeds_inputs hrules fun rule hrule => ?_) ?_ ?_ h
    · generalize p.kind = node at hrule ⊢
      cases node with
      | join =>
        cases hrule
        exact Lineage.heeds_ofJoin (by simp) ⟨rfl, rfl, .inr rfl⟩
      | _ => cases hrule <;> simp
    · rintro ⟨hnode, -⟩ hwords hanswered
      exact lineage_not_error hrules hnode hwords (fun i _ => ⟨⟨i, rfl⟩, rfl⟩) hanswered
    · rintro s ⟨-, args⟩ other found ⟨⟨i, rfl⟩, rfl⟩ hother hfound
      exact ih other (List.mem_of_getElem? hother) hfound

end Inputs

end Basis

namespace Query
variable [Quantity Q] {root node : Plan} {fresh q : Query Q}

theorem inquire_reckoned (hrules : q.rules = .builtin) (ids : q.root.checkIds = .ok ())
    (hmemo : q.Sound q.memo) (hnode : node ∈ q.root.nodes) (hvalid : q.root.Valid)
    (hformed : ∀ inner ∈ q.root.nodes, ∀ e ∈ inner.exprs, e.Formed) {x : Inquiry Q α}
    (hx : x.Heeds (fun s q => s = .self ∧ q.Fits node.schema) fun _ => False) :
    ∃ outcome q', q.inquire node x = some (outcome, q') ∧ q.Reckoned node x outcome := by
  obtain ⟨⟨outcome, q'⟩, hinquire⟩ :=
    Option.isSome_iff_exists.1 (q.inquire_isSome (hrules ▸ RuleTable.builtin_ranked) node x)
  obtain ⟨-, -, hgives⟩ := inquire_sound ids hmemo hnode hinquire
  refine ⟨outcome, q', hinquire, Basis.reckoned_of_heeds hx ?_ hgives⟩
  rintro s question other found ⟨rfl, hfits⟩ hother hanswers
  obtain rfl : node = other := Option.some.inj hother
  exact Basis.answers_reckoned hrules (hvalid.of_mem_nodes hnode)
    (fun inner hinner => hformed inner (Plan.mem_nodes_trans hnode hinner)) hfits hanswers

/-- Whatever the catalog knows and whatever was asked before, every accessor answers at every node,
for every predicate over the node's rows and for any other arguments, unless a join that it comes to
counts its lineages or the columns of its keys beyond a machine word. -/
theorem builtin_answers {β : Type} {source : TableSource Q} {scanRows : Q} {splits : Nat}
    {caching : Bool} {earlier : List (Plan × Inquiry Q β)} {outcomes : List (Except Error β)}
    (hfresh : ofPlan root .builtin source scanRows splits caching = .ok fresh)
    (hearlier : ∀ r ∈ earlier, r.1 ∈ root.nodes)
    (hserve : fresh.serve earlier = some (outcomes, q)) (hvalid : root.Valid)
    (hformed : ∀ inner ∈ root.nodes, ∀ e ∈ inner.exprs, e.Formed) (hnode : node ∈ root.nodes) :
    (∀ question : Question,
      (∀ e, question.args.requested? = some e →
        e.Formed ∧ e.validate node.schema = .ok () ∧ e.IsTruth) →
      ∃ outcome q', q.inquire node (answerTo .self question) = some (outcome, q') ∧
        ((∃ answer, outcome = .ok answer) ∨
          outcome = .error .overflow ∧ ¬ q.WordsFit node (answerTo .self question))) ∧
    ∀ c, ∃ origin q', q.inquire node (columnOrigin .self c) = some (.ok origin, q') := by
  obtain ⟨hbasis, ids, hmemo⟩ := serve_fresh hfresh hearlier hserve
  have hrules : q.rules = .builtin := by rw [hbasis]
  have hroot : q.root = root := by rw [hbasis]
  constructor
  · intro question htyped
    have hfits : question.Fits node.schema := fun e he =>
      condition_of_formed (htyped e he).1 (htyped e he).2.1 (htyped e he).2.2
    refine inquire_reckoned hrules ids hmemo (hroot ▸ hnode) (hroot ▸ hvalid) (hroot ▸ hformed)
      (heeds_mono (fun s q h => ⟨h.1, ?_⟩) (heeds_answerTo question))
    rcases h.2 with hargs | hnone
    · intro e he
      exact hfits e (hargs ▸ he)
    · exact Question.fits_of_none hnone
  · intro c
    obtain ⟨⟨outcome, q'⟩, hinquire⟩ := Option.isSome_iff_exists.1
      (q.inquire_isSome (hrules ▸ RuleTable.builtin_ranked) node (columnOrigin .self c))
    obtain ⟨-, -, hgives⟩ := inquire_sound ids hmemo (hroot ▸ hnode) hinquire
    cases outcome with
    | ok origin => exact ⟨origin, q', hinquire⟩
    | error e => exact absurd hgives (Basis.origins_not_error hrules (heeds_columnOrigin c) e)

theorem builtin_answers_unlisted :
    let table : TableRef := ⟨7, "main", "orders"⟩
    let shape : Schema := [⟨"id", .int64 false, {}⟩, ⟨"customer", .int64 true, {}⟩]
    let unlisted : Error := .planning (.unknownTableId 7)
    let source : TableSource Binary64 := ⟨fun _ => .error unlisted, fun _ => .error unlisted⟩
    let known : Expr := .call .isNotNull [.column 1 (.int64 true)] (.boolean false)
    let flag : Expr := .column 0 (.boolean false)
    let projected : Plan := .project 1 (.scan 0 table shape) [⟨known, "known"⟩]
    let p : Plan := .filter 2 projected flag
    let both : Expr := .call .and [flag, .call .isNotNull [flag] (.boolean false)] (.boolean false)
    ∃ fresh, ofPlan p .builtin source Quantity.one 1 true = .ok fresh ∧ p.Valid ∧
      (∀ inner ∈ p.nodes, ∀ e ∈ inner.exprs, e.Formed) ∧
      ∃ answer q', fresh.inquire p (answerTo .self ⟨.selectivity, .predicate (some both)⟩) =
        some (.ok answer, q') := by
  intro table shape unlisted source known flag projected p both
  obtain ⟨fresh, hfresh⟩ :
      ∃ fresh : Query Binary64, ofPlan p .builtin source Quantity.one 1 true = .ok fresh := ⟨_, rfl⟩
  have hserve : fresh.serve ([] : List (Plan × Inquiry Binary64 Unit)) = some ([], fresh) := rfl
  have hvalid : p.Valid := by
    refine .node rfl (List.forall_mem_singleton.2 (.node rfl (List.forall_mem_singleton.2 ?_)))
    exact .node rfl fun _ hc => absurd hc List.not_mem_nil
  have hknown : known.Formed := .call rfl (List.forall_mem_singleton.2 (.column _ _))
  have hformed : ∀ inner ∈ p.nodes, ∀ e ∈ inner.exprs, e.Formed := by
    simp only [p, projected, Plan.nodes_eq_cons, Plan.children, List.flatMap_cons,
      List.flatMap_nil, List.append_nil, List.forall_mem_cons, Plan.exprs, List.map_cons,
      List.map_nil]
    exact ⟨⟨.column _ _, by simp⟩, ⟨hknown, by simp⟩, by simp⟩
  have hboth : both.Formed := by
    refine .call rfl (List.forall_mem_cons.2 ⟨.column _ _, List.forall_mem_singleton.2 ?_⟩)
    exact .call rfl (List.forall_mem_singleton.2 (.column _ _))
  obtain ⟨outcome, q', hinquire, hreckoned⟩ :=
    (builtin_answers hfresh (by simp) hserve hvalid hformed p.self_mem_nodes).1
      ⟨.selectivity, .predicate (some both)⟩ fun e he => by
        cases he
        exact ⟨hboth, rfl, .inl rfl⟩
  refine ⟨fresh, hfresh, hvalid, hformed, ?_⟩
  rcases hreckoned with ⟨answer, rfl⟩ | ⟨-, hwords⟩
  · exact ⟨answer, q', hinquire⟩
  · -- there is no join to count at
    obtain ⟨-, rfl⟩ := ofPlan_eq_ok hfresh
    have hjoin : ∀ id left right condition type,
        Plan.join id left right condition type ∉ p.nodes := by
      simp [p, projected, Plan.nodes_eq_cons, Plan.children]
    refine absurd ⟨?_, ?_⟩ hwords
    · intro id left right condition type e columns hraises
      exact absurd (hraises.mem_nodes p.self_mem_nodes) (hjoin id left right condition type)
    · intro id left right condition type args keys hraises
      exact absurd (hraises.mem_nodes p.self_mem_nodes) (hjoin id left right condition type)

/-- A conjunction of as many columns with two lineages each as a word has bits. -/
theorem builtin_overflows :
    let table : TableRef := ⟨7, "main", "switches"⟩
    let flag : SqlType := .boolean true
    let shape : Schema := (List.range 64).map fun _ => ⟨"flag", flag, {}⟩
    let source : TableSource Binary64 :=
      ⟨fun _ => .error (.planning (.unknownTableId 7)), fun _ => .ok none⟩
    let left : Plan := .setOp 2 .union [.scan 0 table shape, .scan 1 table shape] true
    let p : Plan :=
      .join 4 left (.values 3 [] []) (.literal (.boolean true) (.boolean false)) .inner
    let e : Expr := .call .and ((List.range 64).map (.column · flag)) flag
    ∃ fresh q', ofPlan p .builtin source Quantity.one 1 true = .ok fresh ∧ p.Valid ∧
      (∀ inner ∈ p.nodes, ∀ e ∈ inner.exprs, e.Formed) ∧
      e.Formed ∧ e.validate p.schema = .ok () ∧
      fresh.inquire p (answerTo .self ⟨.expressionLineage, .expr e⟩) =
        some (.error .overflow, q') := by
  intro table flag shape source left p e
  obtain ⟨fresh, hfresh⟩ :
      ∃ fresh : Query Binary64, ofPlan p .builtin source Quantity.one 1 true = .ok fresh := ⟨_, rfl⟩
  have hvalid : p.Valid := by decide +kernel
  have hformed : ∀ inner ∈ p.nodes, ∀ e ∈ inner.exprs, e.Formed := by
    have htrue : (Expr.literal (.boolean true) (.boolean false)).Formed := .literal (.inr rfl)
    simp [p, left, Plan.nodes_eq_cons, Plan.children, Plan.exprs, htrue]
  have hcolumns : e.Formed :=
    .call (toOption_eq_some.1 (by decide +kernel)) (by simp [Formed.column])
  have hvalidated : e.validate p.schema = .ok () := toOption_eq_some.1 (by decide +kernel)
  have hgives : fresh.Gives p (answerTo .self ⟨.expressionLineage, .expr e⟩)
      (.error .overflow) := by
    have htyped : Lineage.typedColumns e = (List.range 64).map (·, flag) := by decide +kernel
    have hread : ∀ r ∈ Lineage.typedColumns e, r.1 < shape.length := by
      rw [htyped]
      simp [shape]
    obtain ⟨-, rfl⟩ := ofPlan_eq_ok hfresh
    refine Basis.gives_bind_iff.2 (.inr ⟨.overflow, ?_, rfl⟩)
    exact Basis.gives_union_scans_overflow rfl rfl rfl (by decide) hread (by simp [htyped])
  obtain ⟨q', hinquire⟩ := inquire_fresh hfresh p.self_mem_nodes hgives
  exact ⟨fresh, q', hfresh, hvalid, hformed, hcolumns, hvalidated, hinquire⟩

end Query
end Relational.Metadata
