import Relational.Proofs.Metadata.Derivation

/-!
# Known answers

How an inquiry comes to a known answer, for each way of making one.
-/
namespace Relational.Metadata.Basis
variable {Q α β : Type} {b : Basis Q} {node : Plan}

theorem gives_done {a : α} {outcome : Except Error α} :
    b.Gives node (.done a) outcome ↔ outcome = .ok a :=
  ⟨fun h => by cases h; rfl, fun h => h ▸ .done a⟩

theorem gives_fail {e : Error} {outcome : Except Error α} :
    b.Gives node (.fail e : Inquiry Q α) outcome ↔ outcome = .error e :=
  ⟨fun h => by cases h; rfl, fun h => h ▸ .fail e⟩

theorem gives_ofExcept {x outcome : Except Error α} :
    b.Gives node (Inquiry.ofExcept x) outcome ↔ outcome = x := by
  cases x with
  | ok a => exact gives_done
  | error e => exact gives_fail

/-- What a question comes to where it is asked; it is unknown where there is no node to ask. -/
def Finds (b : Basis Q) (node : Plan) (s : Subject) (q : Question)
    (found : Except Error (Option (Fact Q))) : Prop :=
  b.node? node s = none ∧ found = .ok none ∨
    ∃ other, b.node? node s = some other ∧ b.Answers other q found

theorem gives_ask {s : Subject} {q : Question}
    {next : Except Error (Option (Fact Q)) → Inquiry Q α} {outcome : Except Error α} :
    b.Gives node (.ask s q next) outcome ↔
      ∃ found, b.Finds node s q found ∧ b.Gives node (Inquiry.resume next found) outcome := by
  constructor
  · intro h
    cases h with
    | missing hs rest => exact ⟨_, .inl ⟨hs, rfl⟩, rest⟩
    | asked hs answers rest => exact ⟨_, .inr ⟨_, hs, answers⟩, rest⟩
  · rintro ⟨found, ⟨hs, rfl⟩ | ⟨other, hs, answers⟩, rest⟩
    · exact .missing hs rest
    · exact .asked hs answers rest

theorem gives_resume {next : Except Error (Option (Fact Q)) → Inquiry Q α}
    {found : Except Error (Option (Fact Q))} {r : α} :
    b.Gives node (Inquiry.resume next found) (.ok r) ↔
      found ≠ .error .overflow ∧ b.Gives node (next found) (.ok r) := by
  by_cases h : found = .error .overflow
  · simp [h, gives_fail]
  · simp [h, Inquiry.resume_of_ne]

/-- One inquiry after the other; an error of the first ends both. -/
theorem gives_bind_iff {x : Inquiry Q α} {f : α → Inquiry Q β} {outcome : Except Error β} :
    b.Gives node (x >>= f) outcome ↔
      (∃ a, b.Gives node x (.ok a) ∧ b.Gives node (f a) outcome) ∨
        ∃ e, b.Gives node x (.error e) ∧ outcome = .error e := by
  have hfail (e : Error) : b.Gives node (.fail e : Inquiry Q β) outcome ↔
      (∃ a, b.Gives node (.fail e : Inquiry Q α) (.ok a) ∧ b.Gives node (f a) outcome) ∨
        ∃ e', b.Gives node (.fail e : Inquiry Q α) (.error e') ∧ outcome = .error e' := by
    simp [gives_fail]
  induction x with
  | done a =>
    change b.Gives node (f a) outcome ↔ _
    simp [gives_done]
  | fail e => exact hfail e
  | ask s q next ih =>
    have hnext (found : Except Error (Option (Fact Q))) :
        b.Gives node ((Inquiry.resume next found).bind f) outcome ↔
          (∃ a, b.Gives node (Inquiry.resume next found) (.ok a) ∧ b.Gives node (f a) outcome) ∨
            ∃ e, b.Gives node (Inquiry.resume next found) (.error e) ∧ outcome = .error e := by
      by_cases h : found = .error .overflow
      · rw [h]
        exact hfail _
      · rw [Inquiry.resume_of_ne _ h]
        exact ih found
    change b.Gives node (.ask s q fun found => (next found).bind f) outcome ↔ _
    simp only [gives_ask, ← Inquiry.resume_bind, hnext]
    constructor
    · rintro ⟨found, hfound, ⟨a, ha, hr⟩ | ⟨e, he, hr⟩⟩
      · exact .inl ⟨a, ⟨found, hfound, ha⟩, hr⟩
      · exact .inr ⟨e, ⟨found, hfound, he⟩, hr⟩
    · rintro (⟨a, ⟨found, hfound, ha⟩, hr⟩ | ⟨e, ⟨found, hfound, he⟩, hr⟩)
      · exact ⟨found, hfound, .inl ⟨a, ha, hr⟩⟩
      · exact ⟨found, hfound, .inr ⟨e, he, hr⟩⟩

theorem gives_bind {x : Inquiry Q α} {f : α → Inquiry Q β} {r : β} :
    b.Gives node (x >>= f) (.ok r) ↔
      ∃ a, b.Gives node x (.ok a) ∧ b.Gives node (f a) (.ok r) := by
  simp [gives_bind_iff]

theorem gives_known {a : α} {r : Option α} :
    b.Gives node (.known a : Inquiry Q (Option α)) (.ok r) ↔ r = some a := by
  simp [Inquiry.known, gives_done]

theorem gives_unknown {r : Option α} :
    b.Gives node (.unknown : Inquiry Q (Option α)) (.ok r) ↔ r = none := by
  simp [Inquiry.unknown, gives_done]

theorem gives_pure {a r : α} : b.Gives node (pure a : Inquiry Q α) (.ok r) ↔ r = a :=
  gives_done.trans (by simp)

theorem answers_some {q : Question} {fact : Fact Q} :
    b.Answers node q (.ok (some fact)) ↔
      ∃ rule, b.rules.lookup node.kind q.kind = some rule ∧
        b.Gives node (rule b.setting node q.args) (.ok (some fact)) := by
  unfold Answers inquiry
  cases b.rules.lookup node.kind q.kind with
  | none => simp [gives_unknown]
  | some rule => simp

theorem gives_request {s : Subject} {q : Question} {fact : Fact Q} :
    b.Gives node (.request s q) (.ok (some fact)) ↔
      ∃ other, b.node? node s = some other ∧ b.Answers other q (.ok (some fact)) := by
  constructor
  · intro h
    cases h with
    | missing _ rest => cases rest
    | @asked _ _ _ _ _ _ found _ hs answers rest =>
      replace rest := (gives_resume.1 rest).2
      cases found with
      | error e => cases rest
      | ok found =>
        cases rest
        exact ⟨_, hs, answers⟩
  · rintro ⟨other, hs, answers⟩
    exact .asked hs answers (.done _)

theorem gives_askFor {read : Fact Q → Option α} {s : Subject} {kind : Kind} {args : Args} {a : α} :
    b.Gives node (askFor read s kind args) (.ok (some a)) ↔
      ∃ other fact, b.node? node s = some other ∧
        b.Answers other ⟨kind, args⟩ (.ok (some fact)) ∧ read fact = some a := by
  simp only [askFor, gives_bind, gives_pure]
  constructor
  · rintro ⟨found, hfound, hread⟩
    obtain ⟨fact, rfl, hfact⟩ := Option.bind_eq_some_iff.1 hread.symm
    obtain ⟨other, hs, answers⟩ := gives_request.1 hfound
    exact ⟨other, fact, hs, answers, hfact⟩
  · rintro ⟨other, fact, hs, answers, hfact⟩
    exact ⟨some fact, gives_request.2 ⟨other, hs, answers⟩, hfact.symm⟩

theorem gives_askFor_none {read : Fact Q → Option α} {s : Subject} {kind : Kind} {args : Args}
    {other : Plan} (hs : b.node? node s = some other)
    (h : b.Answers other ⟨kind, args⟩ (.ok none)) :
    b.Gives node (askFor read s kind args) (.ok none) :=
  gives_bind.2 ⟨none, .asked hs h (.done _), gives_pure.2 rfl⟩

theorem gives_askFor_iff {read : Fact Q → Option α} {wrap : α → Fact Q}
    (hread : ∀ fact a, read fact = some a ↔ fact = wrap a) {s : Subject} {kind : Kind}
    {args : Args} {a : α} :
    b.Gives node (askFor read s kind args) (.ok (some a)) ↔
      ∃ other, b.node? node s = some other ∧
        b.Answers other ⟨kind, args⟩ (.ok (some (wrap a))) := by
  rw [gives_askFor]
  constructor
  · rintro ⟨other, fact, hs, answers, hfact⟩
    obtain rfl := (hread fact a).1 hfact
    exact ⟨other, hs, answers⟩
  · rintro ⟨other, hs, answers⟩
    exact ⟨other, wrap a, hs, answers, (hread _ a).2 rfl⟩

theorem exists_self {F : Plan → Prop} :
    (∃ other, b.node? node .self = some other ∧ F other) ↔ F node := by
  simp [node?]

theorem gives_uniqueKeys {s : Subject} {ignoreNulls : Bool} {keys : List ColumnSet} :
    b.Gives node (uniqueKeys s ignoreNulls) (.ok (some keys)) ↔
      ∃ other, b.node? node s = some other ∧
        b.Answers other ⟨.uniqueKeys, .ignoreNulls ignoreNulls⟩ (.ok (some (.keys keys))) :=
  gives_askFor_iff fun fact keys => by cases fact <;> simp [Fact.keys?]

theorem gives_columnsUnique {s : Subject} {columns : ColumnSet} {ignoreNulls flag : Bool} :
    b.Gives node (columnsUnique s columns ignoreNulls) (.ok (some flag)) ↔
      ∃ other, b.node? node s = some other ∧
        b.Answers other ⟨.columnUniqueness, .columns columns ignoreNulls⟩
          (.ok (some (.flag flag))) :=
  gives_askFor_iff fun fact flag => by cases fact <;> simp [Fact.flag?]

theorem gives_collations {s : Subject} {orders : List Collation} :
    b.Gives node (collations s) (.ok (some orders)) ↔
      ∃ other, b.node? node s = some other ∧
        b.Answers other ⟨.collation, .none⟩ (.ok (some (.collations orders))) :=
  gives_askFor_iff fun fact orders => by cases fact <;> simp [Fact.collations?]

theorem gives_distribution {s : Subject} {placed : Distribution} :
    b.Gives node (distribution s) (.ok (some placed)) ↔
      ∃ other, b.node? node s = some other ∧
        b.Answers other ⟨.distribution, .none⟩ (.ok (some (.distribution placed))) :=
  gives_askFor_iff fun fact placed => by cases fact <;> simp [Fact.distribution?]

theorem gives_averageColumnSizes {s : Subject} {sizes : List (Option Q)} :
    b.Gives node (averageColumnSizes s) (.ok (some sizes)) ↔
      ∃ other, b.node? node s = some other ∧
        b.Answers other ⟨.averageColumnSizes, .none⟩ (.ok (some (.sizes sizes))) :=
  gives_askFor_iff fun fact sizes => by cases fact <;> simp [Fact.sizes?]

theorem gives_expressionLineage {s : Subject} {e : Expr} {exprs : List Expr} :
    b.Gives node (expressionLineage s e) (.ok (some exprs)) ↔
      ∃ other, b.node? node s = some other ∧
        b.Answers other ⟨.expressionLineage, .expr e⟩ (.ok (some (.exprs exprs))) :=
  gives_askFor_iff fun fact exprs => by cases fact <;> simp [Fact.exprs?]

theorem gives_columnOrigins {s : Subject} {c : Nat} {origins : List ColumnOrigin} :
    b.Gives node (columnOrigins s c) (.ok (some origins)) ↔
      ∃ other, b.node? node s = some other ∧
        b.Answers other ⟨.columnOrigin, .column c⟩ (.ok (some (.origins origins))) :=
  gives_askFor_iff fun fact origins => by cases fact <;> simp [Fact.origins?]

theorem gives_tableReferences {s : Subject} {tables : List TableOccurrence} :
    b.Gives node (tableReferences s) (.ok (some tables)) ↔
      ∃ other, b.node? node s = some other ∧
        b.Answers other ⟨.tableReferences, .none⟩ (.ok (some (.tables tables))) :=
  gives_askFor_iff fun fact tables => by cases fact <;> simp [Fact.tables?]

theorem gives_askAmount [Quantity Q] {s : Subject} {kind : Kind} {args : Args} {x : Q} :
    b.Gives node (askAmount s kind args) (.ok (some x)) ↔
      ∃ other y, b.node? node s = some other ∧
        b.Answers other ⟨kind, args⟩ (.ok (some (.number y))) ∧ Quantity.atLeastZero y = x := by
  simp only [askAmount, gives_bind, gives_pure]
  constructor
  · rintro ⟨found, hfound, hx⟩
    obtain ⟨y, rfl, hy⟩ := Option.map_eq_some_iff.1 hx.symm
    obtain ⟨other, fact, hs, answers, hread⟩ := gives_askFor.1 hfound
    cases fact <;> cases hread
    exact ⟨other, y, hs, answers, hy⟩
  · rintro ⟨other, y, hs, answers, rfl⟩
    exact ⟨some y, gives_askFor.2 ⟨other, _, hs, answers, rfl⟩, rfl⟩

theorem gives_report {wrap : α → Fact Q} {x : Inquiry Q (Option α)} {fact : Fact Q} :
    b.Gives node (report wrap x) (.ok (some fact)) ↔
      ∃ a, b.Gives node x (.ok (some a)) ∧ wrap a = fact := by
  simp only [report, gives_bind, gives_pure]
  constructor
  · rintro ⟨found, hfound, hfact⟩
    obtain ⟨a, rfl, ha⟩ := Option.map_eq_some_iff.1 hfact.symm
    exact ⟨a, hfound, ha⟩
  · rintro ⟨a, ha, rfl⟩
    exact ⟨some a, ha, rfl⟩

theorem gives_fromInput {wrap : α → Fact Q} {p : Plan} {question : Subject → Inquiry Q (Option α)}
    {fact : Fact Q} (h : b.Gives node (fromInput wrap p question) (.ok (some fact))) :
    ∃ a, b.Gives node (question (.input 0)) (.ok (some a)) ∧ wrap a = fact := by
  unfold fromInput at h
  split at h
  · cases gives_unknown.1 h
  · exact gives_report.1 h

theorem gives_fromInput_ok {wrap : α → Fact Q} {p : Plan}
    {question : Subject → Inquiry Q (Option α)} {a : α} (hinput : p.children ≠ [])
    (h : b.Gives node (question (.input 0)) (.ok (some a))) :
    b.Gives node (fromInput wrap p question) (.ok (some (wrap a))) := by
  rw [fromInput, if_neg (by simpa using hinput)]
  exact gives_report.2 ⟨a, h, rfl⟩

theorem gives_forInputs {question : Subject → Inquiry Q (Option α)} {count first : Nat}
    {answers : List α} (h : b.Gives node (forInputs question count first) (.ok (some answers))) :
    List.Forall₂ (fun i a => b.Gives node (question (.input i)) (.ok (some a)))
      (List.range' first count) answers := by
  induction count generalizing first answers with
  | zero =>
    cases gives_known.1 h
    exact .nil
  | succ count ih =>
    obtain ⟨found, hfound, h⟩ := gives_bind.1 h
    cases found with
    | none => cases gives_unknown.1 h
    | some a =>
      obtain ⟨rest, hrest, h⟩ := gives_bind.1 h
      cases rest with
      | none => cases gives_unknown.1 h
      | some rest =>
        cases gives_known.1 h
        exact .cons hfound (ih hrest)

theorem gives_forInputs_ok {question : Subject → Inquiry Q (Option α)} {count first : Nat}
    {answers : List α}
    (h : List.Forall₂ (fun i a => b.Gives node (question (.input i)) (.ok (some a)))
      (List.range' first count) answers) :
    b.Gives node (forInputs question count first) (.ok (some answers)) := by
  induction count generalizing first answers with
  | zero =>
    cases h
    exact gives_known.2 rfl
  | succ count ih =>
    cases h with
    | @cons _ a _ rest hfirst hrest =>
      refine gives_bind.2 ⟨some a, hfirst, gives_bind.2 ⟨some rest, ih hrest, ?_⟩⟩
      exact gives_known.2 rfl

theorem gives_inputs {question : Subject → Inquiry Q (Option α)} {answers : List α}
    (h : b.Gives node (forInputs question node.children.length) (.ok (some answers))) :
    List.Forall₂ (fun child a => ∃ i, b.node? node (.input i) = some child ∧
      b.Gives node (question (.input i)) (.ok (some a))) node.children answers := by
  have hanswers := gives_forInputs h
  suffices ∀ (before rest : List Plan), before ++ rest = node.children → ∀ answers : List α,
      List.Forall₂ (fun i a => b.Gives node (question (.input i)) (.ok (some a)))
        (List.range' before.length rest.length) answers →
      List.Forall₂ (fun child a => ∃ i, b.node? node (.input i) = some child ∧
        b.Gives node (question (.input i)) (.ok (some a))) rest answers from
    this [] node.children rfl answers hanswers
  -- the inputs before the rest are counted by the number of the first one
  intro before rest
  induction rest generalizing before with
  | nil =>
    intro _ answers h
    cases h
    exact .nil
  | cons child rest ih =>
    intro hsplit answers h
    cases h with
    | cons hfirst hrest =>
      refine .cons ⟨before.length, ?_, hfirst⟩ (ih (before ++ [child]) (by simp [hsplit]) _ ?_)
      · simp [node?, ← hsplit]
      · simpa using hrest

theorem gives_inputs_ok {p : Plan} {question : Subject → Inquiry Q (Option α)} {answers : List α}
    (h : List.Forall₂ (fun child a => ∀ i, b.node? p (.input i) = some child →
      b.Gives p (question (.input i)) (.ok (some a))) p.children answers) :
    b.Gives p (forInputs question p.children.length) (.ok (some answers)) := by
  refine gives_forInputs_ok (List.forall₂_iff_get.2 ⟨by simp [h.length_eq], fun i hi hj => ?_⟩)
  have hchild : i < p.children.length := h.length_eq ▸ hj
  have hgives := h.get hchild hj i (List.getElem?_eq_getElem hchild)
  simpa using hgives

end Relational.Metadata.Basis
