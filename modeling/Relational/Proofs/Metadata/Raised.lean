import Relational.Metadata.Ranked
import Relational.Proofs.Metadata.Choice
import Relational.Proofs.Metadata.ExpressionLineage

/-!
# Questions that come up

Which questions are asked of which nodes on the way of an inquiry, by the inquiry itself and in
answering what it asks. An inquiry that is answered all that it asks ends in no error but its own,
and the built-in rules overflow only at joins where what they count is too large for a machine word.
-/
namespace Relational.Metadata.Basis
open Inquiry (resume)
variable {Q : Type}

inductive Raises (b : Basis Q) :
    {α : Type} → Plan → Inquiry Q α → Plan → Question → Prop
  | here {α : Type} {node asked : Plan} {s : Subject} {q : Question}
      {next : Except Error (Option (Fact Q)) → Inquiry Q α} (h : b.node? node s = some asked) :
    Raises b node (.ask s q next) asked q
  | within {α : Type} {node other asked : Plan} {s : Subject} {q r : Question}
      {next : Except Error (Option (Fact Q)) → Inquiry Q α} (h : b.node? node s = some other)
      (below : Raises b other (b.inquiry other q) asked r) :
    Raises b node (.ask s q next) asked r
  | after {α : Type} {node other asked : Plan} {s : Subject} {q r : Question}
      {next : Except Error (Option (Fact Q)) → Inquiry Q α}
      {found : Except Error (Option (Fact Q))} (h : b.node? node s = some other)
      (answers : b.Answers other q found) (rest : Raises b node (resume next found) asked r) :
    Raises b node (.ask s q next) asked r
  | missing {α : Type} {node asked : Plan} {s : Subject} {q r : Question}
      {next : Except Error (Option (Fact Q)) → Inquiry Q α} (h : b.node? node s = none)
      (rest : Raises b node (next (.ok none)) asked r) : Raises b node (.ask s q next) asked r

variable {α β : Type} {b : Basis Q} {node other asked : Plan} {q r : Question}

theorem Raises.trans {x : Inquiry Q α} (h : b.Raises node x other q)
    (hbelow : b.Raises other (b.inquiry other q) asked r) : b.Raises node x asked r := by
  induction h with
  | here hs => exact .within hs hbelow
  | within hs _ ih => exact .within hs (ih hbelow)
  | after hs answers _ ih => exact .after hs answers (ih hbelow)
  | missing hs _ ih => exact .missing hs (ih hbelow)

theorem Raises.mem_nodes {x : Inquiry Q α} (h : b.Raises node x asked r)
    (hnode : node ∈ b.root.nodes) : asked ∈ b.root.nodes := by
  induction h with
  | here hs => exact mem_nodes_of_node? hnode hs
  | within hs _ ih => exact ih (mem_nodes_of_node? hnode hs)
  | after _ _ _ ih => exact ih hnode
  | missing _ _ ih => exact ih hnode

theorem Raises.bind {x : Inquiry Q α} (h : b.Raises node x asked r) (f : α → Inquiry Q β) :
    b.Raises node (x >>= f) asked r := by
  induction h with
  | here hs => exact .here hs
  | within hs hbelow => exact .within hs hbelow
  | after hs answers _ ih => exact .after hs answers (Inquiry.resume_bind _ f ▸ ih f)
  | missing hs _ ih => exact .missing hs (ih f)

theorem raises_bind_of_gives {x : Inquiry Q α} {a : α} {f : α → Inquiry Q β}
    (hx : b.Gives node x (.ok a)) (h : b.Raises node (f a) asked r) :
    b.Raises node (x >>= f) asked r := by
  induction x with
  | done a =>
    cases hx
    exact h
  | fail e => cases hx
  | ask s q next ih =>
    cases hx with
    | missing hs rest => exact .missing hs (ih _ rest)
    | asked hs answers rest =>
      obtain ⟨hgoes, rest⟩ := gives_resume.1 rest
      exact .after hs answers (Inquiry.resume_of_ne _ hgoes ▸ ih _ rest)

theorem raises_request {x : Inquiry Q α} (h : b.Raises node x other q)
    (hrequest : b.Raises other (.request .self q) asked r) : b.Raises node x asked r := by
  cases hrequest with
  | here hs =>
    cases hs
    exact h
  | within hs hbelow =>
    cases hs
    exact h.trans hbelow
  | @after _ _ _ _ _ _ _ _ found _ _ rest =>
    rcases eq_or_ne found (.error .overflow) with rfl | hgoes
    · cases rest
    · rw [Inquiry.resume_of_ne _ hgoes] at rest
      cases found <;> cases rest
  | missing hs _ => cases hs

/-! What is answered all that it asks -/

section Answered
variable {P : Subject → Question → Prop} {fails : Error → Prop}

/-- Of the questions that the inquiry comes by, those that satisfy `P` about nodes that it may ask
are answered, or end in an overflow that counts as a failure. -/
def Answered (b : Basis Q) (P : Subject → Question → Prop) (fails : Error → Prop) (node : Plan)
    (x : Inquiry Q α) : Prop :=
  ∀ s q other found, P s q → b.node? node s = some other → b.Raises node x other q →
    b.Answers other q found →
    (∃ fact, found = .ok fact) ∨ found = .error .overflow ∧ fails .overflow

theorem Answered.left {x : Inquiry Q α} {f : α → Inquiry Q β}
    (h : b.Answered P fails node (x >>= f)) : b.Answered P fails node x :=
  fun s q other found hP hs hraises => h s q other found hP hs (hraises.bind f)

theorem Answered.right {x : Inquiry Q α} {a : α} {f : α → Inquiry Q β}
    (h : b.Answered P fails node (x >>= f)) (hx : b.Gives node x (.ok a)) :
    b.Answered P fails node (f a) :=
  fun s q other found hP hs hraises => h s q other found hP hs (raises_bind_of_gives hx hraises)

/-- By induction on the inquiry: it ends as one of its own failures if not with an answer. -/
theorem ends_of_heeds {x : Inquiry Q α} (hx : x.Heeds P fails) (hanswered : b.Answered P fails node x)
    {outcome : Except Error α} (h : b.Gives node x outcome) :
    (∃ a, outcome = .ok a) ∨ ∃ e, fails e ∧ outcome = .error e := by
  induction x with
  | done a => exact .inl ⟨a, gives_done.1 h⟩
  | fail e => exact .inr ⟨e, hx, gives_fail.1 h⟩
  | ask s q next ih =>
    cases h with
    | missing hs rest =>
      exact ih _ (hx.2.1 none) (fun s q other found hP hs' hraises =>
        hanswered s q other found hP hs' (.missing hs hraises)) rest
    | asked hs answers rest =>
      rcases hanswered s q _ _ hx.1 hs (.here hs) answers with ⟨fact, rfl⟩ | ⟨rfl, hfails⟩
      · exact ih _ (hx.2.1 fact) (fun s q other found hP hs' hraises =>
          hanswered s q other found hP hs' (.after hs answers hraises)) rest
      · exact .inr ⟨_, hfails, gives_fail.1 rest⟩

theorem Answered.not_error {x : Inquiry Q α} (h : b.Answered P (fun _ => False) node x)
    (hx : x.Heeds P fun _ => False) (e : Error) : ¬ b.Gives node x (.error e) := by
  intro hgives
  rcases ends_of_heeds hx h hgives with ⟨a, ha⟩ | ⟨_, hfails, -⟩
  · cases ha
  · exact hfails

/-- What fails although its first part is answered all that it asks fails in the rest. -/
theorem Answered.fails_later {x : Inquiry Q α} {f : α → Inquiry Q β} {e : Error}
    (h : b.Answered P (fun _ => False) node (x >>= f)) (hx : x.Heeds P fun _ => False)
    (hgives : b.Gives node (x >>= f) (.error e)) :
    ∃ a, b.Gives node x (.ok a) ∧ b.Gives node (f a) (.error e) ∧
      b.Answered P (fun _ => False) node (f a) := by
  rcases gives_bind_iff.1 hgives with ⟨a, ha, hrest⟩ | ⟨e', he, -⟩
  · exact ⟨a, ha, hrest, h.right ha⟩
  · exact absurd he (h.left.not_error hx e')

end Answered

/-! What machine words hold -/

/-- At every join that is asked for a lineage on the way, the choices number less than a machine
word has values. -/
def ChoicesFit (b : Basis Q) (node : Plan) (x : Inquiry Q α) : Prop :=
  ∀ id left right condition type e columns,
    b.Raises node x (.join id left right condition type) ⟨.expressionLineage, .expr e⟩ →
    b.Gives (.join id left right condition type)
      (Lineage.perColumn left.width (Lineage.typedColumns e)) (.ok (some columns)) →
    Lineage.ways columns < Integer.wordCount

/-- At every join that is asked for its keys on the way, those of the right side are shifted within
machine words. -/
def KeysFit (b : Basis Q) (node : Plan) (x : Inquiry Q α) : Prop :=
  ∀ id left right condition type args keys,
    b.Raises node x (.join id left right condition type) ⟨.uniqueKeys, args⟩ →
    type.keepsRight = true →
    b.Answers right ⟨.uniqueKeys, .ignoreNulls args.ignoresNulls⟩ (.ok (some (.keys keys))) →
    UniqueKeys.Shiftable left.width keys

structure WordsFit (b : Basis Q) (node : Plan) (x : Inquiry Q α) : Prop where
  choices : b.ChoicesFit node x
  keys : b.KeysFit node x

theorem ChoicesFit.below {x : Inquiry Q α} (h : b.ChoicesFit node x)
    (hraises : b.Raises node x other q) : b.ChoicesFit other (.request .self q) :=
  fun id left right condition type e columns hjoin =>
    h id left right condition type e columns (raises_request hraises hjoin)

theorem WordsFit.below {x : Inquiry Q α} (h : b.WordsFit node x)
    (hraises : b.Raises node x other q) : b.WordsFit other (.request .self q) where
  choices := h.choices.below hraises
  keys id left right condition type args keys hjoin :=
    h.keys id left right condition type args keys (raises_request hraises hjoin)

section Joins
variable {P : Subject → Question → Prop} {id : Nat} {left right : Plan} {condition : Expr}
  {type : JoinType} {args : Args} {e : Error}

theorem lineage_join_not_error (hP : ∀ i e, P (.input i) ⟨.expressionLineage, .expr e⟩)
    (hfit : ∀ e columns, args = .expr e →
      b.Gives (.join id left right condition type)
        (Lineage.perColumn left.width (Lineage.typedColumns e)) (.ok (some columns)) →
      Lineage.ways columns < Integer.wordCount)
    (hanswered : b.Answered P (fun _ => False) (.join id left right condition type)
      (Lineage.ofJoin b.setting (.join id left right condition type) args)) :
    ¬ b.Gives (.join id left right condition type)
      (Lineage.ofJoin b.setting (.join id left right condition type) args) (.error e) := by
  intro h
  cases args with
  | expr requested =>
    obtain ⟨found, hfound, h, -⟩ := hanswered.fails_later (Lineage.heeds_perColumn hP _ _) h
    cases found with
    | none => cases h
    | some columns =>
      have hsome : ∀ column ∈ columns, column.2 ≠ [] := by
        intro column hcolumn
        obtain ⟨r, -, -, hne, -⟩ := forall₂_exists_mem (gives_perColumn.1 hfound) hcolumn
        exact hne
      have hcount : Lineage.choiceCount columns = .ok (Lineage.ways columns) := by
        rw [Lineage.choiceCount_eq hsome, wordSized_of_lt (hfit requested columns rfl hfound)]
      rcases gives_bind_iff.1 h with ⟨count, -, h⟩ | ⟨e', he, -⟩
      · split at h <;> cases h
      · cases hcount.symm.trans (gives_ofExcept.1 he).symm
  | _ => cases h

theorem keys_join_not_error (hkeys : ∀ i n, P (.input i) ⟨.uniqueKeys, .ignoreNulls n⟩)
    (hcolumns : ∀ i c n, P (.input i) ⟨.columnUniqueness, .columns c n⟩)
    (hfit : type.keepsRight = true → ∀ keys,
      b.Answers right ⟨.uniqueKeys, .ignoreNulls args.ignoresNulls⟩ (.ok (some (.keys keys))) →
      UniqueKeys.Shiftable left.width keys)
    (hanswered : b.Answered P (fun _ => False) (.join id left right condition type)
      (UniqueKeys.ofJoin b.setting (.join id left right condition type) args)) :
    ¬ b.Gives (.join id left right condition type)
      (UniqueKeys.ofJoin b.setting (.join id left right condition type) args) (.error e) := by
  intro h
  have hside {i : Nat} {n : Bool} (equated : List Nat) :
      (UniqueKeys.uniqueOnEquated (.input i) equated n : Inquiry Q _).Heeds P fun _ => False :=
    UniqueKeys.heeds_uniqueOnEquated (hcolumns i) equated n
  obtain ⟨leftKeys, -, h, hanswered⟩ := hanswered.fails_later (by simp [hkeys]) h
  cases htype : type.keepsRight with
  | false =>
    simp only [htype] at h
    cases h
  | true =>
  simp only [htype, Bool.not_true, Bool.false_eq_true, if_false] at h hanswered
  obtain ⟨rightKeys, hright, h, hanswered⟩ := hanswered.fails_later (by simp [hkeys]) h
  have hshiftable : UniqueKeys.Shiftable left.width (rightKeys.getD []) := by
    cases rightKeys with
    | none => exact List.forall_mem_nil _
    | some keys =>
      obtain ⟨_, hs, hanswers⟩ := gives_uniqueKeys.1 hright
      cases hs
      exact hfit htype keys hanswers
  rcases gives_bind_iff.1 h with ⟨both, hpaired, h⟩ | ⟨e', he, -⟩
  swap
  · replace he := gives_ofExcept.1 he
    split at he
    · exact (UniqueKeys.pairedKeys_eq_error.1 he.symm).2.2 hshiftable
    · cases he
  replace hanswered := hanswered.right hpaired
  obtain ⟨rightUnique, -, h, hanswered⟩ := hanswered.fails_later (hside _) h
  obtain ⟨leftUnique, -, h, -⟩ := hanswered.fails_later (hside _) h
  rcases gives_bind_iff.1 h with ⟨fromRight, -, h⟩ | ⟨e', he, -⟩
  · cases h
  · replace he := gives_ofExcept.1 he
    split at he
    · exact (UniqueKeys.shiftAll_eq_error.1 he.symm).2 hshiftable
    · cases he

end Joins

theorem inquiry_of_builtin [Quantity Q] (hrules : b.rules = .builtin) {rule : Rule Q}
    (hrule : RuleTable.builtin.lookup node.kind q.kind = some rule) :
    b.inquiry node q = rule b.setting node q.args := by
  rw [inquiry, hrules, hrule]

end Relational.Metadata.Basis
