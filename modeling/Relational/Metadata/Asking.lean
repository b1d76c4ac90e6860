import Relational.Metadata.RuleTable

/-!
# What inquiries ask and when they fail

Each way of making an inquiry, which questions it may ask, and where it fails of itself, with no
error among the answers. A rule of a kind asks its inputs anything, but its own node only for kinds
of smaller rank: it stays below the rank of its kind.
-/
namespace Relational.Metadata
variable {Q α β : Type}

/-- Whom a rule of this rank may ask, and what. -/
def Descends (rank : Nat) : Subject → Question → Prop
  | .self, q => q.kind.rank < rank
  | .input _, _ => True
  | .node _, _ => False

abbrev Inquiry.Below (rank : Nat) (x : Inquiry Q α) : Prop := x.Asks (Descends rank)

def RuleTable.Ranked (t : RuleTable Q) : Prop :=
  ∀ node kind rule, t.lookup node kind = some rule →
    ∀ setting p args, (rule setting p args).Below kind.rank

/-- Every question that may be asked satisfies `P`, and while no answer is an error the inquiry
fails only with errors that satisfy `fails`. -/
def Inquiry.Heeds (P : Subject → Question → Prop) (fails : Error → Prop) : Inquiry Q α → Prop
  | done _ => True
  | fail e => fails e
  | ask s q next =>
    P s q ∧ (∀ fact, (next (.ok fact)).Heeds P fails) ∧
      ∀ e, (next (.error e)).Heeds P fun _ => True

open Inquiry

section Heeds
variable {P P' : Subject → Question → Prop} {fails fails' : Error → Prop}

theorem heeds_mono {x : Inquiry Q α} (hquestion : ∀ s q, P s q → P' s q)
    (h : x.Heeds P fails) : x.Heeds P' fails := by
  induction x generalizing fails with
  | done a => trivial
  | fail e => exact h
  | ask s q next ih =>
    exact ⟨hquestion s q h.1, fun fact => ih _ (h.2.1 fact), fun e => ih _ (h.2.2 e)⟩

theorem heeds_weaken {x : Inquiry Q α} (hfails : ∀ e, fails e → fails' e) (h : x.Heeds P fails) :
    x.Heeds P fails' := by
  induction x generalizing fails fails' with
  | done a => trivial
  | fail e => exact hfails e h
  | ask s q next ih =>
    exact ⟨h.1, fun fact => ih _ hfails (h.2.1 fact), fun e => ih _ (fun _ => id) (h.2.2 e)⟩

theorem asks_mono {x : Inquiry Q α} (hquestion : ∀ s q, P s q → P' s q) (h : x.Asks P) :
    x.Asks P' := by
  induction x with
  | done a => trivial
  | fail e => trivial
  | ask s q next ih => exact ⟨hquestion s q h.1, fun outcome => ih outcome (h.2 outcome)⟩

theorem asks_of_heeds {x : Inquiry Q α} (h : x.Heeds P fails) : x.Asks P := by
  induction x generalizing fails with
  | done a => trivial
  | fail e => trivial
  | ask s q next ih =>
    refine ⟨h.1, fun outcome => ?_⟩
    cases outcome with
    | ok fact => exact ih _ (h.2.1 fact)
    | error e => exact ih _ (h.2.2 e)

theorem heeds_bind {x : Inquiry Q α} {f : α → Inquiry Q β} (hx : x.Heeds P fails)
    (hf : ∀ a, (f a).Heeds P fails) : (x >>= f).Heeds P fails := by
  induction x generalizing fails with
  | done a => exact hf a
  | fail e => exact hx
  | ask s q next ih =>
    exact ⟨hx.1, fun fact => ih _ (hx.2.1 fact) hf, fun e => ih _ (hx.2.2 e) fun a =>
      heeds_weaken (fun _ _ => trivial) (hf a)⟩

@[simp] theorem heeds_pure (a : α) : (pure a : Inquiry Q α).Heeds P fails := trivial

@[simp] theorem heeds_done (a : α) : (done a : Inquiry Q α).Heeds P fails := trivial

@[simp] theorem heeds_known (a : α) : (known a : Inquiry Q (Option α)).Heeds P fails := trivial

@[simp] theorem heeds_unknown : (unknown : Inquiry Q (Option α)).Heeds P fails := trivial

theorem heeds_bind_ofExcept {x : Except Error α} {f : α → Inquiry Q β}
    (h : ∀ e, x = .error e → fails e) (hf : ∀ a, x = .ok a → (f a).Heeds P fails) :
    (ofExcept x >>= f).Heeds P fails := by
  cases x with
  | ok a => exact hf a rfl
  | error e => exact h e rfl

@[simp] theorem heeds_request (s : Subject) (q : Question) :
    (request s q : Inquiry Q _).Heeds P fails ↔ P s q :=
  ⟨fun h => h.1, fun h => ⟨h, fun _ => trivial, fun _ => trivial⟩⟩

@[simp] theorem heeds_askFor (read : Fact Q → Option α) (s : Subject) (k : Kind) (args : Args) :
    (askFor read s k args).Heeds P fails ↔ P s ⟨k, args⟩ :=
  ⟨fun h => h.1, fun h => heeds_bind ((heeds_request s _).2 h) fun _ => trivial⟩

@[simp] theorem heeds_uniqueKeys (s : Subject) (b : Bool) :
    (uniqueKeys s b : Inquiry Q _).Heeds P fails ↔ P s ⟨.uniqueKeys, .ignoreNulls b⟩ :=
  heeds_askFor _ _ _ _

@[simp] theorem heeds_columnsUnique (s : Subject) (c : ColumnSet) (b : Bool) :
    (columnsUnique s c b : Inquiry Q _).Heeds P fails ↔
      P s ⟨.columnUniqueness, .columns c b⟩ :=
  heeds_askFor _ _ _ _

theorem heeds_report {x : Inquiry Q (Option α)} (wrap : α → Fact Q) (hx : x.Heeds P fails) :
    (report wrap x).Heeds P fails :=
  heeds_bind hx fun _ => trivial

theorem heeds_fromInput {wrap : α → Fact Q} {p : Plan}
    {question : Subject → Inquiry Q (Option α)} (h : (question (.input 0)).Heeds P fails) :
    (fromInput wrap p question).Heeds P fails := by
  unfold fromInput
  split
  · trivial
  · exact heeds_report _ h

theorem heeds_forInputs {question : Subject → Inquiry Q (Option α)}
    (h : ∀ i, (question (.input i)).Heeds P fails) (n first : Nat) :
    (forInputs question n first).Heeds P fails := by
  induction n generalizing first with
  | zero => trivial
  | succ n ih =>
    refine heeds_bind (h first) fun a => ?_
    cases a with
    | none => trivial
    | some a =>
      refine heeds_bind (ih (first + 1)) fun rest => ?_
      cases rest <;> trivial

variable [Quantity Q]

theorem heeds_askAmount {s : Subject} {k : Kind} {args : Args} (h : P s ⟨k, args⟩) :
    (askAmount s k args : Inquiry Q _).Heeds P fails :=
  heeds_bind ((heeds_askFor _ _ _ _).2 h) fun _ => trivial

theorem heeds_selectivity {s : Subject} {e : Option Expr}
    (h : P s ⟨.selectivity, .predicate e⟩) : (selectivity s e : Inquiry Q _).Heeds P fails :=
  heeds_bind ((heeds_askFor _ _ _ _).2 h) fun _ => trivial

theorem heeds_tupleCount {s : Subject} (h : P s ⟨.tupleCount, .none⟩)
    (hmax : P s ⟨.maxRowCount, .none⟩) (hmin : P s ⟨.minRowCount, .none⟩) :
    (tupleCount s : Inquiry Q _).Heeds P fails := by
  refine heeds_bind (heeds_askAmount h) fun rows => ?_
  cases rows with
  | none => trivial
  | some rows =>
    refine heeds_bind (heeds_askAmount hmax) fun _ => ?_
    exact heeds_bind (heeds_askAmount hmin) fun _ => trivial

end Heeds
end Relational.Metadata
