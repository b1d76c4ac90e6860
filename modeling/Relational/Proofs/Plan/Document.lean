import Relational.Expr.Typing
import Relational.Plan.Document
import Relational.Proofs.Expr.Evaluation
import Relational.Proofs.Plan.Nodes

/-!
# Plans from documents

A text that is read as a plan gives one in which every node passed its checks over its inputs. The
checks look at the references to columns, and at no type that is declared elsewhere: literals and
calls need not be such as the checked constructors make.
-/
namespace Relational

namespace Expr

/-- Literals and calls have the types that the checked constructors give them. -/
inductive Formed : Expr → Prop
  | literal {v : Value} {t : SqlType} (h : v = .null ∨ v.dataType = t.dataType) :
    Formed (.literal v t)
  | column (i : Nat) (t : SqlType) : Formed (.column i t)
  | call {op : Op} {operands : List Expr} {t : SqlType} (h : callType op operands = .ok t)
      (formed : ∀ o ∈ operands, Formed o) : Formed (.call op operands t)
  | cast {e : Expr} (t : SqlType) (formed : Formed e) : Formed (.call .cast [e] t)
  | correlation (id : Nat) (t : SqlType) : Formed (.correlation id t)
  | tableColumn (table : TableOccurrence) (i : Nat) (t : SqlType) :
    Formed (.tableColumn table i t)

theorem readings_of_validate {schema : Schema} {e : Expr} (h : e.validate schema = .ok ()) :
    ∀ r ∈ e.readings, ∃ f, schema[r.1]? = some f ∧ f.type.dataType = r.2.dataType := by
  induction e using operandInduction with
  | column i t =>
    simp only [validate] at h
    split at h
    · cases h
    next f hf =>
      split at h
      next hsame =>
        intro r hr
        obtain rfl := List.mem_singleton.1 hr
        exact ⟨f, hf, hsame⟩
      · cases h
  | call op operands t ih =>
    simp only [validate] at h
    rw [readings]
    induction operands with
    | nil => exact fun r hr => absurd hr List.not_mem_nil
    | cons o rest ihRest =>
      obtain ⟨_, ho, hrest⟩ := bind_eq_ok.1 h
      obtain ⟨iho, ihAll⟩ := List.forall_mem_cons.1 ih
      rw [readingsOf]
      exact List.forall_mem_append.2 ⟨iho ho, ihRest ihAll hrest⟩
  | _ => exact fun r hr => absurd hr List.not_mem_nil

end Expr

namespace Plan

def exprs : Plan → List Expr
  | filter _ _ predicate => [predicate]
  | project _ _ columns => columns.map (·.expr)
  | join _ _ _ condition _ => [condition]
  | _ => []

def inputRow (p : Plan) : Schema := p.children.flatMap schema

def calls : Plan → List AggregateCall
  | aggregate _ _ _ calls _ => calls
  | _ => []

/-- Every expression and every call of a built-in function has the type that it is given by the
checked constructors. -/
structure WellTyped (p : Plan) : Prop where
  exprs : ∀ node ∈ p.nodes, ∀ e ∈ node.exprs, e.Formed
  calls : ∀ node ∈ p.nodes, ∀ c ∈ node.calls, (∀ name, c.function ≠ .user name) →
    (AggregateCall.derive c.function c.args c.name node.inputRow).map (·.type) = .ok c.type

theorem validate_of_check {node : Plan} (h : node.check = .ok ()) :
    ∀ e ∈ node.exprs, e.validate node.inputRow = .ok () := by
  cases node with
  | filter id input predicate =>
    obtain ⟨_, hvalidate, -⟩ := bind_eq_ok.1 h
    simpa [exprs, inputRow, children] using hvalidate
  | project id input columns =>
    have hcolumns := forM_eq_ok.1 h
    simpa [exprs, inputRow, children] using hcolumns
  | join id left right condition type =>
    obtain ⟨_, hvalidate, -⟩ := bind_eq_ok.1 h
    simpa [exprs, inputRow, children] using hvalidate
  | _ => exact fun e he => absurd he List.not_mem_nil

theorem Valid.of_mem_nodes {p node : Plan} (h : p.Valid) (hnode : node ∈ p.nodes) :
    node.Valid := by
  induction p using inputInduction with
  | node p ih =>
    rw [nodes_eq_cons] at hnode
    rcases List.mem_cons.1 hnode with rfl | hbelow
    · exact h
    · obtain ⟨child, hchild, hnode⟩ := List.mem_flatMap.1 hbelow
      cases h with | node _ hchildren => exact ih child hchild (hchildren child hchild) hnode

theorem valid_iff {p : Plan} : p.Valid ↔ ∀ node ∈ p.nodes, node.check = .ok () := by
  constructor
  · intro h node hnode
    cases h.of_mem_nodes hnode with | node hcheck _ => exact hcheck
  · intro h
    induction p using inputInduction with
    | node p ih =>
      refine .node (h p (self_mem_nodes p)) fun child hchild => ih child hchild ?_
      exact fun node hnode => h node (mem_nodes_trans (mem_nodes_of_mem_children hchild) hnode)

instance : DecidablePred Valid := fun p =>
  decidable_of_iff (∀ node ∈ p.nodes, node.check.toOption = some ())
    (by simp only [toOption_eq_some, valid_iff])

def Makes (operator : Nat → Except ShapeFault Plan) : Prop :=
  ∀ id p, operator id = .ok p → ∀ c ∈ p.children, c.Valid

namespace Members
variable {m m' : Members} {tag key : String} {j : Json}

structure Sound (m : Members) : Prop where
  plans : ∀ entry ∈ m.plans, entry.2.Valid
  lists : ∀ entry ∈ m.lists, ∀ p ∈ entry.2, p.Valid

theorem mem_of_lookup {α : Type} {key : String} {a : α} {entries : List (String × α)}
    (h : entries.lookup key = some a) : (key, a) ∈ entries := by
  obtain ⟨before, after, rfl, -⟩ := List.lookup_eq_some_iff.1 h
  simp

theorem Sound.take {plan : Unit → Except ShapeFault Plan}
    {plans : Unit → Except ShapeFault (List Plan)} (hm : m.Sound)
    (hplan : ∀ p, plan () = .ok p → p.Valid)
    (hplans : ∀ ps, plans () = .ok ps → ∀ p ∈ ps, p.Valid)
    (h : m.take tag key j plan plans = .ok m') : m'.Sound := by
  unfold Members.take at h
  cases hhas : m.has key with
  | true =>
    rw [hhas] at h
    split at h <;> cases h
  | false =>
    rw [hhas] at h
    split at h
    · obtain ⟨p, hp, hm'⟩ := bind_eq_ok.1 h
      cases hm'
      exact ⟨List.forall_mem_cons.2 ⟨hplan p hp, hm.plans⟩, hm.lists⟩
    · obtain ⟨ps, hps, hm'⟩ := bind_eq_ok.1 h
      cases hm'
      exact ⟨hm.plans, List.forall_mem_cons.2 ⟨hplans ps hps, hm.lists⟩⟩
    · simp only [Bool.false_eq_true, if_false] at h
      split at h
      · cases h
        exact ⟨hm.plans, hm.lists⟩
      · cases h
    · simp only [Bool.false_eq_true, if_false] at h
      split at h
      · cases h
        exact hm
      · cases h

theorem Sound.makes {make : Nat → Except ShapeFault Plan} (hm : m.Sound)
    (h : m.operator? tag = some make) : Makes make := by
  have hinput {key : String} {p : Plan} (h : m.plans.lookup key = some p) : p.Valid :=
    hm.plans _ (mem_of_lookup h)
  have hinputs {ps : List Plan} (h : m.lists.lookup "inputs" = some ps) : ∀ p ∈ ps, p.Valid :=
    hm.lists _ (mem_of_lookup h)
  unfold operator? at h
  intro id p hp
  split at h
  all_goals
    simp only [Option.bind_eq_bind, Option.bind_eq_some_iff, Option.pure_def,
      Option.some.injEq] at h
  -- the operators in the order in which they are read, by the plans among their members
  case h_1 | h_2 =>
    obtain ⟨_, -, _, -, rfl⟩ := h
    cases hp
    exact fun c hc => absurd hc List.not_mem_nil
  case h_3 | h_11 =>
    obtain ⟨child, hchild, _, -, rfl⟩ := h
    cases hp
    exact List.forall_mem_singleton.2 (hinput hchild)
  case h_4 =>
    obtain ⟨child, hchild, _, -, _, -, rfl⟩ := h
    dsimp only at hp
    split at hp
    · cases hp
      exact List.forall_mem_singleton.2 (hinput hchild)
    · cases hp
  case h_5 | h_10 =>
    obtain ⟨child, hchild, _, -, _, -, _, -, rfl⟩ := h
    cases hp
    exact List.forall_mem_singleton.2 (hinput hchild)
  case h_6 =>
    obtain ⟨left, hleft, right, hright, _, -, _, -, rfl⟩ := h
    cases hp
    exact List.forall_mem_cons.2 ⟨hinput hleft, List.forall_mem_singleton.2 (hinput hright)⟩
  case h_7 | h_8 | h_9 =>
    obtain ⟨ps, hps, _, -, rfl⟩ := h
    cases hp
    exact hinputs hps
  case h_12 =>
    obtain ⟨_, -, ps, hps, rfl⟩ := h
    cases hp
    exact hinputs hps
  case h_13 => cases h

theorem Sound.operator {make : Nat → Except ShapeFault Plan} {rest : List (String × Json)}
    (hm : m.Sound) (h : m.operator tag rest = .ok make) : Makes make := by
  unfold Members.operator at h
  split at h
  next hmake =>
    cases h
    exact hm.makes hmake
  · cases h

end Members

theorem makes_of_rejecting {m : NodeMembers} {p : Plan}
    (hm : ∀ make, m.operator = some make → Makes make) (h : m.plan = .ok p) : p.Valid := by
  unfold NodeMembers.plan at h
  split at h
  next id make _ hmake =>
    obtain ⟨p', hp', h⟩ := bind_eq_ok.1 h
    split at h
    next hcheck =>
      cases h
      refine .node hcheck (hm make hmake id p ?_)
      revert hp'
      cases make id <;> simp [Except.mapError]
    · cases h
    · cases h
  · cases h

mutual
theorem valid_of_ofJson : ∀ (j : Json) {p : Plan}, ofJson j = .ok p → p.Valid
  | .object fields, p, h => by
    rw [ofJson] at h
    obtain ⟨m, hm, h⟩ := bind_eq_ok.1 h
    exact makes_of_rejecting (makes_of_nodeMembers fields (by simp) hm) h
  | .array (id :: op :: rest), p, h => by
    rw [ofJson] at h
    split at h
    · obtain ⟨operator, hoperator, h⟩ := bind_eq_ok.1 h
      split at h
      · cases h
      · refine makes_of_rejecting (fun make hmake => ?_) h
        cases hmake
        exact makes_of_operatorOfJson op hoperator
    · cases h
  | .array [], p, h | .array [_], p, h | .null, p, h | .bool _, p, h | .integer _, p, h
  | .single _, p, h | .double _, p, h | .string _, p, h | .flawed _, p, h => by
    simp [ofJson] at h

theorem makes_of_nodeMembers : ∀ (fields : List (String × Json)) {m m' : NodeMembers},
    (∀ make, m.operator = some make → Makes make) → nodeMembers m fields = .ok m' →
      ∀ make, m'.operator = some make → Makes make
  | [], m, m', hm, h => by
    cases h
    exact hm
  | (key, j) :: rest, m, m', hm, h => by
    unfold nodeMembers at h
    split at h
    next heq => cases heq
    next heq =>
      cases heq
      split at h
      · refine makes_of_nodeMembers rest ?_ h
        exact hm
      · cases h
    next heq =>
      cases heq
      split at h
      · cases h
      · obtain ⟨operator, hoperator, h⟩ := bind_eq_ok.1 h
        refine makes_of_nodeMembers rest (fun make hmake => ?_) h
        cases hmake
        exact makes_of_operatorOfJson j hoperator
    next heq =>
      cases heq
      split at h
      · exact makes_of_nodeMembers rest hm h
      · cases h

theorem makes_of_operatorOfJson : ∀ (j : Json) {make : Nat → Except ShapeFault Plan},
    operatorOfJson j = .ok make → Makes make
  | .object ((tag, .object fields) :: rest), make, h => by
    rw [operatorOfJson] at h
    obtain ⟨m, hm, h⟩ := bind_eq_ok.1 h
    exact (sound_of_operatorMembers fields ⟨by simp, by simp⟩ hm).operator h
  | .object ((tag, .array items) :: rest), make, h => by
    rw [operatorOfJson] at h
    obtain ⟨m, hm, h⟩ := bind_eq_ok.1 h
    exact (sound_of_operatorItems items ⟨by simp, by simp⟩ hm).operator h
  | .object [], make, h | .array _, make, h | .null, make, h | .bool _, make, h
  | .integer _, make, h | .single _, make, h | .double _, make, h | .string _, make, h
  | .flawed _, make, h
  | .object ((_, .null) :: _), make, h | .object ((_, .bool _) :: _), make, h
  | .object ((_, .integer _) :: _), make, h | .object ((_, .single _) :: _), make, h
  | .object ((_, .double _) :: _), make, h | .object ((_, .string _) :: _), make, h
  | .object ((_, .flawed _) :: _), make, h => by
    simp [operatorOfJson] at h

theorem sound_of_operatorMembers : ∀ (fields : List (String × Json)) {tag : String}
    {m m' : Members}, m.Sound → operatorMembers tag m fields = .ok m' → m'.Sound
  | [], tag, m, m', hm, h => by
    cases h
    exact hm
  | (key, j) :: rest, tag, m, m', hm, h => by
    rw [operatorMembers] at h
    obtain ⟨next, hnext, h⟩ := bind_eq_ok.1 h
    exact sound_of_operatorMembers rest
      (hm.take (fun p => valid_of_ofJson j) (fun ps => valid_of_listOfJson j) hnext) h

theorem sound_of_operatorItems : ∀ (items : List Json) {tag : String} {names : List String}
    {m m' : Members}, m.Sound → operatorItems tag names m items = .ok m' → m'.Sound
  | [], tag, names, m, m', hm, h => by
    cases names <;> cases h <;> exact hm
  | j :: rest, tag, [], m, m', hm, h => by
    simp [operatorItems] at h
  | j :: rest, tag, key :: names, m, m', hm, h => by
    rw [operatorItems] at h
    obtain ⟨next, hnext, h⟩ := bind_eq_ok.1 h
    exact sound_of_operatorItems rest
      (hm.take (fun p => valid_of_ofJson j) (fun ps => valid_of_listOfJson j) hnext) h

theorem valid_of_listOfJson : ∀ (j : Json) {ps : List Plan}, listOfJson j = .ok ps →
    ∀ p ∈ ps, p.Valid
  | .array items, ps, h => by
    rw [listOfJson] at h
    exact valid_of_ofJsons items h
  | .object _, ps, h | .null, ps, h | .bool _, ps, h | .integer _, ps, h
  | .single _, ps, h | .double _, ps, h | .string _, ps, h | .flawed _, ps, h => by
    simp [listOfJson] at h

theorem valid_of_ofJsons : ∀ (js : List Json) {ps : List Plan}, ofJsons js = .ok ps →
    ∀ p ∈ ps, p.Valid
  | [], ps, h => by
    cases h
    simp
  | j :: rest, ps, h => by
    rw [ofJsons] at h
    obtain ⟨p, hp, h⟩ := bind_eq_ok.1 h
    obtain ⟨ps', hps, h⟩ := bind_eq_ok.1 h
    cases h
    exact List.forall_mem_cons.2 ⟨valid_of_ofJson j hp, valid_of_ofJsons rest hps⟩
end

/-- In a plan that was read no id is repeated, every node passed its checks, and every reference to
a column has the data type of a column that is there. -/
theorem parse_checked {text : String} {p : Plan} (h : parse text = .ok p) :
    p.checkIds = .ok () ∧ p.Valid ∧ ∀ node ∈ p.nodes, ∀ e ∈ node.exprs, ∀ r ∈ e.readings,
      ∃ f, node.inputRow[r.1]? = some f ∧ f.type.dataType = r.2.dataType := by
  unfold parse ofSource at h
  obtain ⟨read, hread, h⟩ := bind_eq_ok.1 h
  have hvalid : read.Valid := by
    refine valid_of_ofJson (Json.read text).document ?_
    revert hread
    cases ofJson (Json.read text).document <;> simp [Except.mapError]
  split at h
  · cases h
  · obtain ⟨_, hids, h⟩ := bind_eq_ok.1 h
    cases h
    refine ⟨hids, hvalid, fun node hnode e he => Expr.readings_of_validate ?_⟩
    cases hvalid.of_mem_nodes hnode with | node hcheck _ => exact validate_of_check hcheck e he

def mistyped : String :=
  "\x7b\"id\":2,\"op\":\x7b\"Filter\":\x7b\"input\":" ++
  "\x7b\"id\":1,\"op\":\x7b\"Values\":\x7b\"rows\":[],\"row_shape\":\x7b\"fields\":[],\"metadata\":\x7b\x7d\x7d\x7d\x7d\x7d," ++
  "\"predicate\":\x7b\"Literal\":\x7b\"value\":\x7b\"Int64\":7\x7d,\"ty\":\x7b\"data_type\":\"Boolean\",\"nullable\":false\x7d\x7d\x7d\x7d\x7d\x7d"

theorem parse_mistyped :
    ∃ p, parse mistyped = .ok p ∧ p.exprs = [.literal (.int64 7) (.boolean false)] := by
  have h : (parse mistyped).toOption.map exprs =
      some [.literal (.int64 7) (.boolean false)] := by
    decide +kernel
  obtain ⟨p, hp, hexprs⟩ := Option.map_eq_some_iff.1 h
  exact ⟨p, toOption_eq_some.1 hp, hexprs⟩

theorem parse_checked_mistyped :
    ∃ p, parse mistyped = .ok p ∧ p.exprs = [.literal (.int64 7) (.boolean false)] ∧
      p.checkIds = .ok () ∧ p.Valid ∧ ∀ node ∈ p.nodes, ∀ e ∈ node.exprs, ∀ r ∈ e.readings,
        ∃ f, node.inputRow[r.1]? = some f ∧ f.type.dataType = r.2.dataType := by
  obtain ⟨p, hp, hexprs⟩ := parse_mistyped
  exact ⟨p, hp, hexprs, parse_checked hp⟩

/-- The types of literals and calls are not checked where a plan is read. -/
theorem not_wellTyped_of_parse : ¬ ∀ text p, parse text = .ok p → p.WellTyped := by
  intro h
  obtain ⟨p, hp, hexprs⟩ := parse_mistyped
  have hformed := (h mistyped p hp).exprs p (self_mem_nodes p) (.literal (.int64 7) (.boolean false))
    (by rw [hexprs]; exact List.mem_cons_self)
  cases hformed with
  | literal htype => rcases htype with htype | htype <;> cases htype

end Plan
end Relational
