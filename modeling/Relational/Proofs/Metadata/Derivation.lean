import Relational.Metadata.Query
import Relational.Proofs.Plan.Nodes

/-!
# Derived answers

What the rules answer, as a relation in which nothing is remembered. A memo is sound if each of
its entries is so derived. From a sound memo the answers that are found are those that can be
derived, and the memo stays sound, also within the derivation of another answer.
-/
namespace Relational.Metadata
open Inquiry (resume)
variable {Q α : Type}

namespace Memo

theorem find?_note_ok (memo : Memo Q) (id other : Nat) (q r : Question)
    (fact : Option (Fact Q)) :
    (memo.note id q (.ok fact)).find? other r =
      if other = id ∧ r = q then some fact else memo.find? other r := by
  by_cases h : other = id ∧ r = q
  · simp [note, find?, h]
  · have : ((other, r) == (id, q)) = false := by simpa using h
    simp [note, find?, List.lookup_cons, h, this]

end Memo

namespace Basis

/-- The inquiry ends so at the node, where every question ends as the inquiry for it. -/
inductive Gives (b : Basis Q) : {α : Type} → Plan → Inquiry Q α → Except Error α → Prop
  | done {α : Type} {node : Plan} (a : α) : Gives b node (.done a) (.ok a)
  | fail {α : Type} {node : Plan} (e : Error) : Gives b node (.fail e : Inquiry Q α) (.error e)
  | missing {α : Type} {node : Plan} {s : Subject} {q : Question}
      {next : Except Error (Option (Fact Q)) → Inquiry Q α} {outcome : Except Error α}
      (h : b.node? node s = none) (rest : Gives b node (next (.ok none)) outcome) :
    Gives b node (.ask s q next) outcome
  | asked {α : Type} {node other : Plan} {s : Subject} {q : Question}
      {next : Except Error (Option (Fact Q)) → Inquiry Q α}
      {found : Except Error (Option (Fact Q))} {outcome : Except Error α}
      (h : b.node? node s = some other) (answers : Gives b other (b.inquiry other q) found)
      (rest : Gives b node (resume next found) outcome) :
    Gives b node (.ask s q next) outcome

def Answers (b : Basis Q) (node : Plan) (q : Question) (outcome : Except Error (Option (Fact Q))) :
    Prop :=
  b.Gives node (b.inquiry node q) outcome

/-- Every entry is the derived answer for the node of the plan that has its id. -/
def Sound (b : Basis Q) (memo : Memo Q) : Prop :=
  ∀ node ∈ b.root.nodes, ∀ q fact, memo.find? node.id q = some fact → b.Answers node q (.ok fact)

variable {b : Basis Q} {caching : Bool}

theorem sound_nil : b.Sound [] := by
  intro node _ q fact h
  cases h

theorem sound_note (ids : b.root.checkIds = .ok ()) {memo : Memo Q} (hmemo : b.Sound memo)
    {node : Plan} (hnode : node ∈ b.root.nodes) {q : Question}
    {outcome : Except Error (Option (Fact Q))} (h : b.Answers node q outcome) :
    b.Sound (memo.note node.id q outcome) := by
  cases outcome with
  | error e => exact hmemo
  | ok fact =>
    intro other hother r found hfound
    rw [Memo.find?_note_ok] at hfound
    split at hfound
    next hsame =>
      obtain rfl : other = node := Plan.eq_of_id_eq ids hother hnode hsame.1
      cases hfound
      exact hsame.2 ▸ h
    · exact hmemo other hother r found hfound

theorem mem_nodes_of_node? {node other : Plan} {s : Subject} (hnode : node ∈ b.root.nodes)
    (h : b.node? node s = some other) : other ∈ b.root.nodes := by
  cases s with
  | self => exact Option.some.inj h ▸ hnode
  | input i =>
    exact Plan.mem_nodes_trans hnode
      (Plan.mem_nodes_of_mem_children (List.mem_of_getElem? h))
  | node id => exact Plan.mem_nodes_of_find? h

theorem sound_keep (ids : b.root.checkIds = .ok ()) {memo : Memo Q} (hmemo : b.Sound memo)
    {node : Plan} (hnode : node ∈ b.root.nodes) {q : Question}
    {outcome : Except Error (Option (Fact Q))} (h : b.Answers node q outcome) :
    b.Sound (memo.keep caching node.id q outcome) := by
  unfold Memo.keep
  split
  · exact sound_note ids hmemo hnode h
  · exact hmemo

theorem answers_of_kept? {memo : Memo Q} (hmemo : b.Sound memo) {node : Plan}
    (hnode : node ∈ b.root.nodes) {q : Question} {fact : Option (Fact Q)}
    (h : memo.kept? caching node.id q = some fact) : b.Answers node q (.ok fact) := by
  unfold Memo.kept? at h
  split at h
  · exact hmemo node hnode q fact h
  · cases h

/-- What is found from a sound memo is derived, and the memo stays sound. -/
theorem consult_sound (ids : b.root.checkIds = .ok ()) {node : Plan} {x : Inquiry Q α}
    {memo : Memo Q} {r : Except Error α × Memo Q} (h : b.consult caching node x memo = some r)
    (hnode : node ∈ b.root.nodes) (hmemo : b.Sound memo) : b.Sound r.2 ∧ b.Gives node x r.1 := by
  -- by induction on the approximations of `consult`
  refine consult.partial_correctness b caching
    (fun node x memo r => node ∈ b.root.nodes → b.Sound memo → b.Sound r.2 ∧ b.Gives node x r.1)
    ?_ node x memo r h hnode hmemo
  intro consult ih α node x memo r h hnode hmemo
  cases x with
  | done a =>
    cases h
    exact ⟨hmemo, .done a⟩
  | fail e =>
    cases h
    exact ⟨hmemo, .fail e⟩
  | ask s q next =>
    cases hs : b.node? node s with
    | none =>
      simp only [hs] at h
      obtain ⟨hmemo', hgives⟩ := ih node _ memo r h hnode hmemo
      exact ⟨hmemo', .missing hs hgives⟩
    | some other =>
      have hother := mem_nodes_of_node? hnode hs
      cases hkept : memo.kept? caching other.id q with
      | some fact =>
        simp only [hs, hkept] at h
        obtain ⟨hmemo', hgives⟩ := ih node _ memo r h hnode hmemo
        exact ⟨hmemo', .asked hs (answers_of_kept? hmemo hother hkept) hgives⟩
      | none =>
        simp only [hs, hkept, bind, Option.bind_eq_some_iff] at h
        obtain ⟨⟨found, memo₁⟩, hfound, hrest⟩ := h
        obtain ⟨hmemo₁, hanswers⟩ := ih other _ memo _ hfound hother hmemo
        obtain ⟨hmemo', hgives⟩ := ih node _ _ r hrest hnode (sound_keep ids hmemo₁ hother hanswers)
        exact ⟨hmemo', .asked hs hanswers hgives⟩

theorem Gives.unique {node : Plan} {x : Inquiry Q α} {outcome other : Except Error α}
    (h : b.Gives node x outcome) (h' : b.Gives node x other) : outcome = other := by
  induction h with
  | done a => cases h'; rfl
  | fail e => cases h'; rfl
  | missing h _ ih =>
    cases h' with
    | missing _ rest' => exact ih rest'
    | asked h' _ _ => simp [h] at h'
  | asked h _ _ ihAnswers ihRest =>
    cases h' with
    | missing h' _ => simp [h] at h'
    | asked h' answers' rest' =>
      obtain rfl := Option.some.inj (h.symm.trans h')
      obtain rfl := ihAnswers answers'
      exact ihRest rest'

theorem Gives.found (ids : b.root.checkIds = .ok ()) {node : Plan} {x : Inquiry Q α}
    {outcome : Except Error α} (h : b.Gives node x outcome) (hnode : node ∈ b.root.nodes)
    {memo : Memo Q} (hmemo : b.Sound memo) :
    ∃ memo', b.consult caching node x memo = some (outcome, memo') := by
  induction h generalizing memo with
  | done a => exact ⟨memo, by rw [consult]⟩
  | fail e => exact ⟨memo, by rw [consult]⟩
  | missing h _ ih =>
    rw [consult]
    simpa only [h] using ih hnode hmemo
  | @asked α node other s q next found outcome h answers _ ihAnswers ihRest =>
    have hother := mem_nodes_of_node? hnode h
    rw [consult]
    cases hkept : memo.kept? caching other.id q with
    | some fact =>
      obtain rfl := (answers_of_kept? hmemo hother hkept).unique answers
      simpa only [h, hkept, Inquiry.resume_ok] using ihRest hnode hmemo
    | none =>
      obtain ⟨memo₁, hconsult⟩ := ihAnswers hother hmemo
      obtain ⟨hmemo₁, -⟩ := consult_sound ids hconsult hother hmemo
      simpa [h, hkept, hconsult] using ihRest hnode (sound_keep ids hmemo₁ hother answers)

theorem consult_map_fst (ids : b.root.checkIds = .ok ()) {node : Plan}
    (hnode : node ∈ b.root.nodes) (x : Inquiry Q α) {memo other : Memo Q} (hmemo : b.Sound memo)
    (hother : b.Sound other) (caching' : Bool) :
    (b.consult caching node x memo).map (·.1) = (b.consult caching' node x other).map (·.1) := by
  ext outcome
  have hgives (caching : Bool) {memo : Memo Q} (hmemo : b.Sound memo) :
      (b.consult caching node x memo).map (·.1) = some outcome ↔ b.Gives node x outcome := by
    constructor
    · intro h
      obtain ⟨r, hr, rfl⟩ := Option.map_eq_some_iff.1 h
      exact (consult_sound ids hr hnode hmemo).2
    · intro h
      obtain ⟨memo', hmemo'⟩ := h.found ids hnode hmemo
      rw [hmemo', Option.map_some]
  rw [hgives caching hmemo, hgives caching' hother]

end Basis
end Relational.Metadata
