import Relational.Metadata.Ranked

/-!
# Inquiries have outcomes

By ranked rules every question about a node is answered, by induction on the node and the rank of
the kind of question, and so every inquiry has an outcome.
-/
namespace Relational.Metadata
variable {Q α : Type}

namespace Basis
variable (b : Basis Q) (caching : Bool)

theorem consult_isSome {P : Subject → Question → Prop} (node : Plan)
    (answered : ∀ s q other, P s q → b.node? node s = some other →
      ∀ memo, (b.answer caching other q memo).isSome)
    (x : Inquiry Q α) (h : x.Asks P) (memo : Memo Q) : (b.consult caching node x memo).isSome := by
  induction x generalizing memo with
  | done a => rw [consult]; rfl
  | fail e => rw [consult]; rfl
  | ask s q next ih =>
    rw [consult_ask]
    cases hs : b.node? node s with
    | none => exact ih _ (h.2 _) memo
    | some other =>
      obtain ⟨⟨outcome, memo'⟩, hanswer⟩ :=
        Option.isSome_iff_exists.1 (answered s q other h.1 hs memo)
      by_cases hgoes : outcome = .error .overflow
      · simp [hanswer, hgoes, consult]
      · simpa [hanswer, Inquiry.resume_of_ne _ hgoes] using ih outcome (h.2 outcome) memo'

variable {b caching}

theorem answer_isSome (h : b.rules.Ranked) (node : Plan) (question : Question) (memo : Memo Q) :
    (b.answer caching node question memo).isSome := by
  have hconsult : (b.consult caching node (b.inquiry node question) memo).isSome := by
    cases hrule : b.rules.lookup node.kind question.kind with
    | none => simp [inquiry, hrule, Inquiry.unknown, consult]
    | some rule =>
      simp only [inquiry, hrule]
      refine b.consult_isSome caching node ?_ _ (h _ _ _ hrule b.setting node question.args) memo
      intro s q other hdescends hother memo
      cases s with
      | self =>
        obtain rfl : node = other := Option.some.inj hother
        have : q.kind.rank < question.kind.rank := hdescends
        exact answer_isSome h node q memo
      | input i =>
        have := Plan.sizeOf_lt_of_mem_children (List.mem_of_getElem? hother)
        exact answer_isSome h other q memo
      | node id => exact hdescends.elim
  rw [answer]
  split
  · rfl
  · obtain ⟨⟨outcome, memo'⟩, houtcome⟩ := Option.isSome_iff_exists.1 hconsult
    simp [houtcome]
termination_by (sizeOf node, question.kind.rank)

end Basis

theorem Query.inquire_isSome (q : Query Q) (h : q.rules.Ranked) (node : Plan) (x : Inquiry Q α) :
    (q.inquire node x).isSome := by
  have hasks : x.Asks fun _ _ => True := by
    induction x with
    | done a => trivial
    | fail e => trivial
    | ask s q next ih => exact ⟨trivial, ih⟩
  obtain ⟨⟨outcome, memo⟩, hconsult⟩ := Option.isSome_iff_exists.1
    (q.toBasis.consult_isSome q.caching node (fun _ _ other _ _ => Basis.answer_isSome h other _)
      x hasks q.memo)
  simp [inquire, hconsult]

theorem Query.serve_isSome (q : Query Q) (h : q.rules.Ranked)
    (requests : List (Plan × Inquiry Q α)) : (q.serve requests).isSome := by
  induction requests generalizing q with
  | nil => rfl
  | cons request rest ih =>
    obtain ⟨⟨outcome, q'⟩, hinquire⟩ := Option.isSome_iff_exists.1
      (q.inquire_isSome h request.1 request.2)
    have hrules : q'.rules = q.rules := by
      obtain ⟨r, -, hr⟩ := Option.bind_eq_some_iff.1 hinquire
      cases hr
      rfl
    obtain ⟨⟨outcomes, q''⟩, hserve⟩ := Option.isSome_iff_exists.1 (ih q' (hrules ▸ h))
    simp [serve, hinquire, hserve]

end Relational.Metadata
