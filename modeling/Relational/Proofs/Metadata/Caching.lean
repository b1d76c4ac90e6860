import Relational.Catalog.Basic
import Relational.Proofs.Metadata.Derivation

/-!
# Transparent caching

A query that remembers its answers gives the same outcomes as one that does not, however many
inquiries are made and in whatever order.
-/
namespace Relational.Metadata.Query
variable {Q α : Type} {q fresh : Query Q}

/-- An inquiry changes what is remembered, which stays sound, and ends as derived. -/
theorem inquire_sound (ids : q.root.checkIds = .ok ()) (hmemo : q.Sound q.memo) {node : Plan}
    (hnode : node ∈ q.root.nodes) {x : Inquiry Q α} {r : Except Error α × Query Q}
    (h : q.inquire node x = some r) :
    r.2.toBasis = q.toBasis ∧ q.Sound r.2.memo ∧ q.Gives node x r.1 := by
  simp only [inquire, bind, Option.bind_eq_some_iff, pure, Option.some.injEq] at h
  obtain ⟨⟨outcome, memo⟩, hconsult, rfl⟩ := h
  exact ⟨rfl, Basis.consult_sound ids hconsult hnode hmemo⟩

theorem inquire_of_gives (ids : q.root.checkIds = .ok ()) (hmemo : q.Sound q.memo) {node : Plan}
    (hnode : node ∈ q.root.nodes) {x : Inquiry Q α} {outcome : Except Error α}
    (h : q.Gives node x outcome) : ∃ q', q.inquire node x = some (outcome, q') := by
  obtain ⟨memo, hconsult⟩ : ∃ memo, q.consult q.caching node x q.memo = some (outcome, memo) :=
    h.found ids hnode hmemo
  exact ⟨{ q with memo }, by simp [inquire, hconsult]⟩

theorem serve_sound (ids : q.root.checkIds = .ok ()) (hmemo : q.Sound q.memo)
    {requests : List (Plan × Inquiry Q α)} (hnodes : ∀ r ∈ requests, r.1 ∈ q.root.nodes)
    {r : List (Except Error α) × Query Q} (h : q.serve requests = some r) :
    r.2.toBasis = q.toBasis ∧ q.Sound r.2.memo := by
  induction requests generalizing q r with
  | nil =>
    cases h
    exact ⟨rfl, hmemo⟩
  | cons request rest ih =>
    simp only [serve, bind, Option.bind_eq_some_iff, pure, Option.some.injEq] at h
    obtain ⟨⟨outcome, next⟩, hinquire, ⟨outcomes, last⟩, hserve, rfl⟩ := h
    obtain ⟨hnode, hrest⟩ := List.forall_mem_cons.1 hnodes
    obtain ⟨hbasis, hnext, -⟩ := inquire_sound ids hmemo hnode hinquire
    obtain ⟨hbasis', hlast⟩ := ih (hbasis ▸ ids) (hbasis ▸ hnext) (hbasis ▸ hrest) hserve
    exact ⟨hbasis'.trans hbasis, hbasis ▸ hlast⟩

theorem serve_fresh {root : Plan} {rules : RuleTable Q} {source : TableSource Q} {scanRows : Q}
    {splits : Nat} {caching : Bool} {earlier : List (Plan × Inquiry Q α)}
    {outcomes : List (Except Error α)}
    (hfresh : ofPlan root rules source scanRows splits caching = .ok fresh)
    (hearlier : ∀ r ∈ earlier, r.1 ∈ root.nodes)
    (hserve : fresh.serve earlier = some (outcomes, q)) :
    q.toBasis = ⟨root, rules, source, scanRows, splits, (root.occurrences.lookup ·)⟩ ∧
      q.root.checkIds = .ok () ∧ q.Sound q.memo := by
  obtain ⟨ids, rfl⟩ := ofPlan_eq_ok hfresh
  obtain ⟨hbasis, hmemo⟩ := serve_sound ids Basis.sound_nil hearlier hserve
  refine ⟨hbasis, ?_, ?_⟩
  · rw [hbasis]; exact ids
  · rw [hbasis]; exact hmemo

theorem inquire_fresh {root node : Plan} {rules : RuleTable Q} {source : TableSource Q} {scanRows : Q}
    {splits : Nat} {caching : Bool}
    (hfresh : ofPlan root rules source scanRows splits caching = .ok fresh)
    (hnode : node ∈ root.nodes) {x : Inquiry Q α} {outcome : Except Error α}
    (h : fresh.Gives node x outcome) : ∃ q', fresh.inquire node x = some (outcome, q') := by
  obtain ⟨ids, rfl⟩ := ofPlan_eq_ok hfresh
  exact inquire_of_gives ids Basis.sound_nil hnode h

theorem inquire_map_fst (basis : q.toBasis = fresh.toBasis) (ids : fresh.root.checkIds = .ok ())
    (hmemo : fresh.Sound q.memo) (hfresh : fresh.Sound fresh.memo) {node : Plan}
    (hnode : node ∈ fresh.root.nodes) (x : Inquiry Q α) :
    (q.inquire node x).map (·.1) = (fresh.inquire node x).map (·.1) := by
  have hfst (q : Query Q) :
      (q.inquire node x).map (·.1) = (q.consult q.caching node x q.memo).map (·.1) := by
    cases hq : q.consult q.caching node x q.memo <;> simp [inquire, hq]
  rw [hfst, hfst, basis]
  exact Basis.consult_map_fst ids hnode x hmemo hfresh fresh.caching

theorem serve_map_fst (basis : q.toBasis = fresh.toBasis) (ids : fresh.root.checkIds = .ok ())
    (hmemo : fresh.Sound q.memo) (hfresh : fresh.Sound fresh.memo)
    (requests : List (Plan × Inquiry Q α)) (h : ∀ r ∈ requests, r.1 ∈ fresh.root.nodes) :
    (q.serve requests).map (·.1) =
      requests.mapM fun r => (fresh.inquire r.1 r.2).map (·.1) := by
  induction requests generalizing q with
  | nil => rfl
  | cons request rest ih =>
    obtain ⟨node, x⟩ := request
    have hnode : node ∈ fresh.root.nodes := h _ List.mem_cons_self
    have hrest : ∀ r ∈ rest, r.1 ∈ fresh.root.nodes := fun r hr => h r (List.mem_cons_of_mem _ hr)
    rw [List.mapM_cons, ← inquire_map_fst basis ids hmemo hfresh hnode x]
    cases hq : q.inquire node x with
    | none => simp [serve, hq]
    | some r =>
      obtain ⟨hsame, hsound, -⟩ := inquire_sound (basis ▸ ids) (basis ▸ hmemo) (basis ▸ hnode) hq
      have ih := ih (hsame.trans basis) (basis ▸ hsound) hrest
      rw [← ih]
      cases hs : r.2.serve rest <;> simp [serve, hq, hs]

/-- Remembering answers changes none of them. -/
theorem serve_cached {root : Plan} {rules : RuleTable Q} {source : TableSource Q} {scanRows : Q}
    {splits : Nat} {cached uncached : Query Q}
    (hcached : ofPlan root rules source scanRows splits true = .ok cached)
    (huncached : ofPlan root rules source scanRows splits false = .ok uncached)
    (requests : List (Plan × Inquiry Q α)) (h : ∀ r ∈ requests, r.1 ∈ root.nodes) :
    (cached.serve requests).map (·.1) =
      requests.mapM fun r => (uncached.inquire r.1 r.2).map (·.1) := by
  obtain ⟨ids, rfl⟩ := ofPlan_eq_ok hcached
  obtain ⟨-, rfl⟩ := ofPlan_eq_ok huncached
  refine serve_map_fst ?_ ids Basis.sound_nil Basis.sound_nil requests h
  rfl

theorem serve_cached_sort :
    let p : Plan := .sort 1 (.values 0 [] []) [] none (some 1)
    let requests : List (Plan × Inquiry Binary64 (Option (Fact Binary64))) :=
      [(p, .request .self ⟨.maxRowCount, .none⟩),
        (.values 0 [] [], .request .self ⟨.nodeTypes, .none⟩),
        (p, .request .self ⟨.maxRowCount, .none⟩)]
    ∃ cached uncached,
      ofConfig p .builtin ({} : Catalog).source { cachesMetadata := true } = .ok cached ∧
      ofConfig p .builtin ({} : Catalog).source { cachesMetadata := false } = .ok uncached ∧
      (∀ r ∈ requests, r.1 ∈ p.nodes) ∧
      (cached.serve requests).map (·.1) =
        requests.mapM fun r => (uncached.inquire r.1 r.2).map (·.1) := by
  intro p requests
  have h : ∀ r ∈ requests, r.1 ∈ p.nodes := by
    simp [requests, p, Plan.nodes_eq_cons, Plan.children]
  exact ⟨_, _, rfl, rfl, h, serve_cached rfl rfl requests h⟩

end Relational.Metadata.Query
