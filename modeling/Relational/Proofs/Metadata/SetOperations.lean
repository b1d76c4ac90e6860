import Relational.Proofs.Execution.SetOperation
import Relational.Proofs.Execution.Width
import Relational.Proofs.Metadata.Uniqueness
import Relational.Proofs.Plan.Document

/-!
# Unique columns of set operations

What is found unique of a union, an intersection or a difference identifies at most one row of its
result, as long as ALL keeps no repetition. A difference or an intersection with ALL may keep some,
and yet all its columns together are found to be a key.
-/
namespace Relational.Metadata

namespace Counting
variable {Q : Type} [Quantity Q] [Counting Q]

theorem covers_leastOf {xs : List Q} {n : Nat} (h : ∀ x ∈ xs, Covers x n) {start : Q}
    (hstart : Covers start n) : Covers (xs.foldl Quantity.least start) n := by
  induction xs generalizing start with
  | nil => exact hstart
  | cons x rest ih =>
    obtain ⟨hx, hrest⟩ := List.forall_mem_cons.1 h
    exact ih hrest (covers_least hstart hx)

end Counting

namespace Basis
open Counting
variable {Q : Type} [Quantity Q] {b : Basis Q} {p : Plan} {id : Nat} {op : SetOp}
  {inputs : List Plan} {all : Bool} {sources : List (List Row)} {rows : List Row}
  {columns : ColumnSet} {ignoreNulls : Bool}

theorem gives_maxRowCount_of_input {s : Subject} {node : Plan} (hs : b.node? p s = some node)
    {x : Q} (h : b.Gives p (maxRowCount s) (.ok (some x))) :
    b.Gives node (maxRowCount .self) (.ok (some x)) := by
  obtain ⟨other, y, hother, hanswers, hx⟩ := gives_askAmount.1 h
  obtain rfl := Option.some.inj (hs.symm.trans hother)
  exact gives_askAmount.2 ⟨node, y, rfl, hanswers, hx⟩

theorem le_one_of_ofNoColumns
    (h : b.Gives p ColumnUniqueness.ofNoColumns (.ok (some (.flag true)))) :
    ∃ x, b.Gives p (maxRowCount .self) (.ok (some x)) ∧ Quantity.le x Quantity.one = true := by
  obtain ⟨found, hfound, h⟩ := gives_bind.1 h
  cases found with
  | none => cases gives_unknown.1 h
  | some x =>
    simp only at h
    split at h
    next hone => exact ⟨x, hfound, hone⟩
    · cases gives_unknown.1 h

theorem unique_setOp (hrules : b.rules = .builtin)
    (h : b.Answers (.setOp id op inputs all) ⟨.columnUniqueness, .columns columns ignoreNulls⟩
      (.ok (some (.flag true)))) :
    (∃ x, b.Gives (.setOp id op inputs all) (maxRowCount .self) (.ok (some x)) ∧
      Quantity.le x Quantity.one = true) ∨
    (all = false ∨ columns ≠ .empty ∧ op ≠ .union) ∧
      ∀ c ∈ ColumnSet.range (Plan.setOp id op inputs all).width, c ∈ columns := by
  have hgives : b.Gives (.setOp id op inputs all) (ColumnUniqueness.ofSetOp b.setting
      (.setOp id op inputs all) (.columns columns ignoreNulls)) (.ok (some (.flag true))) := by
    cases op <;> exact gives_of_builtin hrules h rfl
  simp only [ColumnUniqueness.ofSetOp] at hgives
  split at hgives
  next hall =>
    simp only [Bool.and_eq_true, Bool.not_eq_true'] at hall
    exact .inr ⟨.inl hall.1, ColumnSet.subset_iff.1 hall.2⟩
  simp only [ColumnUniqueness.byKeys] at hgives
  split at hgives
  · exact .inl (le_one_of_ofNoColumns hgives)
  next hsome =>
  obtain ⟨found, hfound, hgives⟩ := gives_bind.1 hgives
  split at hgives
  next hany =>
    cases found with
    | none => cases hany
    | some keys =>
      have hanswers := exists_self.1 (gives_uniqueKeys.1 hfound)
      obtain ⟨hop, rfl⟩ := keys_setOp hrules hanswers
      obtain ⟨key, hkey, hsubset⟩ := List.any_eq_true.1 hany
      obtain rfl := List.mem_singleton.1 hkey
      refine .inr ⟨?_, ColumnSet.subset_iff.1 hsubset⟩
      cases all with
      | false => exact .inl rfl
      | true => exact .inr ⟨mt ColumnSet.isEmpty_iff.2 hsome, fun hunion => hop ⟨hunion, rfl⟩⟩
  · cases gives_unknown.1 hgives

variable [Counting Q]

theorem covers_setOp (hbounded : List.Forall₂ (fun input (source : List Row) =>
      ∀ x, b.Gives input (maxRowCount .self) (.ok (some x)) → Covers x source.length)
      inputs sources) (hrules : b.rules = .builtin) (hrows : op.Emits all sources rows) {x : Q}
    (h : b.Gives (.setOp id op inputs all) (maxRowCount .self) (.ok (some x))) :
    Covers x rows.length := by
  obtain ⟨other, y, hother, hanswers, rfl⟩ := gives_askAmount.1 h
  obtain rfl : Plan.setOp id op inputs all = other := Option.some.inj hother
  refine covers_atLeastZero ?_
  have hcounts {counts : List Q} (h : b.Gives (.setOp id op inputs all)
      (forInputs maxRowCount inputs.length) (.ok (some counts))) :
      List.Forall₂ (fun count (source : List Row) => Covers count source.length) counts sources := by
    refine (forall₂_comp.1 ⟨inputs, (gives_inputs h).flip, hbounded⟩).imp ?_
    rintro count source ⟨input, ⟨i, hs, hcount⟩, hsource⟩
    exact hsource count (gives_maxRowCount_of_input hs hcount)
  cases op with
  | union =>
    obtain ⟨counts, hasked, hfact⟩ := gives_report.1 (gives_of_builtin hrules hanswers rfl)
    cases hfact
    have hsum := covers_sum (List.forall₂_map_right_iff.2 (hcounts hasked))
    exact covers_mono hsum hrows.length_le_sum
  | intersect =>
    obtain ⟨counts, hasked, hfact⟩ := gives_report.1 (gives_of_builtin hrules hanswers rfl)
    cases hfact
    refine covers_leastOf (fun count hcount => ?_) (covers_infinity _)
    obtain ⟨i, hi⟩ := List.getElem?_of_mem hcount
    obtain ⟨source, hsource, hcovers⟩ := forall₂_exists_getElem? (hcounts hasked) hi
    exact covers_mono hcovers (SetOp.Emits.length_le_of_count_le
      (hrows.count_le_of_intersect (List.mem_of_getElem? hsource)))
  | minus =>
    obtain ⟨count, hasked, hfact⟩ := gives_fromInput (gives_of_builtin hrules hanswers rfl)
    cases hfact
    cases hbounded with
    | nil =>
      obtain ⟨other, -, hother, -⟩ := gives_askAmount.1 hasked
      cases hother
    | cons hfirst _ =>
      exact covers_mono (hfirst y (gives_maxRowCount_of_input rfl hasked))
        (SetOp.Emits.length_le_of_count_le hrows.count_le_of_minus)

end Basis

namespace Query
open Metadata.Basis Counting
variable {Q : Type} [Quantity Q] [Counting Q] {root : Plan} {fresh q : Query Q}

/-- Rows that the node may put out: as wide as it is, and no more than its bound. -/
structure Admits (q : Query Q) (p : Plan) (rows : List Row) : Prop where
  width : ∀ row ∈ rows, row.length = p.width
  bounded : ∀ x q', q.inquire p (maxRowCount .self) = some (.ok (some x), q') →
    Covers x rows.length

theorem admits_values {id : Nat} {rows : List Row} {shape : Schema} {notes : Notes}
    (ids : q.root.checkIds = .ok ()) (hmemo : q.Sound q.memo) (hrules : q.rules = .builtin)
    (hnode : .values id rows shape notes ∈ q.root.nodes)
    (hwidth : ∀ row ∈ rows, row.length = shape.length) :
    q.Admits (.values id rows shape notes) rows where
  width := hwidth
  bounded x q' h := by
    obtain ⟨-, -, hgives⟩ := inquire_sound ids hmemo hnode h
    obtain ⟨other, y, hother, hanswers, rfl⟩ := gives_askAmount.1 hgives
    obtain rfl : Plan.values id rows shape notes = other := Option.some.inj hother
    cases gives_known.1 (gives_of_builtin hrules hanswers rfl)
    exact covers_atLeastZero (covers_ofNat _)

theorem admits_inputs {source : TableSource Q} {scanRows : Q} {splits : Nat} {caching : Bool}
    {id m n : Nat} {op : SetOp} {left right : List Row} {shape : Schema} {all : Bool}
    (hfresh : ofPlan (.setOp id op [.values m left shape, .values n right shape] all) .builtin source
      scanRows splits caching = .ok fresh)
    (hleft : ∀ row ∈ left, row.length = shape.length)
    (hright : ∀ row ∈ right, row.length = shape.length) :
    List.Forall₂ fresh.Admits [.values m left shape, .values n right shape] [left, right] := by
  obtain ⟨ids, rfl⟩ := ofPlan_eq_ok hfresh
  have hinput {child : Plan} (hchild : child ∈ [Plan.values m left shape, .values n right shape]) :=
    Plan.mem_nodes_of_mem_children
      (p := .setOp id op [.values m left shape, .values n right shape] all) hchild
  refine .cons ?_ (.cons ?_ .nil)
  · exact admits_values ids sound_nil rfl (hinput List.mem_cons_self) hleft
  · exact admits_values ids sound_nil rfl (hinput (List.mem_cons_of_mem _ List.mem_cons_self)) hright

/-- Whatever was asked before, and whatever the inputs put out: no two rows of a set operation agree
on columns that are found unique nor on a key, if ALL keeps no repetition. That there is at most one
row is right in any case. -/
theorem setOp_noRepeat {α : Type} {source : TableSource Q} {scanRows : Q} {splits : Nat}
    {caching : Bool} {earlier : List (Plan × Inquiry Q α)} {outcomes : List (Except Error α)}
    {id : Nat} {op : SetOp} {inputs : List Plan} {all : Bool} {sources : List (List Row)}
    {rows : List Row} (hfresh : ofPlan root .builtin source scanRows splits caching = .ok fresh)
    (hearlier : ∀ r ∈ earlier, r.1 ∈ root.nodes)
    (hserve : fresh.serve earlier = some (outcomes, q)) (hvalid : root.Valid)
    (hnode : .setOp id op inputs all ∈ root.nodes)
    (hsources : List.Forall₂ q.Admits inputs sources) (hrows : op.Emits all sources rows) :
    (∀ columns ignoreNulls q', columns = .empty ∨ op.Distinct all sources →
      q.inquire (.setOp id op inputs all) (columnsUnique .self columns ignoreNulls) =
        some (.ok (some true), q') → NoRepeat columns ignoreNulls rows) ∧
    (op.Distinct all sources → ∀ ignoreNulls keys q',
      q.inquire (.setOp id op inputs all) (uniqueKeys .self ignoreNulls) =
        some (.ok (some keys), q') → ∀ key ∈ keys, NoRepeat key ignoreNulls rows) := by
  obtain ⟨hbasis, ids, hmemo⟩ := serve_fresh hfresh hearlier hserve
  have hrules : q.rules = .builtin := by rw [hbasis]
  have hmem : .setOp id op inputs all ∈ q.root.nodes := by rw [hbasis]; exact hnode
  have hbounded : List.Forall₂ (fun input (source : List Row) =>
      ∀ x, q.Gives input (maxRowCount .self) (.ok (some x)) → Covers x source.length)
      inputs sources := by
    refine forall₂_imp_of_mem hsources fun input hinput source hadmits x hgives => ?_
    obtain ⟨q', hinquire⟩ := inquire_of_gives ids hmemo
      (Plan.mem_nodes_trans hmem (Plan.mem_nodes_of_mem_children hinput)) hgives
    exact hadmits.bounded x q' hinquire
  have hwidth : ∀ row ∈ rows, row.length = (Plan.setOp id op inputs all).width := by
    intro row hrow
    obtain ⟨source, hsource, hmem⟩ := hrows.exists_input hrow
    obtain ⟨input, hinput, hadmits⟩ := forall₂_exists_mem hsources hsource
    rw [hadmits.width row hmem]
    exact Plan.width_of_checkSetOp (hvalid.of_mem_nodes hnode).check hinput
  have hall (hdistinct : op.Distinct all sources) (hop : ¬ (op = .union ∧ all = true)) :
      NoRepeat (.range (Plan.setOp id op inputs all).width) false rows :=
    .of_nodup hwidth (hrows.nodup hdistinct hop)
  constructor
  · intro columns ignoreNulls q' hcolumns h
    obtain ⟨-, -, hgives⟩ := inquire_sound ids hmemo hmem h
    have hanswers := exists_self.1 (gives_columnsUnique.1 hgives)
    rcases unique_setOp hrules hanswers with ⟨x, hx, hone⟩ | ⟨hop, hsubset⟩
    · exact .of_length_le_one (le_one_of_covers (covers_setOp hbounded hrules hrows hx) hone)
    refine ((hall ?_ ?_).mono hsubset).ignoring ignoreNulls
    · rcases hop with rfl | ⟨hsome, -⟩
      · exact fun h => absurd h Bool.false_ne_true
      · exact hcolumns.resolve_left hsome
    · rintro ⟨hunion, rfl⟩
      rcases hop with h | ⟨-, h⟩
      · cases h
      · exact h hunion
  · intro hdistinct ignoreNulls keys q' h key hkey
    obtain ⟨-, -, hgives⟩ := inquire_sound ids hmemo hmem h
    have hanswers := exists_self.1 (gives_uniqueKeys.1 hgives)
    obtain ⟨hop, rfl⟩ := keys_setOp hrules hanswers
    obtain rfl := List.mem_singleton.1 hkey
    exact (hall hdistinct hop).ignoring ignoreNulls

/-- The repeated row is in an input without repetition only once, and so in the intersection. -/
theorem setOp_noRepeat_intersectAll :
    let shape : Schema := [⟨"n", .int64 false, {}⟩]
    let source : TableSource Binary64 :=
      ⟨fun _ => .error (.planning (.unknownTableId 0)), fun _ => .ok none⟩
    let left : List Row := [[.int64 1], [.int64 2]]
    let right : List Row := [[.int64 1], [.int64 1], [.int64 3]]
    let p : Plan := .setOp 3 .intersect [.values 1 left shape, .values 2 right shape] true
    ∃ fresh q', ofPlan p .builtin source Quantity.one 1 true = .ok fresh ∧ p.Valid ∧
      List.Forall₂ fresh.Admits [.values 1 left shape, .values 2 right shape] [left, right] ∧
      SetOp.intersect.Emits true [left, right] [[.int64 1]] ∧
      SetOp.intersect.Distinct true [left, right] ∧
      fresh.inquire p (uniqueKeys .self false) = some (.ok (some [.range 1]), q') ∧
      ∀ key ∈ [ColumnSet.range 1], NoRepeat key false [[.int64 1]] := by
  intro shape source left right p
  obtain ⟨fresh, hfresh⟩ : ∃ fresh : Query Binary64,
      ofPlan p .builtin source Quantity.one 1 true = .ok fresh := ⟨_, rfl⟩
  have hnode : p ∈ p.nodes := Plan.self_mem_nodes p
  have hserve : fresh.serve ([] : List (Plan × Inquiry Binary64 Unit)) = some ([], fresh) := rfl
  have hvalid : p.Valid := by decide +kernel
  have hsources : List.Forall₂ fresh.Admits
      [.values 1 left shape, .values 2 right shape] [left, right] :=
    admits_inputs hfresh (by decide) (by decide)
  have hrows : SetOp.intersect.Emits true [left, right] [[.int64 1]] := by
    intro row
    by_cases hone : row = [.int64 1]
    · rw [hone]
      decide
    by_cases htwo : row = [.int64 2]
    · rw [htwo]
      decide
    · have hleft : left.count row = 0 := List.count_eq_zero.2 (by simp [left, hone, htwo])
      have hnone : [[Value.int64 1]].count row = 0 := List.count_eq_zero.2 (by simp [hone])
      simp [SetOp.copies, SetOp.copiesAll, hleft, hnone]
  have hdistinct : SetOp.intersect.Distinct true [left, right] :=
    fun _ => ⟨left, List.mem_cons_self, by decide⟩
  have hgives : fresh.Gives p (uniqueKeys .self false) (.ok (some [.range 1])) := by
    obtain ⟨-, rfl⟩ := ofPlan_eq_ok hfresh
    exact gives_uniqueKeys.2 ⟨p, rfl, answers_some.2 ⟨_, rfl, gives_known.2 rfl⟩⟩
  obtain ⟨q', hinquire⟩ := inquire_fresh hfresh hnode hgives
  obtain ⟨-, hkeys⟩ :=
    setOp_noRepeat hfresh (by simp) hserve hvalid hnode hsources hrows
  exact ⟨fresh, q', hfresh, hvalid, hsources, hrows, hdistinct, hinquire,
    hkeys hdistinct false _ q' hinquire⟩

/-- An intersection keeps a row twice that both inputs have twice, and yet has a key. -/
theorem setOp_repeats :
    let shape : Schema := [⟨"n", .int64 false, {}⟩]
    let source : TableSource Binary64 :=
      ⟨fun _ => .error (.planning (.unknownTableId 0)), fun _ => .ok none⟩
    let twice : List Row := [[.int64 1], [.int64 1]]
    let p : Plan := .setOp 3 .intersect [.values 1 twice shape, .values 2 twice shape] true
    ∃ fresh q' q'', ofPlan p .builtin source Quantity.one 1 true = .ok fresh ∧ p.Valid ∧
      List.Forall₂ fresh.Admits [.values 1 twice shape, .values 2 twice shape] [twice, twice] ∧
      SetOp.intersect.Emits true [twice, twice] twice ∧
      fresh.inquire p (uniqueKeys .self false) = some (.ok (some [.range 1]), q') ∧
      fresh.inquire p (columnsUnique .self (.range 1) false) = some (.ok (some true), q'') ∧
      ¬ NoRepeat (.range 1) false twice := by
  intro shape source twice p
  obtain ⟨fresh, hfresh⟩ : ∃ fresh : Query Binary64,
      ofPlan p .builtin source Quantity.one 1 true = .ok fresh := ⟨_, rfl⟩
  have hnode : p ∈ p.nodes := Plan.self_mem_nodes p
  have hvalid : p.Valid := by decide +kernel
  have hsources : List.Forall₂ fresh.Admits
      [.values 1 twice shape, .values 2 twice shape] [twice, twice] :=
    admits_inputs hfresh (by decide) (by decide)
  have hrows : SetOp.intersect.Emits true [twice, twice] twice := fun row =>
    (Nat.min_self _).symm
  have hkeys : fresh.Gives p (uniqueKeys .self false) (.ok (some [.range 1])) := by
    obtain ⟨-, rfl⟩ := ofPlan_eq_ok hfresh
    exact gives_uniqueKeys.2 ⟨p, rfl, answers_some.2 ⟨_, rfl, gives_known.2 rfl⟩⟩
  have hunique : fresh.Gives p (columnsUnique .self (.range 1) false) (.ok (some true)) := by
    obtain ⟨-, rfl⟩ := ofPlan_eq_ok hfresh
    refine gives_columnsUnique.2 ⟨p, rfl, answers_some.2 ⟨_, rfl, ?_⟩⟩
    refine gives_bind.2 ⟨some [.range 1], ?_, gives_known.2 (by rfl)⟩
    exact gives_uniqueKeys.2 ⟨p, rfl, answers_some.2 ⟨_, rfl, gives_known.2 rfl⟩⟩
  obtain ⟨q', hinquire⟩ := inquire_fresh hfresh hnode hkeys
  obtain ⟨q'', hinquire'⟩ := inquire_fresh hfresh hnode hunique
  exact ⟨fresh, q', q'', hfresh, hvalid, hsources, hrows, hinquire, hinquire', by decide⟩

end Query
end Relational.Metadata
