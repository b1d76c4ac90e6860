import Relational.Proofs.Metadata.ExactEstimate
import Relational.Proofs.Metadata.Caching
import Relational.Proofs.Metadata.RowBound

/-!
# Estimates within their bounds

Where estimates are exact, the lower bound that the built-in rules derive for the rows of a node is
at most the upper one, whatever the catalog says. So an estimate that is clamped to the upper bound
and then to the lower one ends between them. The upper bounds are whole: a join with a side that is
not known to be empty has at least the rows of the other.
-/
namespace Relational.Metadata
open scoped ENNReal

namespace Basis
open ExactEstimate
variable {b : Basis ℝ≥0∞} {p child input left right : Plan} {id i : Nat} {inputs : List Plan}
  {low high x : ℝ≥0∞}

abbrev AtMost (b : Basis ℝ≥0∞) (p : Plan) (x : ℝ≥0∞) : Prop :=
  b.Answers p ⟨.maxRowCount, .none⟩ (.ok (some (.number x)))

abbrev AtLeast (b : Basis ℝ≥0∞) (p : Plan) (x : ℝ≥0∞) : Prop :=
  b.Answers p ⟨.minRowCount, .none⟩ (.ok (some (.number x)))

theorem gives_maxRowCount {s : Subject} :
    b.Gives p (maxRowCount s) (.ok (some x)) ↔
      ∃ other, b.node? p s = some other ∧ b.AtMost other x := by
  simp [maxRowCount, gives_askAmount]

theorem gives_minRowCount {s : Subject} :
    b.Gives p (minRowCount s) (.ok (some x)) ↔
      ∃ other, b.node? p s = some other ∧ b.AtLeast other x := by
  simp [minRowCount, gives_askAmount]

structure Ordered (b : Basis ℝ≥0∞) (p : Plan) : Prop where
  whole : ∀ high, b.AtMost p high → Whole high
  le : ∀ low high, b.AtLeast p low → b.AtMost p high → low ≤ high

section
variable (hrules : b.rules = .builtin)
include hrules

theorem atMost_passedOn
    (hrule : RuleTable.builtin.lookup p.kind .maxRowCount = some (RowBound.maxPassedOn (Q := ℝ≥0∞)))
    (h : b.AtMost p x) : ∃ child, p.children[0]? = some child ∧ b.AtMost child x := by
  obtain ⟨a, ha, hfact⟩ := gives_fromInput (gives_of_builtin hrules h hrule)
  cases hfact
  exact gives_maxRowCount.1 ha

theorem atLeast_passedOn
    (hrule : RuleTable.builtin.lookup p.kind .minRowCount = some (RowBound.minPassedOn (Q := ℝ≥0∞)))
    (h : b.AtLeast p x) : ∃ child, p.children[0]? = some child ∧ b.AtLeast child x := by
  obtain ⟨a, ha, hfact⟩ := gives_fromInput (gives_of_builtin hrules h hrule)
  cases hfact
  exact gives_minRowCount.1 ha

theorem atLeast_none
    (hrule : RuleTable.builtin.lookup p.kind .minRowCount = some (RowBound.none (Q := ℝ≥0∞)))
    (h : b.AtLeast p x) : x = 0 := by
  cases gives_known.1 (gives_of_builtin hrules h hrule)
  exact zero_eq

theorem atMost_unbounded
    (hrule : RuleTable.builtin.lookup p.kind .maxRowCount = some (RowBound.unbounded (Q := ℝ≥0∞)))
    (h : b.AtMost p x) : x = ⊤ := by
  cases gives_known.1 (gives_of_builtin hrules h hrule)
  rfl

theorem ordered_unbounded
    (hrule : RuleTable.builtin.lookup p.kind .maxRowCount =
      some (RowBound.unbounded (Q := ℝ≥0∞))) : b.Ordered p where
  whole _ hmax := atMost_unbounded hrules hrule hmax ▸ whole_top
  le _ _ _ hmax := atMost_unbounded hrules hrule hmax ▸ le_top

theorem ordered_passedOn (hchildren : ∀ child ∈ p.children, b.Ordered child)
    (hmax : RuleTable.builtin.lookup p.kind .maxRowCount = some (RowBound.maxPassedOn (Q := ℝ≥0∞)))
    (hmin : RuleTable.builtin.lookup p.kind .minRowCount = some (RowBound.none (Q := ℝ≥0∞)) ∨
      RuleTable.builtin.lookup p.kind .minRowCount =
        some (RowBound.minPassedOn (Q := ℝ≥0∞))) : b.Ordered p where
  whole high hhigh := by
    obtain ⟨child, hchild, hhigh⟩ := atMost_passedOn hrules hmax hhigh
    exact (hchildren child (List.mem_of_getElem? hchild)).whole high hhigh
  le low high hlow hhigh := by
    rcases hmin with hmin | hmin
    · exact atLeast_none hrules hmin hlow ▸ bot_le
    · obtain ⟨child, hchild, hhigh⟩ := atMost_passedOn hrules hmax hhigh
      obtain ⟨other, hother, hlow⟩ := atLeast_passedOn hrules hmin hlow
      obtain rfl := Option.some.inj (hchild.symm.trans hother)
      exact (hchildren child (List.mem_of_getElem? hchild)).le low high hlow hhigh

theorem ordered_values {rows : List Row} {shape : Schema} {notes : Notes} :
    b.Ordered (.values id rows shape notes) where
  whole high h := by
    cases gives_known.1 (gives_of_builtin hrules h rfl)
    exact whole_natCast rows.length
  le low high hlow hhigh := by
    cases gives_known.1 (gives_of_builtin hrules hlow rfl)
    cases gives_known.1 (gives_of_builtin hrules hhigh rfl)
    exact le_rfl

/-! Grouping -/

theorem atMost_aggregate {sets : List ColumnSet} {calls : List AggregateCall} {indicator : Bool}
    (h : b.AtMost (.aggregate id input sets calls indicator) high) :
    (keyedSets sets = 0 ∧ high = emptySets sets) ∨
      ∃ rows, b.AtMost input rows ∧ 0 < keyedSets sets ∧
        high = emptySets sets + rows * keyedSets sets := by
  have hgives := gives_of_builtin hrules h rfl
  simp only [RowBound.maxOfAggregate] at hgives
  split at hgives
  next hkeyed =>
    cases gives_known.1 hgives
    exact .inl ⟨hkeyed, rfl⟩
  next hkeyed =>
    obtain ⟨rows, hrows, hfact⟩ := gives_report.1 hgives
    obtain ⟨other, hother, hrows⟩ := gives_maxRowCount.1 hrows
    cases hother
    cases hfact
    exact .inr ⟨rows, hrows, Nat.pos_of_ne_zero hkeyed, by simp⟩

theorem atLeast_aggregate {sets : List ColumnSet} {calls : List AggregateCall} {indicator : Bool}
    (h : b.AtLeast (.aggregate id input sets calls indicator) low) :
    low = emptySets sets ∨ ∃ rows, b.AtLeast input rows ∧ 1 ≤ rows ∧ low = sets.length := by
  obtain ⟨found, hfound, hgives⟩ := gives_bind.1 (gives_of_builtin hrules h rfl)
  cases found with
  | none =>
    cases gives_known.1 hgives
    exact .inl rfl
  | some rows =>
    obtain ⟨other, hother, hrows⟩ := gives_minRowCount.1 hfound
    cases hother
    simp only at hgives
    split at hgives
    next hone =>
      cases gives_known.1 hgives
      exact .inr ⟨rows, hrows, by simpa using hone, rfl⟩
    · cases gives_known.1 hgives
      exact .inl rfl

omit hrules in
theorem emptySets_add_keyedSets (sets : List ColumnSet) :
    emptySets sets + keyedSets sets = sets.length := by
  simpa [emptySets, keyedSets] using
    (List.length_eq_length_filter_add (l := sets) fun set => set.isEmpty).symm

theorem ordered_aggregate {sets : List ColumnSet} {calls : List AggregateCall} {indicator : Bool}
    (hinput : b.Ordered input) : b.Ordered (.aggregate id input sets calls indicator) where
  whole high h := by
    rcases atMost_aggregate hrules h with ⟨-, rfl⟩ | ⟨rows, hrows, -, rfl⟩
    · exact whole_natCast _
    · exact whole_add (whole_natCast _) (whole_mul (hinput.whole rows hrows) (whole_natCast _))
  le low high hlow hhigh := by
    have hlength := emptySets_add_keyedSets sets
    rcases atMost_aggregate hrules hhigh with ⟨hkeyed, rfl⟩ | ⟨most, hmost, -, rfl⟩
    · rcases atLeast_aggregate hrules hlow with rfl | ⟨-, -, -, rfl⟩
      · exact le_rfl
      · rw [← hlength, hkeyed, Nat.add_zero]
    · rcases atLeast_aggregate hrules hlow with rfl | ⟨least, hleast, hone, rfl⟩
      · exact le_self_add
      · have hmost : 1 ≤ most := hone.trans (hinput.le least most hleast hmost)
        rw [← hlength, Nat.cast_add]
        exact add_le_add le_rfl (le_mul_of_one_le_left bot_le hmost)

/-! Joins -/

omit hrules in
theorem gives_both {α β : Type} {x y : Inquiry ℝ≥0∞ (Option α)}
    {f : Option α → Option α → Inquiry ℝ≥0∞ (Option β)} {a : β}
    (hf : ∀ l r, l = none ∨ r = none → f l r = .unknown)
    (h : b.Gives p (x >>= fun l => y >>= f l) (.ok (some a))) :
    ∃ l r, b.Gives p x (.ok (some l)) ∧ b.Gives p y (.ok (some r)) ∧
      b.Gives p (f (some l) (some r)) (.ok (some a)) := by
  obtain ⟨l, hl, h⟩ := gives_bind.1 h
  obtain ⟨r, hr, h⟩ := gives_bind.1 h
  cases l with
  | none => cases gives_unknown.1 (hf none r (.inl rfl) ▸ h)
  | some l =>
    cases r with
    | none => cases gives_unknown.1 (hf (some l) none (.inr rfl) ▸ h)
    | some r => exact ⟨l, r, hl, hr, h⟩

theorem atMost_join {condition : Expr} {type : JoinType}
    (h : b.AtMost (.join id left right condition type) high) :
    ∃ l r, b.AtMost left l ∧ b.AtMost right r ∧ high = RowBound.joinMax type l r := by
  obtain ⟨l, r, hl, hr, hgives⟩ := gives_both (by rintro _ _ (rfl | rfl) <;> simp)
    (gives_of_builtin hrules h rfl)
  cases gives_known.1 hgives
  obtain ⟨_, ⟨⟩, hl⟩ := gives_maxRowCount.1 hl
  obtain ⟨_, ⟨⟩, hr⟩ := gives_maxRowCount.1 hr
  exact ⟨l, r, hl, hr, rfl⟩

theorem atLeast_full {condition : Expr}
    (h : b.AtLeast (.join id left right condition .full) low) :
    ∃ l r, b.AtLeast left l ∧ b.AtLeast right r ∧ low = max l r := by
  obtain ⟨l, r, hl, hr, hgives⟩ := gives_both (by rintro _ _ (rfl | rfl) <;> simp)
    (gives_of_builtin hrules h rfl)
  cases gives_known.1 hgives
  obtain ⟨_, ⟨⟩, hl⟩ := gives_minRowCount.1 hl
  obtain ⟨_, ⟨⟩, hr⟩ := gives_minRowCount.1 hr
  exact ⟨l, r, hl, hr, rfl⟩

theorem ordered_join {condition : Expr} {type : JoinType} (hleft : b.Ordered left)
    (hright : b.Ordered right) : b.Ordered (.join id left right condition type) where
  whole high h := by
    obtain ⟨l, r, hl, hr, rfl⟩ := atMost_join hrules h
    exact whole_joinMax (hleft.whole l hl) (hright.whole r hr) type
  le low high hlow hhigh := by
    obtain ⟨l, r, hl, hr, rfl⟩ := atMost_join hrules hhigh
    have hwholeLeft := hleft.whole l hl
    have hwholeRight := hright.whole r hr
    cases type with
    | inner | semi | anti =>
      cases gives_known.1 (gives_of_builtin hrules hlow rfl)
      exact zero_eq ▸ bot_le
    | left =>
      obtain ⟨rows, hrows, ⟨⟩⟩ := gives_report.1 (gives_of_builtin hrules hlow rfl)
      obtain ⟨_, ⟨⟩, hrows⟩ := gives_minRowCount.1 hrows
      exact (hleft.le low l hrows hl).trans (le_joinMax_left hwholeRight)
    | right =>
      obtain ⟨rows, hrows, ⟨⟩⟩ := gives_report.1 (gives_of_builtin hrules hlow rfl)
      obtain ⟨_, ⟨⟩, hrows⟩ := gives_minRowCount.1 hrows
      exact (hright.le low r hrows hr).trans (le_joinMax_right hwholeLeft)
    | full =>
      obtain ⟨l', r', hl', hr', rfl⟩ := atLeast_full hrules hlow
      exact (max_le_max (hleft.le l' l hl' hl) (hright.le r' r hr' hr)).trans
        (max_le_joinMax_full hwholeLeft hwholeRight)

/-! Set operations -/

omit hrules in
theorem atMost_inputs {counts : List ℝ≥0∞}
    (h : b.Gives p (forInputs maxRowCount p.children.length) (.ok (some counts))) :
    List.Forall₂ b.AtMost p.children counts :=
  (gives_inputs h).imp fun child count ⟨i, hchild, hcount⟩ => by
    obtain ⟨other, hother, hcount⟩ := gives_maxRowCount.1 hcount
    exact Option.some.inj (hother.symm.trans hchild) ▸ hcount

omit hrules in
theorem atLeast_inputs {counts : List ℝ≥0∞}
    (h : b.Gives p (forInputs minRowCount p.children.length) (.ok (some counts))) :
    List.Forall₂ b.AtLeast p.children counts :=
  (gives_inputs h).imp fun child count ⟨i, hchild, hcount⟩ => by
    obtain ⟨other, hother, hcount⟩ := gives_minRowCount.1 hcount
    exact Option.some.inj (hother.symm.trans hchild) ▸ hcount

omit hrules in
theorem whole_inputs {counts : List ℝ≥0∞} (hinputs : ∀ input ∈ inputs, b.Ordered input)
    (h : List.Forall₂ b.AtMost inputs counts) : ∀ count ∈ counts, Whole count := by
  intro count hcount
  obtain ⟨input, hinput, hmost⟩ := forall₂_exists_mem h hcount
  exact (hinputs input hinput).whole count hmost

theorem atMost_union {all : Bool} (h : b.AtMost (.setOp id .union inputs all) high) :
    ∃ counts, List.Forall₂ b.AtMost inputs counts ∧ high = counts.sum := by
  obtain ⟨counts, hcounts, hfact⟩ := gives_report.1 (gives_of_builtin hrules h rfl)
  cases hfact
  exact ⟨counts, atMost_inputs (p := .setOp id .union inputs all) hcounts, sum_eq counts⟩

omit hrules in
theorem forall₂_le_inputs {lows highs : List ℝ≥0∞} (hinputs : ∀ input ∈ inputs, b.Ordered input)
    (hlows : List.Forall₂ b.AtLeast inputs lows) (hhighs : List.Forall₂ b.AtMost inputs highs) :
    List.Forall₂ (· ≤ ·) lows highs := by
  have hordered := (List.forall₂_and_left _ _).2 ⟨hinputs, hhighs⟩
  refine (forall₂_comp.1 ⟨inputs, hlows.flip, hordered⟩).imp ?_
  rintro low high ⟨input, hlow, hinput, hhigh⟩
  exact hinput.le low high hlow hhigh

theorem ordered_union {all : Bool} (hinputs : ∀ input ∈ inputs, b.Ordered input) :
    b.Ordered (.setOp id .union inputs all) where
  whole high h := by
    obtain ⟨counts, hcounts, rfl⟩ := atMost_union hrules h
    exact whole_sum (whole_inputs hinputs hcounts)
  le low high hlow hhigh := by
    obtain ⟨highs, hhighs, rfl⟩ := atMost_union hrules hhigh
    obtain ⟨lows, hlows, hfact⟩ := gives_report.1 (gives_of_builtin hrules hlow rfl)
    have hle := forall₂_le_inputs hinputs
      (atLeast_inputs (p := .setOp id .union inputs all) hlows) hhighs
    cases all with
    | true =>
      cases hfact
      exact sum_eq lows ▸ hle.sum_le_sum
    | false =>
      simp only [Bool.false_eq_true, if_false, Fact.number.injEq] at hfact
      subst hfact
      split
      next hany =>
        obtain ⟨count, hcount, hone⟩ := List.any_eq_true.1 hany
        obtain ⟨high, hhigh, hcount⟩ := forall₂_exists_mem hle.flip hcount
        have hone : 1 ≤ count := by simpa using hone
        exact one_eq ▸ hone.trans (hcount.trans (List.single_le_sum (by simp) high hhigh))
      · exact zero_eq ▸ bot_le

theorem ordered_intersect {all : Bool} (hinputs : ∀ input ∈ inputs, b.Ordered input) :
    b.Ordered (.setOp id .intersect inputs all) where
  whole high h := by
    obtain ⟨counts, hcounts, hfact⟩ := gives_report.1 (gives_of_builtin hrules h rfl)
    cases hfact
    exact whole_least whole_top (whole_inputs hinputs
      (atMost_inputs (p := .setOp id .intersect inputs all) hcounts))
  le low high hlow hhigh := atLeast_none hrules rfl hlow ▸ bot_le

theorem atMost_sort {collation : Collation} {offset fetch : Option Nat}
    (h : b.AtMost (.sort id input collation offset fetch) high) :
    ∃ rows, (rows = ⊤ ∨ b.AtMost input rows) ∧ high = limit rows offset fetch := by
  obtain ⟨found, hfound, hgives⟩ := gives_bind.1 (gives_of_builtin hrules h rfl)
  cases gives_known.1 hgives
  cases found with
  | none => exact ⟨⊤, .inl rfl, rfl⟩
  | some rows =>
    obtain ⟨_, ⟨⟩, hrows⟩ := gives_maxRowCount.1 hfound
    exact ⟨rows, .inr hrows, rfl⟩

theorem ordered_sort {collation : Collation} {offset fetch : Option Nat}
    (hinput : b.Ordered input) : b.Ordered (.sort id input collation offset fetch) where
  whole high h := by
    obtain ⟨rows, hrows, rfl⟩ := atMost_sort hrules h
    exact whole_limit (hrows.elim (· ▸ whole_top) (hinput.whole rows)) offset fetch
  le low high hlow hhigh := by
    obtain ⟨rows, hrows, rfl⟩ := atMost_sort hrules hhigh
    obtain ⟨least, hleast, ⟨⟩⟩ := gives_report.1 (gives_of_builtin hrules hlow rfl)
    obtain ⟨_, ⟨⟩, hleast⟩ := gives_minRowCount.1 hleast
    exact limit_mono (hrows.elim (· ▸ le_top) (hinput.le least rows hleast)) offset fetch

/-- The bounds of every node are ordered, by induction over the plan. -/
theorem ordered (p : Plan) : b.Ordered p := by
  induction p using Plan.inputInduction with
  | node p ih =>
    cases p with
    | scan | other => exact ordered_unbounded hrules rfl
    | values => exact ordered_values hrules
    | filter => exact ordered_passedOn hrules ih rfl (.inl rfl)
    | project | exchange => exact ordered_passedOn hrules ih rfl (.inr rfl)
    | aggregate id input => exact ordered_aggregate hrules (ih input List.mem_cons_self)
    | join id left right =>
      exact ordered_join hrules (ih left List.mem_cons_self) (ih right (by simp [Plan.children]))
    | setOp id op inputs all =>
      cases op with
      | union => exact ordered_union hrules ih
      | intersect => exact ordered_intersect hrules ih
      | minus => exact ordered_passedOn hrules ih rfl (.inl rfl)
    | sort id input => exact ordered_sort hrules (ih input List.mem_cons_self)

theorem bounds_le (hlow : b.Gives p (minRowCount .self) (.ok (some low)))
    (hhigh : b.Gives p (maxRowCount .self) (.ok (some high))) : low ≤ high := by
  obtain ⟨_, ⟨⟩, hlow⟩ := gives_minRowCount.1 hlow
  obtain ⟨_, ⟨⟩, hhigh⟩ := gives_maxRowCount.1 hhigh
  exact (ordered hrules p).le low high hlow hhigh

end

theorem tupleCount_eq (hlow : b.Gives p (minRowCount .self) (.ok (some low)))
    (hhigh : b.Gives p (maxRowCount .self) (.ok (some high)))
    (hrows : b.Gives p (tupleCount .self) (.ok (some x))) :
    ∃ estimate, x = max (min estimate high) low := by
  obtain ⟨found, -, hrows⟩ := gives_bind.1 hrows
  cases found with
  | none => cases gives_unknown.1 hrows
  | some estimate =>
    obtain ⟨foundHigh, hfoundHigh, hrows⟩ := gives_bind.1 hrows
    obtain ⟨foundLow, hfoundLow, hrows⟩ := gives_bind.1 hrows
    cases hfoundHigh.unique hhigh
    cases hfoundLow.unique hlow
    cases gives_known.1 hrows
    exact ⟨estimate, rfl⟩

theorem gives_tupleCount {s : Subject} (hs : b.node? p s = some child)
    (hrows : b.Answers child ⟨.tupleCount, .none⟩ (.ok (some (.number x))))
    (hlow : b.AtLeast child low) (hhigh : b.AtMost child high) :
    b.Gives p (tupleCount s) (.ok (some (max (min x high) low))) := by
  refine gives_bind.2 ⟨some x, gives_askAmount.2 ⟨child, x, hs, hrows, atLeastZero_eq x⟩, ?_⟩
  refine gives_bind.2 ⟨some high, gives_maxRowCount.2 ⟨child, hs, hhigh⟩, ?_⟩
  refine gives_bind.2 ⟨some low, gives_minRowCount.2 ⟨child, hs, hlow⟩, ?_⟩
  exact gives_known.2 rfl

end Basis

namespace Query
open ExactEstimate Metadata.Basis
variable {root node : Plan} {fresh q : Query ℝ≥0∞} {low high : ℝ≥0∞}

/-- Whatever the catalog says and whatever was asked before, the bounds of a node are ordered where
both are known, and so is an estimated number of rows between them. -/
theorem tupleCount_between {α : Type} {source : TableSource ℝ≥0∞} {scanRows : ℝ≥0∞} {splits : Nat}
    {caching : Bool} {earlier : List (Plan × Inquiry ℝ≥0∞ α)} {outcomes : List (Except Error α)}
    {q₁ q₂ : Query ℝ≥0∞}
    (hfresh : ofPlan root .builtin source scanRows splits caching = .ok fresh)
    (hearlier : ∀ r ∈ earlier, r.1 ∈ root.nodes)
    (hserve : fresh.serve earlier = some (outcomes, q)) (hnode : node ∈ root.nodes)
    (hlow : q.inquire node (minRowCount .self) = some (.ok (some low), q₁))
    (hhigh : q.inquire node (maxRowCount .self) = some (.ok (some high), q₂)) :
    0 ≤ low ∧ low ≤ high ∧
      ∀ rows q₃, q.inquire node (tupleCount .self) = some (.ok (some rows), q₃) →
        low ≤ rows ∧ rows ≤ high := by
  obtain ⟨hbasis, ids, hmemo⟩ := serve_fresh hfresh hearlier hserve
  have hrules : q.rules = .builtin := by rw [hbasis]
  have hmem : node ∈ q.root.nodes := by rw [hbasis]; exact hnode
  obtain ⟨-, -, hlow⟩ := inquire_sound ids hmemo hmem hlow
  obtain ⟨-, -, hhigh⟩ := inquire_sound ids hmemo hmem hhigh
  have hle := bounds_le hrules hlow hhigh
  refine ⟨bot_le, hle, fun rows q₃ hrows => ?_⟩
  obtain ⟨-, -, hrows⟩ := inquire_sound ids hmemo hmem hrows
  obtain ⟨estimate, rfl⟩ := tupleCount_eq hlow hhigh hrows
  exact ⟨le_max_right _ _, max_le (min_le_right _ _) hle⟩

theorem tupleCount_between_limited :
    let table : TableRef := ⟨7, "main", "orders"⟩
    let shape : Schema := [⟨"id", .int64 false, {}⟩]
    let source : TableSource ℝ≥0∞ :=
      ⟨fun _ => .error (.planning (.unknownTableId 7)), fun _ => .ok none⟩
    let scan : Plan := .scan 0 table shape
    let p : Plan := .sort 1 scan [] (some 1) (some 10)
    ∃ fresh q₁ q₂ q₃, ofPlan p .builtin source 5 1 true = .ok fresh ∧
      fresh.inquire p (minRowCount .self) = some (.ok (some 0), q₁) ∧
      fresh.inquire p (maxRowCount .self) = some (.ok (some 10), q₂) ∧
      fresh.inquire p (tupleCount .self) = some (.ok (some 4), q₃) ∧
      (0 : ℝ≥0∞) ≤ 4 ∧ (4 : ℝ≥0∞) ≤ 10 := by
  intro table shape source scan p
  obtain ⟨fresh, hfresh⟩ : ∃ fresh : Query ℝ≥0∞, ofPlan p .builtin source 5 1 true = .ok fresh :=
    ⟨_, rfl⟩
  have hnode : p ∈ p.nodes := Plan.self_mem_nodes p
  have hserve : fresh.serve ([] : List (Plan × Inquiry ℝ≥0∞ Unit)) = some ([], fresh) := rfl
  obtain ⟨-, hbasis⟩ := ofPlan_eq_ok hfresh
  have hask {x : Inquiry ℝ≥0∞ (Option ℝ≥0∞)} {a : ℝ≥0∞} (h : fresh.Gives p x (.ok (some a))) :
      ∃ q', fresh.inquire p x = some (.ok (some a), q') := inquire_fresh hfresh hnode h
  have hrules : fresh.rules = .builtin := by rw [hbasis]
  have hscanLow : fresh.AtLeast scan 0 :=
    answers_of_builtin hrules rfl (gives_known.2 (by simp))
  have hscanHigh : fresh.AtMost scan ⊤ := answers_of_builtin hrules rfl (gives_known.2 rfl)
  have hscanRows : fresh.Answers scan ⟨.tupleCount, .none⟩ (.ok (some (.number 5))) := by
    refine answers_of_builtin hrules rfl (gives_known.2 ?_)
    subst hbasis
    rfl
  have hlow : fresh.AtLeast p 0 := by
    refine answers_of_builtin hrules rfl (gives_report.2 ⟨0, ?_, by simp [limit_eq]⟩)
    exact gives_minRowCount.2 ⟨scan, rfl, hscanLow⟩
  have hhigh : fresh.AtMost p 10 := by
    refine answers_of_builtin hrules rfl (gives_bind.2 ⟨some ⊤, ?_, gives_known.2 ?_⟩)
    · exact gives_maxRowCount.2 ⟨scan, rfl, hscanHigh⟩
    · simp [limit_eq]
  have hrows : fresh.Answers p ⟨.tupleCount, .none⟩ (.ok (some (.number 4))) := by
    refine answers_of_builtin hrules rfl (gives_report.2
      ⟨max (min 5 ⊤) 0, gives_tupleCount rfl hscanRows hscanLow hscanHigh, ?_⟩)
    have hrest : (5 - 1 : ℝ≥0∞) = 4 := ENNReal.sub_eq_of_eq_add (by simp) (by norm_num)
    have hfour : min 4 10 = (4 : ℝ≥0∞) := by norm_num
    simp [limit_eq, hrest, hfour]
  obtain ⟨q₁, hlow'⟩ := hask (gives_minRowCount.2 ⟨p, (rfl : fresh.node? p .self = some p), hlow⟩)
  obtain ⟨q₂, hhigh'⟩ := hask (gives_maxRowCount.2 ⟨p, (rfl : fresh.node? p .self = some p), hhigh⟩)
  obtain ⟨q₃, hrows'⟩ := hask (gives_tupleCount (s := .self) rfl hrows hlow hhigh)
  have hfour : max (min 4 10) 0 = (4 : ℝ≥0∞) := by norm_num
  rw [hfour] at hrows'
  exact ⟨fresh, q₁, q₂, q₃, hfresh, hlow', hhigh', hrows',
    (tupleCount_between hfresh (by simp) hserve hnode hlow' hhigh').2.2 4 q₃ hrows'⟩

end Query
end Relational.Metadata
