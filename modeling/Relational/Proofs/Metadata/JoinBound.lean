import Relational.Proofs.Execution.JoinCount
import Relational.Proofs.Metadata.JoinUniqueness
import Relational.Proofs.Metadata.RowCount

/-!
# Bounds on the rows of joins

A join of rows within the bounds of its inputs has at least as many rows as its lower bound and no
more than its upper bound, whatever its condition matches, except that a full join may have one row
more where the bound of an input is one.
-/
namespace Relational.Metadata

namespace Basis
variable {Q : Type} {b : Basis Q} {node other : Plan}

theorem answers_of_lookup {q : Question} {rule : Rule Q}
    {outcome : Except Error (Option (Fact Q))} (hrule : b.rules.lookup node.kind q.kind = some rule)
    (h : b.Gives node (rule b.setting node q.args) outcome) : b.Answers node q outcome := by
  unfold Answers inquiry
  rw [hrule]
  exact h

theorem gives_report_ok {α : Type} {wrap : α → Fact Q} {x : Inquiry Q (Option α)}
    {found : Option α} (h : b.Gives node x (.ok found)) :
    b.Gives node (report wrap x) (.ok (found.map wrap)) :=
  gives_bind.2 ⟨found, h, gives_pure.2 rfl⟩

theorem gives_request_of_self {s : Subject} {q : Question} {fact : Option (Fact Q)}
    (hs : b.node? node s = some other) (h : b.Gives other (.request .self q) (.ok fact)) :
    b.Gives node (.request s q) (.ok fact) := by
  cases h with
  | missing hself => cases hself
  | @asked _ _ _ _ _ _ found _ hself answers rest =>
    cases hself
    replace rest := (gives_resume.1 rest).2
    cases found with
    | error e => cases rest
    | ok found =>
      cases rest
      exact .asked hs answers (.done _)

section Amounts
variable [Quantity Q] {kind : Kind} {args : Args} {found : Option Q}

theorem gives_askAmount_of_self {s : Subject} (hs : b.node? node s = some other)
    (h : b.Gives other (askAmount .self kind args) (.ok found)) :
    b.Gives node (askAmount s kind args) (.ok found) := by
  simp only [askAmount, askFor, gives_bind, gives_pure] at h ⊢
  obtain ⟨amount, ⟨fact, hfact, hamount⟩, hfound⟩ := h
  exact ⟨amount, ⟨fact, gives_request_of_self hs hfact, hamount⟩, hfound⟩

theorem gives_askAmount_of_answers (h : b.Answers node ⟨kind, args⟩ (.ok (found.map .number))) :
    b.Gives node (askAmount .self kind args) (.ok (found.map Quantity.atLeastZero)) := by
  simp only [askAmount, askFor, gives_bind, gives_pure]
  refine ⟨found, ⟨found.map .number, .asked rfl h (.done _), ?_⟩, rfl⟩
  cases found <;> rfl

end Amounts

section Bounds
variable [Quantity Q]

def leastOfJoin (type : JoinType) (l r : Option Q) : Option Q :=
  match type with
  | .left => l
  | .right => r
  | .full => l.bind fun l => r.map (Quantity.greatest l)
  | .inner | .semi | .anti => some Quantity.zero

def greatestOfJoin (type : JoinType) (l r : Option Q) : Option Q :=
  l.bind fun l => r.map (RowBound.joinMax type l)

variable {id : Nat} {left right : Plan} {condition : Expr} {type : JoinType} {l r : Option Q}

theorem gives_least_of_join (hrules : b.rules = .builtin)
    (hl : b.Gives left (minRowCount .self) (.ok l))
    (hr : b.Gives right (minRowCount .self) (.ok r)) :
    b.Gives (.join id left right condition type) (minRowCount .self)
      (.ok ((leastOfJoin type l r).map Quantity.atLeastZero)) := by
  have hleft : b.Gives (.join id left right condition type) (minRowCount (.input 0)) (.ok l) :=
    gives_askAmount_of_self rfl hl
  have hright : b.Gives (.join id left right condition type) (minRowCount (.input 1)) (.ok r) :=
    gives_askAmount_of_self rfl hr
  have hrule : b.rules.lookup .join .minRowCount = some RowBound.minOfJoin := by
    rw [hrules]
    rfl
  refine gives_askAmount_of_answers (answers_of_lookup hrule ?_)
  cases type with
  | left => exact gives_report_ok hleft
  | right => exact gives_report_ok hright
  | full =>
    refine gives_bind.2 ⟨l, hleft, gives_bind.2 ⟨r, hright, ?_⟩⟩
    cases l <;> cases r <;> exact .done _
  | inner | semi | anti => exact gives_known.2 rfl

theorem gives_greatest_of_join (hrules : b.rules = .builtin)
    (hl : b.Gives left (maxRowCount .self) (.ok l))
    (hr : b.Gives right (maxRowCount .self) (.ok r)) :
    b.Gives (.join id left right condition type) (maxRowCount .self)
      (.ok ((greatestOfJoin type l r).map Quantity.atLeastZero)) := by
  have hrule : b.rules.lookup .join .maxRowCount = some RowBound.maxOfJoin := by
    rw [hrules]
    rfl
  refine gives_askAmount_of_answers (answers_of_lookup hrule ?_)
  refine gives_bind.2 ⟨l, gives_askAmount_of_self rfl hl, gives_bind.2
    ⟨r, gives_askAmount_of_self rfl hr, ?_⟩⟩
  cases l <;> cases r <;> exact .done _

end Bounds
end Basis

namespace RowBound
open ExactCount
variable {j : Joining} {type : JoinType} {l r : ℕ∞}

@[simp] theorem isZero_eq (x : ℕ∞) : Quantity.isZero x = decide (x = 0) := by
  simp [Quantity.isZero]

/-- The row by which a full join may exceed its bound: where nothing matches it keeps the rows of
both inputs, but a product with one is the bound of a single input. -/
def unpaired (type : JoinType) (l r : ℕ∞) : ℕ∞ :=
  if type = .full ∧ (l = 1 ∧ r ≠ 0 ∨ r = 1 ∧ l ≠ 0) then 1 else 0

theorem add_le_mul_of_two_le (hl : 2 ≤ l) (hr : 2 ≤ r) : l + r ≤ l * r := by
  rcases le_total l r with hle | hle
  · calc l + r ≤ r + r := add_le_add_left hle r
      _ = 2 * r := (two_mul r).symm
      _ ≤ l * r := mul_le_mul_left hl r
  · calc l + r ≤ l + l := add_le_add_right hle l
      _ = l * 2 := (mul_two l).symm
      _ ≤ l * r := mul_le_mul_right hr l

theorem length_outer_le {m n k : ℕ} (hm : m ≤ l) (hn : n ≤ r) (hk : k ≤ m * max 1 n) :
    (k : ℕ∞) ≤ if r = 0 then l else l * r := by
  split
  next hzero =>
    have hnone : n = 0 := by simpa [hzero] using hn
    rw [hnone, max_eq_left (by decide), mul_one] at hk
    exact (Nat.cast_le.2 hk).trans hm
  next hsome =>
    have hwidth : ((max 1 n : ℕ) : ℕ∞) ≤ r := by
      rcases max_choice 1 n with h | h <;> rw [h]
      · exact Order.one_le_iff_pos.2 (pos_iff_ne_zero.2 hsome)
      · exact hn
    calc (k : ℕ∞) ≤ ((m * max 1 n : ℕ) : ℕ∞) := Nat.cast_le.2 hk
      _ = m * (max 1 n : ℕ) := Nat.cast_mul _ _
      _ ≤ l * r := mul_le_mul' hm hwidth

theorem add_le_mul_add_unpaired (hl : l ≠ 0) (hr : r ≠ 0) : l + r ≤ l * r + unpaired .full l r := by
  by_cases hlone : l = 1
  · simp [unpaired, hlone, hr, add_comm]
  by_cases hrone : r = 1
  · simp [unpaired, hrone, hl]
  have htwo (x : ℕ∞) (hzero : x ≠ 0) (hone : x ≠ 1) : 2 ≤ x := by
    have hlt : 1 < x := lt_of_le_of_ne (Order.one_le_iff_pos.2 (pos_iff_ne_zero.2 hzero)) hone.symm
    simpa [one_add_one_eq_two] using Order.add_one_le_of_lt hlt
  exact (add_le_mul_of_two_le (htwo l hl hlone) (htwo r hr hrone)).trans le_self_add

theorem length_rows_full :
    (j.rows .full).length = j.pairs.length + j.leftOver.length + j.rightOver.length := by
  simp [Joining.rows, Joining.leftPadded, Joining.rightPadded, Nat.add_assoc]

theorem length_full_le (hl : j.left.length ≤ l) (hr : j.right.length ≤ r) (hlzero : l ≠ 0)
    (hrzero : r ≠ 0) : ((j.rows .full).length : ℕ∞) ≤ l * r + unpaired .full l r := by
  rw [length_rows_full]
  by_cases hmatch : j.pairs = []
  · have hkept : j.pairs.length + j.leftOver.length + j.rightOver.length ≤
        j.left.length + j.right.length := by
      rw [hmatch, List.length_nil, Nat.zero_add]
      exact add_le_add (List.length_filter_le _ _) (List.length_filter_le _ _)
    calc ((j.pairs.length + j.leftOver.length + j.rightOver.length : ℕ) : ℕ∞)
        ≤ ((j.left.length + j.right.length : ℕ) : ℕ∞) := Nat.cast_le.2 hkept
      _ = j.left.length + j.right.length := Nat.cast_add _ _
      _ ≤ l + r := add_le_add hl hr
      _ ≤ l * r + unpaired .full l r := add_le_mul_add_unpaired hlzero hrzero
  · calc ((j.pairs.length + j.leftOver.length + j.rightOver.length : ℕ) : ℕ∞)
        ≤ ((j.left.length * j.right.length : ℕ) : ℕ∞) := Nat.cast_le.2 (j.length_full_le hmatch)
      _ = j.left.length * j.right.length := Nat.cast_mul _ _
      _ ≤ l * r := mul_le_mul' hl hr
      _ ≤ l * r + unpaired .full l r := le_self_add

/-- A join has no more rows than the bound that follows from those of its inputs, but for the row
that a full join may have more. -/
theorem length_rows_le (hl : j.left.length ≤ l) (hr : j.right.length ≤ r) :
    ((j.rows type).length : ℕ∞) ≤ joinMax type l r + unpaired type l r := by
  cases type with
  | inner =>
    refine le_add_right ?_
    rw [joinMax, times_eq]
    calc (j.pairs.length : ℕ∞) ≤ ((j.left.length * j.right.length : ℕ) : ℕ∞) :=
          Nat.cast_le.2 j.length_pairs_le
      _ = j.left.length * j.right.length := Nat.cast_mul _ _
      _ ≤ l * r := mul_le_mul' hl hr
  | left =>
    have hrows : (j.rows .left).length = j.pairs.length + j.leftOver.length := by
      simp [Joining.rows, Joining.leftPadded]
    have hkept := length_outer_le hl hr (hrows.trans_le j.length_pairs_add_leftOver)
    simpa [joinMax] using le_add_right hkept
  | right =>
    have hrows : (j.rows .right).length = j.pairs.length + j.rightOver.length := by
      simp [Joining.rows, Joining.rightPadded]
    have hkept := length_outer_le hr hl (hrows.trans_le j.length_pairs_add_rightOver)
    rw [mul_comm] at hkept
    simpa [joinMax] using le_add_right hkept
  | full =>
    have hleft := j.length_pairs_add_leftOver
    have hright := j.length_pairs_add_rightOver
    by_cases hlzero : l = 0
    · have hnone : j.left.length = 0 := by simpa [hlzero] using hl
      have hkept : (j.rows .full).length ≤ j.right.length := by
        rw [length_rows_full]
        simp only [hnone, Nat.zero_mul, max_eq_left (Nat.zero_le 1), Nat.mul_one] at hleft hright
        omega
      simpa [joinMax, hlzero] using le_add_right ((Nat.cast_le.2 hkept).trans hr)
    by_cases hrzero : r = 0
    · have hnone : j.right.length = 0 := by simpa [hrzero] using hr
      have hkept : (j.rows .full).length ≤ j.left.length := by
        rw [length_rows_full]
        simp only [hnone, Nat.zero_mul, max_eq_left (Nat.zero_le 1), Nat.mul_one] at hleft hright
        omega
      simpa [joinMax, hlzero, hrzero] using le_add_right ((Nat.cast_le.2 hkept).trans hl)
    simpa [joinMax, hlzero, hrzero] using length_full_le hl hr hlzero hrzero
  | semi | anti =>
    exact le_add_right ((Nat.cast_le.2 (List.length_filter_le _ _)).trans hl)

theorem le_length_rows {l r : Option ℕ∞} (hl : ∀ x ∈ l, x ≤ j.left.length)
    (hr : ∀ x ∈ r, x ≤ j.right.length) :
    ∀ x ∈ Basis.leastOfJoin type l r, x ≤ ((j.rows type).length : ℕ∞) := by
  intro x hx
  cases type with
  | left =>
    have hkept : j.left.length ≤ (j.rows .left).length := by
      simpa [Joining.rows, Joining.leftPadded] using j.length_left_le
    exact (hl x hx).trans (Nat.cast_le.2 hkept)
  | right =>
    have hkept : j.right.length ≤ (j.rows .right).length := by
      simpa [Joining.rows, Joining.rightPadded] using j.length_right_le
    exact (hr x hx).trans (Nat.cast_le.2 hkept)
  | full =>
    obtain ⟨a, ha, hx⟩ := Option.bind_eq_some_iff.1 hx
    obtain ⟨b, hb, rfl⟩ := Option.map_eq_some_iff.1 hx
    have hleft := j.length_left_le
    have hright := j.length_right_le
    have hrows := length_rows_full (j := j)
    exact max_le ((hl a ha).trans (Nat.cast_le.2 (by omega)))
      ((hr b hb).trans (Nat.cast_le.2 (by omega)))
  | inner | semi | anti =>
    cases hx
    exact bot_le

end RowBound

namespace Query
open Metadata.Basis RowBound ExactCount
variable {root node : Plan} {fresh q : Query ℕ∞}

structure Brackets (q : Query ℕ∞) (p : Plan) (low high : Option ℕ∞) : Prop where
  min : ∃ q', q.inquire p (minRowCount .self) = some (.ok low, q')
  max : ∃ q', q.inquire p (maxRowCount .self) = some (.ok high, q')

theorem brackets_values {source : TableSource ℕ∞} {scanRows : ℕ∞} {splits : Nat} {caching : Bool}
    {id : Nat} {rows : List Row} {shape : Schema} {notes : Notes}
    (hfresh : ofPlan root .builtin source scanRows splits caching = .ok fresh)
    (hnode : .values id rows shape notes ∈ root.nodes) :
    fresh.Brackets (.values id rows shape notes) (some rows.length) (some rows.length) := by
  have hrules : fresh.rules = .builtin := by
    obtain ⟨-, rfl⟩ := ofPlan_eq_ok hfresh
    rfl
  have hbounds : fresh.Bounds (.values id rows shape notes) rows.length rows.length :=
    ⟨answers_of_builtin hrules rfl (gives_known.2 rfl),
      answers_of_builtin hrules rfl (gives_known.2 rfl)⟩
  exact ⟨inquire_fresh hfresh hnode (hbounds.gives_min rfl),
    inquire_fresh hfresh hnode (hbounds.gives_max rfl)⟩

theorem Brackets.join {id : Nat} {left right : Plan} {condition : Expr} {type : JoinType}
    {leftLow leftHigh rightLow rightHigh : Option ℕ∞} (ids : q.root.checkIds = .ok ())
    (hmemo : q.Sound q.memo) (hrules : q.rules = .builtin)
    (hnode : .join id left right condition type ∈ q.root.nodes)
    (hleft : q.Brackets left leftLow leftHigh) (hright : q.Brackets right rightLow rightHigh) :
    q.Brackets (.join id left right condition type) (leastOfJoin type leftLow rightLow)
      (greatestOfJoin type leftHigh rightHigh) := by
  have gives {child : Plan} {x : Inquiry ℕ∞ (Option ℕ∞)} {found : Option ℕ∞}
      (hchild : child ∈ (Plan.join id left right condition type).children)
      (h : ∃ q', q.inquire child x = some (.ok found, q')) : q.Gives child x (.ok found) := by
    obtain ⟨q', h⟩ := h
    have hmem : child ∈ q.root.nodes :=
      Plan.mem_nodes_trans hnode (Plan.mem_nodes_of_mem_children hchild)
    exact (inquire_sound ids hmemo hmem h).2.2
  have hfirst := List.mem_cons_self (a := left) (l := [right])
  have hsecond := List.mem_cons_of_mem left (List.mem_cons_self (a := right) (l := []))
  have hmin : q.Gives (.join id left right condition type) _ (.ok _) :=
    gives_least_of_join hrules (gives hfirst hleft.min) (gives hsecond hright.min)
  have hmax : q.Gives (.join id left right condition type) _ (.ok _) :=
    gives_greatest_of_join hrules (gives hfirst hleft.max) (gives hsecond hright.max)
  have hsame : (Quantity.atLeastZero : ℕ∞ → ℕ∞) = fun x => x := funext atLeastZero_eq
  rw [hsame, Option.map_id'] at hmin hmax
  exact ⟨inquire_of_gives ids hmemo hnode hmin, inquire_of_gives ids hmemo hnode hmax⟩

/-- Whatever was asked before, and whichever rows the condition puts side by side: where the numbers
of rows of the inputs lie between their bounds, the bounds of a join are known if theirs are, and
its number of rows lies between them, but for the one row that a full join may have more. -/
theorem join_rowCount_between {α : Type} {source : TableSource ℕ∞} {scanRows : ℕ∞} {splits : Nat}
    {caching : Bool} {earlier : List (Plan × Inquiry ℕ∞ α)} {outcomes : List (Except Error α)}
    {id : Nat} {left right : Plan} {condition : Expr} {type : JoinType} {j : Joining}
    {leftLow leftHigh rightLow rightHigh : Option ℕ∞}
    (hfresh : ofPlan root .builtin source scanRows splits caching = .ok fresh)
    (hearlier : ∀ r ∈ earlier, r.1 ∈ root.nodes)
    (hserve : fresh.serve earlier = some (outcomes, q))
    (hnode : .join id left right condition type ∈ root.nodes)
    (hleft : q.Brackets left leftLow leftHigh) (hright : q.Brackets right rightLow rightHigh)
    (hleftLow : ∀ x ∈ leftLow, x ≤ j.left.length)
    (hleftHigh : ∀ x ∈ leftHigh, j.left.length ≤ x)
    (hrightLow : ∀ x ∈ rightLow, x ≤ j.right.length)
    (hrightHigh : ∀ x ∈ rightHigh, j.right.length ≤ x) :
    ∃ low high, q.Brackets (.join id left right condition type) low high ∧
      (leftLow.isSome → rightLow.isSome → low.isSome) ∧
      (leftHigh.isSome → rightHigh.isSome → high.isSome) ∧
      (∀ x ∈ low, x ≤ (j.rows type).length) ∧
      ∀ x ∈ high, ∃ l ∈ leftHigh, ∃ r ∈ rightHigh,
        (j.rows type).length ≤ x + unpaired type l r := by
  obtain ⟨hbasis, ids, hmemo⟩ := serve_fresh hfresh hearlier hserve
  have hrules : q.rules = .builtin := by rw [hbasis]
  have hmem : .join id left right condition type ∈ q.root.nodes := by rw [hbasis]; exact hnode
  refine ⟨_, _, hleft.join ids hmemo hrules hmem hright, ?_, ?_,
    le_length_rows hleftLow hrightLow, ?_⟩
  · intro hl hr
    obtain ⟨l, rfl⟩ := Option.isSome_iff_exists.1 hl
    obtain ⟨r, rfl⟩ := Option.isSome_iff_exists.1 hr
    cases type <;> rfl
  · intro hl hr
    obtain ⟨l, rfl⟩ := Option.isSome_iff_exists.1 hl
    obtain ⟨r, rfl⟩ := Option.isSome_iff_exists.1 hr
    rfl
  · intro x hx
    obtain ⟨l, hl, hx⟩ := Option.bind_eq_some_iff.1 hx
    obtain ⟨r, hr, rfl⟩ := Option.map_eq_some_iff.1 hx
    exact ⟨l, hl, r, hr, length_rows_le (hleftHigh l hl) (hrightHigh r hr)⟩

theorem join_rowCount_between_unmatched :
    let shape : Schema := [⟨"n", .int64 false, {}⟩]
    let source : TableSource ℕ∞ :=
      ⟨fun _ => .error (.planning (.unknownTableId 0)), fun _ => .ok none⟩
    let leftRows : List Row := [[.int64 1], [.int64 2]]
    let rightRows : List Row := [[.int64 3], [.int64 4]]
    let condition : Expr :=
      .call (.compare .eq) [.column 0 (.int64 false), .column 1 (.int64 false)] (.boolean false)
    let left : Plan := .values 1 leftRows shape
    let right : Plan := .values 2 rightRows shape
    let p : Plan := .join 3 left right condition .full
    ∃ fresh, ofPlan p .builtin source 1 1 true = .ok fresh ∧
      fresh.Brackets left (some 2) (some 2) ∧ fresh.Brackets right (some 2) (some 2) ∧
      ∃ (hleft : ExactRows left.schema leftRows) (hright : ExactRows right.schema rightRows),
        ((condition.joining hleft hright).rows .full).length = 4 ∧
        ∃ low high, fresh.Brackets p low high ∧ low.isSome ∧ high.isSome ∧ (∀ x ∈ low, x ≤ 4) ∧
          ∀ x ∈ high, ∃ l ∈ some 2, ∃ r ∈ some 2, 4 ≤ x + unpaired .full l r := by
  intro shape source leftRows rightRows condition left right p
  obtain ⟨fresh, hfresh⟩ : ∃ fresh : Query ℕ∞, ofPlan p .builtin source 1 1 true = .ok fresh :=
    ⟨_, rfl⟩
  have hnode : p ∈ p.nodes := Plan.self_mem_nodes p
  have hserve : fresh.serve ([] : List (Plan × Inquiry ℕ∞ Unit)) = some ([], fresh) := rfl
  have hexact (n m : Int64) : ExactRows shape [[.int64 n], [.int64 m]] := by
    constructor <;> simp [Row.Conforms, shape, Value.IsFloat, Value.Conforms, Value.dataType,
      SqlType.int64]
  have hleft : fresh.Brackets left (some 2) (some 2) :=
    brackets_values hfresh (Plan.mem_nodes_of_mem_children List.mem_cons_self)
  have hright : fresh.Brackets right (some 2) (some 2) :=
    brackets_values hfresh
      (Plan.mem_nodes_of_mem_children (List.mem_cons_of_mem _ List.mem_cons_self))
  have hcount : ((condition.joining (hexact 1 2) (hexact 3 4)).rows .full).length = 4 := rfl
  obtain ⟨low, high, hbrackets, hlow, hhigh, hmin, hmax⟩ :=
    join_rowCount_between (j := condition.joining (hexact 1 2) (hexact 3 4)) hfresh (by simp) hserve
      hnode hleft hright (by simp [Expr.joining]) (by simp [Expr.joining])
      (by simp [Expr.joining]) (by simp [Expr.joining])
  rw [hcount] at hmin hmax
  exact ⟨fresh, hfresh, hleft, hright, hexact 1 2, hexact 3 4, hcount, low, high, hbrackets,
    hlow rfl rfl, hhigh rfl rfl, hmin, hmax⟩

/-- Of two single rows that do not match a full join keeps both, above its bound of one. -/
theorem join_rowCount_exceeds :
    let shape : Schema := [⟨"n", .int64 false, {}⟩]
    let source : TableSource ℕ∞ :=
      ⟨fun _ => .error (.planning (.unknownTableId 0)), fun _ => .ok none⟩
    let left : Plan := .values 1 [[.int64 1]] shape
    let right : Plan := .values 2 [[.int64 2]] shape
    let condition : Expr := .literal (.boolean false) (.boolean false)
    let p : Plan := .join 3 left right condition .full
    ∃ fresh, ofPlan p .builtin source 1 1 true = .ok fresh ∧ p.check = .ok () ∧
      fresh.Brackets left (some 1) (some 1) ∧ fresh.Brackets right (some 1) (some 1) ∧
      ∃ (hleft : ExactRows left.schema [[.int64 1]])
        (hright : ExactRows right.schema [[.int64 2]]),
        (∃ q', fresh.inquire p (maxRowCount .self) = some (.ok (some 1), q')) ∧
        ((condition.joining hleft hright).rows .full).length = 2 := by
  intro shape source left right condition p
  obtain ⟨fresh, hfresh⟩ : ∃ fresh : Query ℕ∞, ofPlan p .builtin source 1 1 true = .ok fresh :=
    ⟨_, rfl⟩
  have hexact (n : Int64) : ExactRows shape [[.int64 n]] := by
    constructor <;> simp [Row.Conforms, shape, Value.IsFloat, Value.Conforms, Value.dataType,
      SqlType.int64]
  have hleft : fresh.Brackets left (some 1) (some 1) :=
    brackets_values hfresh (Plan.mem_nodes_of_mem_children List.mem_cons_self)
  have hright : fresh.Brackets right (some 1) (some 1) :=
    brackets_values hfresh
      (Plan.mem_nodes_of_mem_children (List.mem_cons_of_mem _ List.mem_cons_self))
  have hmax : ∃ q', fresh.inquire p (maxRowCount .self) = some (.ok (some 1), q') := by
    obtain ⟨ids, rfl⟩ := ofPlan_eq_ok hfresh
    have hbound : greatestOfJoin .full (some 1) (some (1 : ℕ∞)) = some 1 := by
      simp [greatestOfJoin, joinMax]
    exact hbound ▸ (hleft.join ids sound_nil rfl (Plan.self_mem_nodes p) hright).max
  exact ⟨fresh, hfresh, rfl, hleft, hright, hexact 1, hexact 2, hmax, rfl⟩

end Query
end Relational.Metadata
