import Relational.Proofs.Binary.UpToOne
import Relational.Proofs.Metadata.Alignment
import Relational.Proofs.Metadata.JoinBound
import Relational.Proofs.Metadata.KeyGrounds

/-!
# Nodes with the empty key

The empty key is derived for nodes that are thought to have at most one row. The bound on the rows
says so too, where the key does not come from a catalog, from rows without columns or from one side
of a join alone. A node has then no other key.
-/
namespace Relational

namespace Plan
variable {Q : Type} {source : TableSource Q} {lone : Plan → Prop} {p : Plan}

/-- Nodes have the empty key for a reason: no table declares it, rows of set operations have
columns, and a join has it of both sides if of one. Which nodes have it is told by `lone`. -/
structure Grounded (source : TableSource Q) (lone : Plan → Prop) (p : Plan) : Prop where
  scan : ∀ id table shape notes, .scan id table shape notes ∈ p.nodes →
    ∀ d, source.table table.id = .ok d → .empty ∉ d.uniqueKeys
  setOp : ∀ id op inputs all, .setOp id op inputs all ∈ p.nodes →
    (setOp id op inputs all).width ≠ 0
  left : ∀ id left right condition type, .join id left right condition type ∈ p.nodes →
    type = .inner ∨ type = .left → lone left → lone right
  right : ∀ id left right condition type, .join id left right condition type ∈ p.nodes →
    type = .inner ∨ type = .right → lone right → lone left

theorem Grounded.declares {setting : Metadata.Setting Q} {id : Nat} {table : TableRef}
    {shape : Schema} {notes : Notes}
    (h : (Plan.scan id table shape notes).Grounded setting.source lone) {d : TableDescriptor}
    (hd : setting.descriptor? (.scan id table shape notes) = some d) {key : ColumnSet}
    (hkey : key ∈ d.uniqueKeys) : key ≠ .empty := by
  rintro rfl
  rw [Metadata.Setting.descriptor?, table?, Option.bind_some, toOption_eq_some] at hd
  exact h.scan id table shape notes (self_mem_nodes _) d hd hkey

theorem Grounded.child (h : p.Grounded source lone) {child : Plan} (hchild : child ∈ p.children) :
    child.Grounded source lone := by
  have hnodes {node : Plan} (hmem : node ∈ child.nodes) : node ∈ p.nodes :=
    mem_nodes_trans (mem_nodes_of_mem_children hchild) hmem
  exact ⟨fun id table shape notes hmem => h.scan id table shape notes (hnodes hmem),
    fun id op inputs all hmem => h.setOp id op inputs all (hnodes hmem),
    fun id left right condition type hmem => h.left id left right condition type (hnodes hmem),
    fun id left right condition type hmem => h.right id left right condition type (hnodes hmem)⟩

theorem Grounded.mono {lone' : Plan → Prop} (h : p.Grounded source lone)
    (hlone : ∀ node ∈ p.nodes, lone node ↔ lone' node) : p.Grounded source lone' := by
  refine ⟨h.scan, h.setOp, fun id left right condition type hmem htype hleft => ?_,
    fun id left right condition type hmem htype hright => ?_⟩ <;>
    have hl := hlone left (mem_nodes_trans hmem (mem_nodes_of_mem_children List.mem_cons_self)) <;>
    have hr := hlone right (mem_nodes_trans hmem
      (mem_nodes_of_mem_children (List.mem_cons_of_mem _ List.mem_cons_self)))
  · exact hr.1 (h.left id left right condition type hmem htype (hl.2 hleft))
  · exact hl.1 (h.right id left right condition type hmem htype (hr.2 hright))

end Plan

namespace Metadata
open Quantity

namespace Quantity
open Binary.Word
variable {x l r : Binary64} {n : Nat}

theorem le_one_ofNat (h : n ≤ 1) : le (ofNat n : Binary64) one = true := by
  have hn : n = 0 ∨ n = 1 := by omega
  rcases hn with rfl | rfl <;> decide +kernel

theorem le_one_limit (hx : x.UpToOne) (offset fetch : Option Nat) :
    le (limit x offset fetch) one = true := by
  have hrest : (atLeastZero (x - ofNat (offset.getD 0))).UpToOne := .atLeastZero (hx.sub _)
  cases fetch with
  | none => exact hrest.le_one
  | some n => exact least_le_left hrest.le_one (isNaN_ofInt _)

theorem le_one_limit_of_fetch (x : Binary64) (offset : Option Nat) (h : n ≤ 1) :
    le (limit x offset (some n)) one = true :=
  least_le_right (le_one_ofNat h)

theorem le_one_times (hl : l.UpToOne) (hr : r.UpToOne) : le (times l r) one = true := by
  unfold times
  split
  · decide +kernel
  · exact hl.mul hr

theorem le_one_joinMax {type : JoinType} (hl : l.UpToOne)
    (hr : type.keepsRight = true → r.UpToOne) : le (RowBound.joinMax type l r) one = true := by
  cases type with
  | inner => exact le_one_times hl (hr rfl)
  | left =>
    change le (if isZero r then l else times l r) one = true
    split
    · exact hl.le_one
    · exact le_one_times hl (hr rfl)
  | right =>
    change le (if isZero l then r else times l r) one = true
    split
    · exact (hr rfl).le_one
    · exact le_one_times hl (hr rfl)
  | full =>
    change le (if isZero l then r else if isZero r then l else times l r) one = true
    split
    · exact (hr rfl).le_one
    split
    · exact hl.le_one
    · exact le_one_times hl (hr rfl)
  | semi | anti => exact hl.le_one

end Quantity

namespace Basis

section Bounds
variable {Q : Type} [Quantity Q] {b : Basis Q} {p child : Plan} {s : Subject} {x : Q}

theorem gives_counts {inputs : List Plan} {counts : List Q} (hp : p.children = inputs)
    (h : List.Forall₂ (fun child x => b.Gives child (maxRowCount .self) (.ok (some x)))
      inputs counts) :
    b.Gives p (forInputs maxRowCount inputs.length) (.ok (some counts)) := by
  subst hp
  exact gives_inputs_ok (h.imp fun child x hx i hs => gives_askAmount_of_self hs hx)

theorem exists_maxRowCount (hrules : b.rules = .builtin) (hvalid : p.Valid) :
    ∃ x, b.Gives p (maxRowCount .self) (.ok (some x)) := by
  induction p using Plan.inputInduction with
  | node p ih =>
    have hinput : ∀ child ∈ p.children, ∃ x, b.Gives child (maxRowCount .self) (.ok (some x)) :=
      fun child hmem => ih child hmem (hvalid.child hmem)
    clear ih
    suffices ∃ y, b.Answers p ⟨.maxRowCount, .none⟩ (.ok (some (.number y))) by
      obtain ⟨y, hy⟩ := this
      exact ⟨atLeastZero y, gives_askAmount.2 ⟨p, y, rfl, hy, rfl⟩⟩
    cases p with
    | scan | other => exact ⟨_, answers_of_builtin hrules rfl (gives_known.2 rfl)⟩
    | values => exact ⟨_, answers_of_builtin hrules rfl (gives_known.2 rfl)⟩
    | filter | project | exchange =>
      obtain ⟨x, hx⟩ := hinput _ List.mem_cons_self
      exact ⟨x, answers_of_builtin hrules rfl
        (gives_fromInput_ok (List.cons_ne_nil _ _) (gives_askAmount_of_self rfl hx))⟩
    | aggregate id input sets calls indicator =>
      by_cases hkeyed : keyedSets sets = 0
      · refine ⟨ofNat (emptySets sets), answers_of_builtin hrules rfl ?_⟩
        simp only [RowBound.maxOfAggregate, hkeyed, if_true]
        exact gives_known.2 rfl
      · obtain ⟨x, hx⟩ := hinput _ List.mem_cons_self
        refine ⟨ofNat (emptySets sets) + times x (ofNat (keyedSets sets)),
          answers_of_builtin hrules rfl ?_⟩
        simp only [RowBound.maxOfAggregate, hkeyed, if_false]
        exact gives_report.2 ⟨x, gives_askAmount_of_self rfl hx, rfl⟩
    | join id left right condition type =>
      obtain ⟨l, hl⟩ := hinput left List.mem_cons_self
      obtain ⟨r, hr⟩ := hinput right (List.mem_cons_of_mem _ List.mem_cons_self)
      refine ⟨RowBound.joinMax type l r, answers_of_builtin hrules rfl ?_⟩
      refine gives_bind.2 ⟨some l, gives_askAmount_of_self rfl hl, ?_⟩
      exact gives_bind.2 ⟨some r, gives_askAmount_of_self rfl hr, gives_known.2 rfl⟩
    | setOp id op inputs all =>
      obtain ⟨counts, hcounts⟩ := exists_forall₂ hinput
      cases op with
      | union | intersect =>
        exact ⟨_, answers_of_builtin hrules rfl
          (gives_report.2 ⟨counts, gives_counts rfl hcounts, rfl⟩)⟩
      | minus =>
        cases hcounts with
        | nil => cases hvalid.check
        | @cons _ x _ _ hx _ =>
          exact ⟨x, answers_of_builtin hrules rfl
            (gives_fromInput_ok (List.cons_ne_nil _ _) (gives_askAmount_of_self rfl hx))⟩
    | sort id input collation offset fetch =>
      obtain ⟨x, hx⟩ := hinput _ List.mem_cons_self
      refine ⟨limit x offset fetch, answers_of_builtin hrules rfl ?_⟩
      exact gives_bind.2 ⟨some x, gives_askAmount_of_self rfl hx, gives_known.2 rfl⟩

end Bounds

variable {b : Basis Binary64} {p : Plan} {ignoreNulls : Bool} {key : ColumnSet}

def AtMostOne (b : Basis Binary64) (p : Plan) : Prop :=
  ∃ x, b.Gives p (maxRowCount .self) (.ok (some x)) ∧ x.UpToOne

theorem atMostOne_of_answers {x : Binary64}
    (h : b.Answers p ⟨.maxRowCount, .none⟩ (.ok (some (.number x)))) (hx : le x one = true) :
    b.AtMostOne p :=
  ⟨atLeastZero x, gives_askAmount.2 ⟨p, x, rfl, h, rfl⟩, .atLeastZero hx⟩

theorem AtMostOne.passedOn {child : Plan} (hs : b.node? p (.input 0) = some child)
    (hrule : b.rules.lookup p.kind .maxRowCount = some RowBound.maxPassedOn)
    (h : b.AtMostOne child) : b.AtMostOne p := by
  obtain ⟨x, hx, hone⟩ := h
  have hsome : p.children ≠ [] := by
    intro hnone
    simp [node?, hnone] at hs
  exact atMostOne_of_answers (answers_of_lookup hrule
    (gives_fromInput_ok hsome (gives_askAmount_of_self hs hx))) hone.le_one

theorem AtMostOne.join {id : Nat} {left right : Plan} {condition : Expr} {type : JoinType}
    (hrules : b.rules = .builtin) (hright : right.Valid) (hl : b.AtMostOne left)
    (hr : type.keepsRight = true → b.AtMostOne right) :
    b.AtMostOne (.join id left right condition type) := by
  obtain ⟨l, hl, hlone⟩ := hl
  obtain ⟨r, hr, hrone⟩ : ∃ r, b.Gives right (maxRowCount .self) (.ok (some r)) ∧
      (type.keepsRight = true → r.UpToOne) := by
    cases htype : type.keepsRight with
    | true =>
      obtain ⟨r, hr, hone⟩ := hr htype
      exact ⟨r, hr, fun _ => hone⟩
    | false =>
      obtain ⟨r, hr⟩ := exists_maxRowCount hrules hright
      exact ⟨r, hr, fun h => by cases h⟩
  refine atMostOne_of_answers (answers_of_builtin hrules rfl ?_) (le_one_joinMax hlone hrone)
  refine gives_bind.2 ⟨some l, gives_askAmount_of_self rfl hl, ?_⟩
  exact gives_bind.2 ⟨some r, gives_askAmount_of_self rfl hr, gives_known.2 rfl⟩

theorem atMostOne_of_limit {id : Nat} {input : Plan} {collation : Collation}
    {offset fetch : Option Nat} (hrules : b.rules = .builtin) {x : Binary64}
    (hx : b.Gives input (maxRowCount .self) (.ok (some x)))
    (hone : le (limit x offset fetch) one = true) :
    b.AtMostOne (.sort id input collation offset fetch) :=
  atMostOne_of_answers (answers_of_builtin hrules rfl
    (gives_bind.2 ⟨some x, gives_askAmount_of_self rfl hx, gives_known.2 rfl⟩)) hone

theorem AtMostOne.gives_ofNoColumns (h : b.AtMostOne p) :
    b.Gives p ColumnUniqueness.ofNoColumns (.ok (some (.flag true))) := by
  obtain ⟨x, hx, hone⟩ := h
  refine gives_bind.2 ⟨some x, hx, ?_⟩
  change b.Gives p (if le x one then ColumnUniqueness.always else .unknown) _
  have hle : le x one = true := hone.le_one
  rw [if_pos hle]
  exact gives_known.2 rfl

theorem shift_eq_empty_iff {width : Nat} :
    UniqueKeys.shift width key = .empty ↔ key = .empty := by
  simp only [ColumnSet.eq_empty_iff, UniqueKeys.shift, ColumnSet.mem_ofList, List.mem_map,
    not_exists, not_and]
  exact ⟨fun h c hc => h _ c hc rfl, fun h c d hd => absurd hd (h d)⟩

section Grounded
variable {id : Nat} {left right : Plan} {condition : Expr} {type : JoinType}

theorem inputs_of_emptyKey (hgrounded : (Plan.join id left right condition type).Grounded
      b.setting.source fun node => b.KeyOf node .self ignoreNulls .empty)
    (h : b.JoinKey (.join id left right condition type) left condition type ignoreNulls key)
    (hempty : key = .empty) :
    b.KeyOf left .self ignoreNulls .empty ∧
      (type.keepsRight = true → b.KeyOf right .self ignoreNulls .empty) := by
  have hself := Plan.self_mem_nodes (.join id left right condition type)
  cases h with
  | kept htype h =>
    subst hempty
    exact ⟨.of_child rfl h, fun hkeeps => by simp [htype] at hkeeps⟩
  | both htype hl hr =>
    obtain ⟨rfl, hshift⟩ := ColumnSet.union_eq_empty_iff.1 hempty
    obtain rfl := shift_eq_empty_iff.1 hshift
    exact ⟨.of_child rfl hl, fun _ => .of_child rfl hr⟩
  | fromLeft htype h =>
    subst hempty
    have hleft : b.KeyOf left .self ignoreNulls .empty := .of_child rfl h
    exact ⟨hleft, fun _ => hgrounded.left id left right condition type hself htype hleft⟩
  | fromRight htype h =>
    obtain rfl := shift_eq_empty_iff.1 hempty
    have hright : b.KeyOf right .self ignoreNulls .empty := .of_child rfl h
    exact ⟨hgrounded.right id left right condition type hself htype hright, fun _ => hright⟩

theorem empty_of_joinKey
    (hleft : ∀ key, b.KeyOf left .self ignoreNulls key → key = .empty)
    (hright : type.keepsRight = true → ∀ key, b.KeyOf right .self ignoreNulls key → key = .empty)
    (h : b.JoinKey (.join id left right condition type) left condition type ignoreNulls key) :
    key = .empty := by
  cases h with
  | kept htype h => exact hleft _ (.of_child rfl h)
  | both htype hl hr =>
    subst htype
    exact ColumnSet.union_eq_empty_iff.2
      ⟨hleft _ (.of_child rfl hl), shift_eq_empty_iff.2 (hright rfl _ (.of_child rfl hr))⟩
  | fromLeft htype h => exact hleft _ (.of_child rfl h)
  | fromRight htype h =>
    have hkeeps : type.keepsRight = true := by rcases htype with rfl | rfl <;> rfl
    exact shift_eq_empty_iff.2 (hright hkeeps _ (.of_child rfl h))

end Grounded

/-- By induction over the plan, along which the empty key is derived from the empty key. -/
theorem atMostOne_of_emptyKey (hrules : b.rules = .builtin) (hvalid : p.Valid)
    (hgrounded : p.Grounded b.setting.source fun node => b.KeyOf node .self ignoreNulls .empty)
    (h : b.KeyOf p .self ignoreNulls key) (hempty : key = .empty) : b.AtMostOne p := by
  induction p using Plan.inputInduction generalizing key with
  | node p ih =>
    have hchild {child : Plan} {key : ColumnSet} (hmem : child ∈ p.children)
        (h : b.KeyOf child .self ignoreNulls key) (hempty : key = .empty) : b.AtMostOne child :=
      ih child hmem (hvalid.child hmem) (hgrounded.child hmem) h hempty
    clear ih
    cases keyed_of_keyOf hrules h with
    | scan hd hkey => exact absurd hempty (hgrounded.declares hd hkey)
    | values hone =>
      exact atMostOne_of_answers (answers_of_builtin hrules rfl (gives_known.2 rfl))
        (le_one_ofNat hone)
    | filter hkey =>
      exact (hchild List.mem_cons_self hkey hempty).passedOn rfl (by rw [hrules]; rfl)
    | project hkey hcopied =>
      have hsource := (ColumnSet.renumber?_eq_empty_iff hcopied).1 hempty
      exact (hchild List.mem_cons_self hkey hsource).passedOn rfl (by rw [hrules]; rfl)
    | @aggregate id input set =>
      have hset : set.columns = [] :=
        List.length_eq_zero_iff.1 (ColumnSet.range_eq_empty_iff.1 hempty)
      have hkeyed : keyedSets [set] = 0 := by simp [keyedSets, ColumnSet.isEmpty, hset]
      have hone : emptySets [set] ≤ 1 := List.length_filter_le _ _
      refine atMostOne_of_answers (answers_of_builtin hrules rfl ?_) (le_one_ofNat hone)
      simp only [RowBound.maxOfAggregate, hkeyed, if_true]
      exact gives_known.2 rfl
    | @join id left right condition type key hkey =>
      obtain ⟨hleft, hright⟩ := inputs_of_emptyKey hgrounded hkey hempty
      have hmem : right ∈ (Plan.join id left right condition type).children :=
        List.mem_cons_of_mem _ List.mem_cons_self
      exact AtMostOne.join hrules (hvalid.child hmem) (hchild List.mem_cons_self hleft rfl)
        fun hkeeps => hchild hmem (hright hkeeps) rfl
    | @setOp id op inputs all =>
      exact absurd (ColumnSet.range_eq_empty_iff.1 hempty)
        (hgrounded.setOp id op inputs all (Plan.self_mem_nodes _))
    | @limit id input collation offset fetch hone =>
      obtain ⟨x, hx⟩ := exists_maxRowCount hrules (hvalid.child List.mem_cons_self)
      cases fetch with
      | none => cases hone
      | some n =>
        exact atMostOne_of_limit hrules hx
          (le_one_limit_of_fetch x offset (of_decide_eq_true hone))
    | @sort id input collation offset fetch key _ hkey =>
      obtain ⟨x, hx, hone⟩ := hchild List.mem_cons_self hkey hempty
      exact atMostOne_of_limit hrules hx (le_one_limit hone offset fetch)
    | exchange hkey =>
      exact (hchild List.mem_cons_self hkey hempty).passedOn rfl (by rw [hrules]; rfl)

theorem empty_of_emptyKey (hrules : b.rules = .builtin)
    (hgrounded : p.Grounded b.setting.source fun node => b.KeyOf node .self ignoreNulls .empty)
    {lone : ColumnSet} (h : b.KeyOf p .self ignoreNulls lone) (hempty : lone = .empty)
    (hkey : b.KeyOf p .self ignoreNulls key) : key = .empty := by
  induction p using Plan.inputInduction generalizing key lone with
  | node p ih =>
    have hchild {child : Plan} {lone : ColumnSet} (hmem : child ∈ p.children)
        (h : b.KeyOf child .self ignoreNulls lone) (hempty : lone = .empty) (key : ColumnSet)
        (hkey : b.KeyOf child .self ignoreNulls key) : key = .empty :=
      ih child hmem (hgrounded.child hmem) h hempty hkey
    clear ih
    have hother := keyed_of_keyOf hrules hkey
    cases keyed_of_keyOf hrules h with
    | scan hd hlone => exact absurd hempty (hgrounded.declares hd hlone)
    | values =>
      cases hother
      rfl
    | filter hlone =>
      cases hother with
      | filter hkey => exact hchild List.mem_cons_self hlone hempty _ hkey
    | project hlone hcopied =>
      have hsource := (ColumnSet.renumber?_eq_empty_iff hcopied).1 hempty
      cases hother with
      | project hkey hcopied' =>
        exact (ColumnSet.renumber?_eq_empty_iff hcopied').2
          (hchild List.mem_cons_self hlone hsource _ hkey)
    | aggregate =>
      cases hother
      exact hempty
    | @join id left right condition type lone hlone =>
      obtain ⟨hleft, hright⟩ := inputs_of_emptyKey hgrounded hlone hempty
      cases hother with
      | join hkey =>
        have hmem : right ∈ (Plan.join id left right condition type).children :=
          List.mem_cons_of_mem _ List.mem_cons_self
        exact empty_of_joinKey (hchild List.mem_cons_self hleft rfl)
          (fun hkeeps => hchild hmem (hright hkeeps) rfl) hkey
    | setOp =>
      cases hother
      exact hempty
    | limit hone =>
      cases hother with
      | limit => rfl
      | sort hmany => exact absurd hone (Bool.eq_false_iff.1 hmany)
    | sort hmany hlone =>
      cases hother with
      | limit => rfl
      | sort _ hkey => exact hchild List.mem_cons_self hlone hempty _ hkey
    | exchange hlone =>
      cases hother with
      | exchange hkey => exact hchild List.mem_cons_self hlone hempty _ hkey

end Basis
end Metadata
end Relational
