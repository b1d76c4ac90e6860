import Relational.Proofs.Execution.Joining
import Relational.Proofs.Metadata.Alignment
import Relational.Proofs.Metadata.Equation
import Relational.Proofs.Metadata.JoinRules
import Relational.Proofs.Metadata.Uniqueness

/-!
# Unique columns of joins

What is found unique of a join identifies at most one row of its result, whatever the type of the
join, if what is found unique of its inputs does. An input whose equated columns are unique has at
most one row for each row of the other input, since these columns hold no null where rows match.
-/
namespace Relational

structure ExactRows (schema : Schema) (rows : List Row) : Prop where
  conforms : ∀ row ∈ rows, row.Conforms schema
  exact : ∀ row ∈ rows, ∀ v ∈ row, ¬ v.IsFloat

theorem ExactRows.length_eq {schema : Schema} {rows : List Row} (h : ExactRows schema rows) :
    ∀ row ∈ rows, row.length = schema.length :=
  fun row hrow => (h.conforms row hrow).length_eq

/-- Rows side by side match if the condition is true of them, neither unknown nor in error. -/
def Expr.joining (condition : Expr) {leftShape rightShape : Schema} {leftRows rightRows : List Row}
    (hleft : ExactRows leftShape leftRows) (hright : ExactRows rightShape rightRows) : Joining where
  holds a b :=
    match condition.evaluate (leftShape ++ rightShape) (a ++ b) with
    | .ok v => v = .boolean true
    | .error _ => false
  left := leftRows
  right := rightRows
  leftWidth := leftShape.length
  rightWidth := rightShape.length
  length_left := hleft.length_eq
  length_right := hright.length_eq

namespace Metadata

theorem mem_shift {width c : Nat} {key : ColumnSet} (h : c ∈ key) :
    c + width ∈ UniqueKeys.shift width key :=
  ColumnSet.mem_ofList.2 (List.mem_map_of_mem h)

theorem mem_splitColumns_left {columns : ColumnSet} {width c : Nat} :
    c ∈ (splitColumns columns width).1 ↔ c ∈ columns ∧ c < width := by
  rw [splitColumns, ColumnSet.mem_ofList, List.mem_filter, decide_eq_true_eq]
  rfl

theorem mem_splitColumns_right {columns : ColumnSet} {width c : Nat} :
    c ∈ (splitColumns columns width).2 ↔ c + width ∈ columns := by
  simp only [splitColumns, ColumnSet.mem_ofList, List.mem_map, List.mem_filter, decide_eq_true_eq]
  constructor
  · rintro ⟨d, ⟨hd, hle⟩, rfl⟩
    rwa [Nat.sub_add_cancel hle]
  · exact fun hc => ⟨c + width, ⟨hc, Nat.le_add_left _ _⟩, Nat.add_sub_cancel _ _⟩

section Matches
variable {condition : Expr} {left right : Plan} {leftRows rightRows : List Row}
  {ignoreNulls : Bool} {a b a' b' : Row} {l r : Nat} (hleft : ExactRows left.schema leftRows)
  (hright : ExactRows right.schema rightRows)

theorem holds_iff : (condition.joining hleft hright).holds a b = true ↔
    condition.evaluate (left.schema ++ right.schema) (a ++ b) = .ok (.boolean true) := by
  simp only [Expr.joining]
  split
  next v hv => simp [hv]
  next e he => simp [he]

section Pair
variable (ha : a ∈ leftRows) (hb : b ∈ rightRows)

include hleft ha in
theorem getElem?_left (hpair : (l, r) ∈ equatedColumns condition left.width) :
    (a ++ b)[l]? = a[l]? := by
  obtain ⟨-, -, -, -, -, -, hl, -⟩ := exists_equation hpair
  exact List.getElem?_append_left (hl.trans_eq (hleft.length_eq a ha).symm)

include hleft ha in
theorem getElem?_right : (a ++ b)[r + left.width]? = b[r]? := by
  have hlength : a.length = left.width := hleft.length_eq a ha
  rw [List.getElem?_append_right (by omega), hlength, Nat.add_sub_cancel]

include hleft hright ha hb

theorem conforms_append : Row.Conforms (a ++ b) (left.schema ++ right.schema) :=
  (hleft.conforms a ha).append (hright.conforms b hb)

theorem exact_append : ∀ v ∈ a ++ b, ¬ v.IsFloat :=
  fun v hv => (List.mem_append.1 hv).elim (hleft.exact a ha v) (hright.exact b hb v)

variable (hpair : (l, r) ∈ equatedColumns condition left.width)
  (hholds : (condition.joining hleft hright).holds a b = true)
include hpair hholds

omit hb in
theorem ne_null_of_holds : a[l]? ≠ some .null ∧ b[r]? ≠ some .null := by
  have hnull := equated_ne_null ((holds_iff hleft hright).1 hholds) hpair
  rwa [getElem?_left hleft ha hpair, getElem?_right hleft ha] at hnull

theorem right_eq_of_holds (hb' : b' ∈ rightRows)
    (hholds' : (condition.joining hleft hright).holds a b' = true) : b[r]? = b'[r]? := by
  have hsame := equated_right (conforms_append hleft hright ha hb)
    (conforms_append hleft hright ha hb') (exact_append hleft hright ha hb)
    ((holds_iff hleft hright).1 hholds) ((holds_iff hleft hright).1 hholds') hpair
  simp only [getElem?_left hleft ha hpair, getElem?_right hleft ha] at hsame
  exact hsame trivial

theorem left_eq_of_holds (ha' : a' ∈ leftRows)
    (hholds' : (condition.joining hleft hright).holds a' b = true) : a[l]? = a'[l]? := by
  have hsame := equated_left (conforms_append hleft hright ha hb)
    (conforms_append hleft hright ha' hb) (exact_append hleft hright ha hb)
    ((holds_iff hleft hright).1 hholds) ((holds_iff hleft hright).1 hholds') hpair
  simp only [getElem?_left hleft ha hpair, getElem?_left hleft ha' hpair, getElem?_right hleft ha,
    getElem?_right hleft ha'] at hsame
  exact hsame trivial

end Pair

theorem length_matchesOf (h : NoRepeat (Basis.equatedRight condition left) ignoreNulls rightRows)
    (ha : a ∈ leftRows) : ((condition.joining hleft hright).matchesOf a).length ≤ 1 := by
  refine (h.sublist List.filter_sublist).length_le_one fun b hb b' hb' hapart => ?_
  obtain ⟨hb, hholds⟩ := List.mem_filter.1 hb
  obtain ⟨hb', hholds'⟩ := List.mem_filter.1 hb'
  obtain ⟨-, c, hc, hnull⟩ := hapart fun c hc => by
    obtain ⟨⟨l, r⟩, hpair, rfl⟩ := List.mem_map.1 (ColumnSet.mem_ofList.1 hc)
    exact right_eq_of_holds hleft hright ha hb hpair hholds hb' hholds'
  obtain ⟨⟨l, r⟩, hpair, rfl⟩ := List.mem_map.1 (ColumnSet.mem_ofList.1 hc)
  exact (ne_null_of_holds hleft hright ha hpair hholds).2 hnull

theorem length_matchesTo (h : NoRepeat (Basis.equatedLeft condition left) ignoreNulls leftRows)
    (hb : b ∈ rightRows) : ((condition.joining hleft hright).matchesTo b).length ≤ 1 := by
  refine (h.sublist List.filter_sublist).length_le_one fun a ha a' ha' hapart => ?_
  obtain ⟨ha, hholds⟩ := List.mem_filter.1 ha
  obtain ⟨ha', hholds'⟩ := List.mem_filter.1 ha'
  obtain ⟨-, c, hc, hnull⟩ := hapart fun c hc => by
    obtain ⟨⟨l, r⟩, hpair, rfl⟩ := List.mem_map.1 (ColumnSet.mem_ofList.1 hc)
    exact left_eq_of_holds hleft hright ha hb hpair hholds ha' hholds'
  obtain ⟨⟨l, r⟩, hpair, rfl⟩ := List.mem_map.1 (ColumnSet.mem_ofList.1 hc)
  exact (ne_null_of_holds hleft hright ha hpair hholds).1 hnull

end Matches

namespace Basis
variable {Q : Type} {b : Basis Q} {p left right : Plan} {condition : Expr} {type : JoinType}
  {leftRows rightRows : List Row} {id : Nat} {ignoreNulls : Bool} {key columns : ColumnSet}

structure Separates (b : Basis Q) (p : Plan) (s : Subject) (width : Nat) (rows : List Row) :
    Prop where
  key : ∀ {ignoreNulls key}, b.KeyOf p s ignoreNulls key → NoRepeat key ignoreNulls rows
  columns : ∀ {ignoreNulls columns}, b.UniqueOn p s columns ignoreNulls →
    (∀ c ∈ columns, c < width) → NoRepeat columns ignoreNulls rows

section Joins
variable (hleft : ExactRows left.schema leftRows) (hright : ExactRows right.schema rightRows)

theorem equatedLeft_lt (hvalid : condition.validate (left.schema ++ right.schema) = .ok ()) :
    ∀ c ∈ equatedLeft condition left, c < left.width := by
  intro c hc
  obtain ⟨pair, hpair, rfl⟩ := List.mem_map.1 (ColumnSet.mem_ofList.1 hc)
  exact (equated_lt hvalid hpair).1

theorem equatedRight_lt (hvalid : condition.validate (left.schema ++ right.schema) = .ok ()) :
    ∀ c ∈ equatedRight condition left, c < right.width := by
  intro c hc
  obtain ⟨pair, hpair, rfl⟩ := List.mem_map.1 (ColumnSet.mem_ofList.1 hc)
  have hlt : pair.2 + left.width < (left.schema ++ right.schema).length :=
    (equated_lt hvalid hpair).2
  rw [List.length_append] at hlt
  exact Nat.lt_of_add_lt_add_right (hlt.trans_eq (Nat.add_comm _ _))

variable (condition) in
theorem tellsLeft_split (hfirst : b.Separates p (.input 0) left.width leftRows)
    (h : b.UniqueOn p (.input 0) (splitColumns columns left.width).1 ignoreNulls) :
    (condition.joining hleft hright).TellsLeft columns (splitColumns columns left.width).1
      ignoreNulls where
  unique := hfirst.columns h fun _ hc => (mem_splitColumns_left.1 hc).2
  subset _ hc := (mem_splitColumns_left.1 hc).1

variable (condition) in
theorem tellsRight_split (hsecond : b.Separates p (.input 1) right.width rightRows)
    (hlt : ∀ c ∈ columns, c < left.width + right.width)
    (h : b.UniqueOn p (.input 1) (splitColumns columns left.width).2 ignoreNulls) :
    (condition.joining hleft hright).TellsRight columns (splitColumns columns left.width).2
      ignoreNulls where
  unique := hsecond.columns h fun c hc => by
    have := hlt _ (mem_splitColumns_right.1 hc)
    omega
  subset _ hc := mem_splitColumns_right.1 hc

variable (hvalid : condition.validate (left.schema ++ right.schema) = .ok ())
  (hfirst : b.Separates p (.input 0) left.width leftRows)
  (hsecond : b.Separates p (.input 1) right.width rightRows)
include hvalid hfirst hsecond

theorem noRepeat_of_joinKey (h : b.JoinKey p left condition type ignoreNulls key) :
    NoRepeat key ignoreNulls ((condition.joining hleft hright).rows type) := by
  cases h with
  | kept htype hkey => exact Joining.rows_of_kept htype (hfirst.key hkey)
  | both htype hl hr =>
    subst htype
    exact Joining.pairs_of_both ⟨hfirst.key hl, fun c hc => ColumnSet.mem_union.2 (.inl hc)⟩
      ⟨hsecond.key hr, fun c hc => ColumnSet.mem_union.2 (.inr (mem_shift hc))⟩
  | fromLeft htype hkey hunique =>
    have htells : (condition.joining hleft hright).TellsLeft key key ignoreNulls :=
      ⟨hfirst.key hkey, fun c hc => hc⟩
    have hone := hsecond.columns hunique (equatedRight_lt hvalid)
    have hpairs := Joining.pairs_of_left htells fun a ha => length_matchesOf hleft hright hone ha
    exact Joining.rows_of_left hpairs htells (.inr htype)
  | @fromRight key htype hkey hunique =>
    have htells : (condition.joining hleft hright).TellsRight
        (UniqueKeys.shift left.width key) key ignoreNulls :=
      ⟨hsecond.key hkey, fun c hc => mem_shift hc⟩
    have hone := hfirst.columns hunique (equatedLeft_lt hvalid)
    have hpairs := Joining.pairs_of_right htells fun a ha => length_matchesTo hleft hright hone ha
    have hkeeps : type.keepsRight = true := by rcases htype with rfl | rfl <;> rfl
    exact Joining.rows_of_right hkeeps hpairs htells (.inr htype)

theorem noRepeat_of_joinUnique (hcolumns : columns ≠ .empty)
    (hlt : ∀ c ∈ columns, c < left.width + if type.keepsRight then right.width else 0)
    (h : b.JoinUnique p left condition type columns ignoreNulls) :
    NoRepeat columns ignoreNulls ((condition.joining hleft hright).rows type) := by
  have hsomeLeft (h : b.UniqueOn p (.input 0) (splitColumns columns left.width).1 ignoreNulls) :
      ∃ c ∈ (splitColumns columns left.width).1, c < left.width := by
    obtain ⟨c, hc⟩ := ColumnSet.ne_empty_iff.1 h.1
    exact ⟨c, hc, (mem_splitColumns_left.1 hc).2⟩
  cases h with
  | kept htype hunique =>
    have hkept : ∀ c ∈ columns, c ∈ (splitColumns columns left.width).1 := fun c hc =>
      mem_splitColumns_left.2 ⟨hc, by simpa [htype] using hlt c hc⟩
    obtain ⟨c, hc⟩ := ColumnSet.ne_empty_iff.1 hcolumns
    have hsome := ColumnSet.ne_empty_iff.2 ⟨c, hkept c hc⟩
    have htells := tellsLeft_split condition hleft hright hfirst ⟨hsome, hunique⟩
    exact Joining.rows_of_kept htype (htells.unique.mono htells.subset)
  | both htype hpadded hl hr =>
    rw [if_pos htype] at hlt
    have htells := tellsLeft_split condition hleft hright hfirst hl
    have htellsRight := tellsRight_split condition hleft hright hsecond hlt hr
    have hpairs := Joining.pairs_of_both htells htellsRight
    exact Joining.rows_of_left hpairs htells (hpadded.imp (⟨·, hsomeLeft hl⟩) .inl)
  | fromLeft htype hpadded hunique hequated =>
    have htells := tellsLeft_split condition hleft hright hfirst hunique
    have hone := hsecond.columns hequated (equatedRight_lt hvalid)
    have hpairs := Joining.pairs_of_left htells fun a ha => length_matchesOf hleft hright hone ha
    exact Joining.rows_of_left hpairs htells (hpadded.imp_left (⟨·, hsomeLeft hunique⟩))
  | fromRight htype hpadded hunique hequated =>
    rw [if_pos htype] at hlt
    have htells := tellsRight_split condition hleft hright hsecond hlt hunique
    have hone := hfirst.columns hequated (equatedLeft_lt hvalid)
    have hpairs := Joining.pairs_of_right htells fun a ha => length_matchesTo hleft hright hone ha
    refine Joining.rows_of_right htype hpairs htells (hpadded.imp_left (⟨·, ?_⟩))
    obtain ⟨c, hc⟩ := ColumnSet.ne_empty_iff.1 hunique.1
    have := hlt _ (mem_splitColumns_right.1 hc)
    exact ⟨c, hc, Nat.lt_of_add_lt_add_right (this.trans_eq (Nat.add_comm _ _))⟩

end Joins
end Basis
namespace Query
open Metadata.Basis
variable {Q : Type} {root p node : Plan} {fresh q : Query Q} {rows : List Row}

/-- The rows, of the node, repeat no key that is derived for it and no columns of it that are found
unique. -/
structure TellsApart (q : Query Q) (p : Plan) (rows : List Row) : Prop where
  keys : ∀ ignoreNulls keys q', q.inquire p (uniqueKeys .self ignoreNulls) =
    some (.ok (some keys), q') → ∀ key ∈ keys, NoRepeat key ignoreNulls rows
  columns : ∀ columns ignoreNulls q', columns ≠ .empty → (∀ c ∈ columns, c < p.width) →
    q.inquire p (columnsUnique .self columns ignoreNulls) = some (.ok (some true), q') →
    NoRepeat columns ignoreNulls rows

theorem TellsApart.separates (h : q.TellsApart node rows) (ids : q.root.checkIds = .ok ())
    (hmemo : q.Sound q.memo) (hnode : node ∈ q.root.nodes) {s : Subject}
    (hs : q.node? p s = some node) : q.Separates p s node.width rows where
  key := by
    rintro ignoreNulls key ⟨keys, hgives, hkey⟩
    obtain ⟨other, hother, hanswers⟩ := gives_uniqueKeys.1 hgives
    obtain rfl := Option.some.inj (hs.symm.trans hother)
    have hself : q.Gives node (uniqueKeys .self ignoreNulls) (.ok (some keys)) :=
      gives_uniqueKeys.2 ⟨node, rfl, hanswers⟩
    obtain ⟨q', hinquire⟩ := inquire_of_gives ids hmemo hnode hself
    exact h.keys ignoreNulls keys q' hinquire key hkey
  columns := by
    rintro ignoreNulls columns ⟨hsome, hgives⟩ hlt
    obtain ⟨other, hother, hanswers⟩ := gives_columnsUnique.1 hgives
    obtain rfl := Option.some.inj (hs.symm.trans hother)
    have hself : q.Gives node (columnsUnique .self columns ignoreNulls) (.ok (some true)) :=
      gives_columnsUnique.2 ⟨node, rfl, hanswers⟩
    obtain ⟨q', hinquire⟩ := inquire_of_gives ids hmemo hnode hself
    exact h.columns columns ignoreNulls q' hsome hlt hinquire

variable [Quantity Q]

theorem tellsApart_values {id : Nat} {shape : Schema} {notes : Notes}
    (ids : q.root.checkIds = .ok ()) (hmemo : q.Sound q.memo) (hrules : q.rules = .builtin)
    (hnode : .values id rows shape notes ∈ q.root.nodes) :
    q.TellsApart (.values id rows shape notes) rows where
  keys ignoreNulls keys q' h key hkey := by
    obtain ⟨-, -, hgives⟩ := inquire_sound ids hmemo hnode h
    have hanswers := exists_self.1 (gives_uniqueKeys.1 hgives)
    have hrule := gives_of_builtin hrules hanswers rfl
    simp only [UniqueKeys.ofValues] at hrule
    split at hrule
    next hone => exact .of_length_le_one hone
    · cases gives_unknown.1 hrule
  columns columns ignoreNulls q' _ _ h := by
    obtain ⟨-, -, hgives⟩ := inquire_sound ids hmemo hnode h
    have hanswers := exists_self.1 (gives_columnsUnique.1 hgives)
    have hrule := gives_of_builtin hrules hanswers rfl
    simp only [ColumnUniqueness.ofValues] at hrule
    have hdistinct := (Except.ok.inj (gives_done.1 hrule)).symm
    obtain ⟨flag, hflag, hfact⟩ := Option.map_eq_some_iff.1 hdistinct
    cases hfact
    exact (noRepeat_of_distinctKeys? hflag).1

/-- Whatever was asked before: no two rows of a join agree on a key that is derived for it, nor on
columns of it that are found unique, if that holds of its inputs. Nothing else is asked of the
condition. -/
theorem join_tellsApart {α : Type} {source : TableSource Q} {scanRows : Q} {splits : Nat}
    {caching : Bool} {earlier : List (Plan × Inquiry Q α)} {outcomes : List (Except Error α)}
    {id : Nat} {left right : Plan} {condition : Expr} {type : JoinType}
    {leftRows rightRows rows : List Row}
    (hfresh : ofPlan root .builtin source scanRows splits caching = .ok fresh)
    (hearlier : ∀ r ∈ earlier, r.1 ∈ root.nodes)
    (hserve : fresh.serve earlier = some (outcomes, q))
    (hnode : .join id left right condition type ∈ root.nodes)
    (hcheck : (Plan.join id left right condition type).check = .ok ())
    (hleft : ExactRows left.schema leftRows) (hright : ExactRows right.schema rightRows)
    (hleftApart : q.TellsApart left leftRows) (hrightApart : q.TellsApart right rightRows)
    (hrows : ((condition.joining hleft hright).rows type).Perm rows) :
    q.TellsApart (.join id left right condition type) rows := by
  obtain ⟨hbasis, ids, hmemo⟩ := serve_fresh hfresh hearlier hserve
  have hrules : q.rules = .builtin := by rw [hbasis]
  have hmem : .join id left right condition type ∈ q.root.nodes := by rw [hbasis]; exact hnode
  have hinput {child : Plan}
      (hchild : child ∈ (Plan.join id left right condition type).children) :
      child ∈ q.root.nodes :=
    Plan.mem_nodes_trans hmem (Plan.mem_nodes_of_mem_children hchild)
  obtain ⟨_, hvalid, -⟩ := bind_eq_ok.1 hcheck
  have hfirst : q.Separates (.join id left right condition type) (.input 0) left.width leftRows :=
    hleftApart.separates ids hmemo (hinput List.mem_cons_self) rfl
  have hsecond : q.Separates (.join id left right condition type) (.input 1) right.width
      rightRows :=
    hrightApart.separates ids hmemo (hinput (List.mem_cons_of_mem _ List.mem_cons_self)) rfl
  constructor
  · intro ignoreNulls keys q' h key hkey
    obtain ⟨-, -, hgives⟩ := inquire_sound ids hmemo hmem h
    have hanswers := exists_self.1 (gives_uniqueKeys.1 hgives)
    have hgrounds := joinKey_of_gives rfl (gives_of_builtin hrules hanswers rfl) key hkey
    exact (noRepeat_of_joinKey hleft hright hvalid hfirst hsecond hgrounds).perm hrows
  · intro columns ignoreNulls q' hsome hlt h
    obtain ⟨-, -, hgives⟩ := inquire_sound ids hmemo hmem h
    have hanswers := exists_self.1 (gives_columnsUnique.1 hgives)
    rw [Plan.width_join] at hlt
    have hgrounds := joinUnique_of_gives rfl hsome (gives_of_builtin hrules hanswers rfl)
    exact (noRepeat_of_joinUnique hleft hright hvalid hfirst hsecond hsome hlt hgrounds).perm hrows

/-- Each number of the left input is on the right once at most, so that the pairs repeat none, and
the number without a match is padded once. -/
theorem join_tellsApart_left :
    let shape : Schema := [⟨"n", .int64 false, {}⟩]
    let source : TableSource Binary64 :=
      ⟨fun _ => .error (.planning (.unknownTableId 0)), fun _ => .ok none⟩
    let leftRows : List Row := [[.int64 1], [.int64 2]]
    let rightRows : List Row := [[.int64 1], [.int64 3]]
    let condition : Expr :=
      .call (.compare .eq) [.column 0 (.int64 false), .column 1 (.int64 false)] (.boolean false)
    let left : Plan := .values 1 leftRows shape
    let right : Plan := .values 2 rightRows shape
    let p : Plan := .join 3 left right condition .left
    let rows : List Row := [[.int64 1, .int64 1], [.int64 2, .null]]
    ∃ fresh q', ofPlan p .builtin source Quantity.one 1 true = .ok fresh ∧ p.check = .ok () ∧
      fresh.TellsApart left leftRows ∧ fresh.TellsApart right rightRows ∧
      ∃ (hleft : ExactRows left.schema leftRows) (hright : ExactRows right.schema rightRows),
        ((condition.joining hleft hright).rows .left).Perm rows ∧
        fresh.inquire p (columnsUnique .self (.range 1) false) = some (.ok (some true), q') ∧
        NoRepeat (.range 1) false rows := by
  intro shape source leftRows rightRows condition left right p rows
  obtain ⟨fresh, hfresh⟩ : ∃ fresh : Query Binary64,
      ofPlan p .builtin source Quantity.one 1 true = .ok fresh := ⟨_, rfl⟩
  have hnode : p ∈ p.nodes := Plan.self_mem_nodes p
  have hserve : fresh.serve ([] : List (Plan × Inquiry Binary64 Unit)) = some ([], fresh) := rfl
  have hcheck : p.check = .ok () := rfl
  obtain ⟨hbasis, ids, hmemo⟩ := serve_fresh hfresh (by simp) hserve
  have hroot : fresh.root = p := by rw [hbasis]
  have hrules : fresh.rules = .builtin := by rw [hbasis]
  have hinput : ∀ child ∈ p.children, child ∈ fresh.root.nodes := fun child hchild =>
    hroot ▸ Plan.mem_nodes_of_mem_children hchild
  have hleftApart : fresh.TellsApart left leftRows :=
    tellsApart_values ids hmemo hrules (hinput _ List.mem_cons_self)
  have hrightApart : fresh.TellsApart right rightRows :=
    tellsApart_values ids hmemo hrules (hinput _ (List.mem_cons_of_mem _ List.mem_cons_self))
  have hexact (n m : Int64) : ExactRows shape [[.int64 n], [.int64 m]] := by
    constructor <;> simp [Row.Conforms, shape, Value.IsFloat, Value.Conforms, Value.dataType,
      SqlType.int64]
  have hrows : ((condition.joining (hexact 1 2) (hexact 1 3)).rows .left).Perm rows :=
    .of_eq rfl
  have hgives : fresh.Gives p (columnsUnique .self (.range 1) false) (.ok (some true)) := by
    obtain ⟨-, rfl⟩ := ofPlan_eq_ok hfresh
    refine gives_columnsUnique.2 ⟨p, rfl, answers_some.2 ⟨_, rfl, ?_⟩⟩
    refine gives_bind.2 ⟨true, gives_bind.2 ⟨some true, ?_, gives_pure.2 rfl⟩, ?_⟩
    · exact gives_columnsUnique.2 ⟨left, rfl, answers_some.2 ⟨_, rfl, gives_done.2 rfl⟩⟩
    refine gives_bind.2 ⟨false, gives_pure.2 rfl, ?_⟩
    refine gives_bind.2 ⟨true, gives_bind.2 ⟨some true, ?_, gives_pure.2 rfl⟩, gives_known.2 rfl⟩
    exact gives_columnsUnique.2 ⟨right, rfl, answers_some.2 ⟨_, rfl, gives_done.2 rfl⟩⟩
  obtain ⟨q', hinquire⟩ := inquire_fresh hfresh hnode hgives
  have hapart := join_tellsApart hfresh (by simp) hserve hnode hcheck (hexact 1 2) (hexact 1 3)
    hleftApart hrightApart hrows
  exact ⟨fresh, q', hfresh, hcheck, hleftApart, hrightApart, hexact 1 2, hexact 1 3, hrows,
    hinquire, hapart.columns _ _ q' (by decide) (by decide) hinquire⟩

end Query
end Metadata
end Relational
