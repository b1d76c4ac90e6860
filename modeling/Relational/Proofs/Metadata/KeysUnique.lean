import Relational.Proofs.Metadata.EmptyKeys

/-!
# Keys are found unique

The rules for keys and for the uniqueness of given columns go down a plan side by side. They differ
on the empty key, for which the second ones ask how many rows there can be.
-/
namespace Relational.Metadata

theorem copied_of_copyOf? {columns : List Projection} {i c : Nat}
    (h : copyOf? columns i = some c) : (copiedColumns columns)[c]?.bind id = some i := by
  obtain ⟨hc, hcolumn, -⟩ := List.findIdx?_eq_some_iff_getElem.1 h
  rw [copiedColumns, List.getElem?_map, List.getElem?_eq_getElem hc]
  exact beq_iff_eq.1 hcolumn

theorem copied_of_renumber? {columns : List Projection} {source key : ColumnSet}
    (h : source.renumber? (copyOf? columns) = some key) :
    ColumnSet.ofList (key.columns.filterMap fun c => (copiedColumns columns)[c]?.bind id) =
      source := by
  obtain ⟨hto, hfrom⟩ := ColumnSet.renumber?_eq_some h
  refine ColumnSet.ext_of_mem fun c => ?_
  rw [ColumnSet.mem_ofList, List.mem_filterMap]
  constructor
  · rintro ⟨d, hd, hcopied⟩
    obtain ⟨c', hc', hcopy⟩ := hfrom d hd
    exact Option.some.inj ((copied_of_copyOf? hcopy).symm.trans hcopied) ▸ hc'
  · intro hc
    obtain ⟨d, hd, hcopy⟩ := hto c hc
    exact ⟨d, hd, copied_of_copyOf? hcopy⟩

theorem distinctKeys?_empty {ignoreNulls : Bool} {rows : List Row} (hone : rows.length ≤ 1) :
    ColumnUniqueness.distinctKeys? .empty ignoreNulls [] rows = some true := by
  cases rows with
  | nil => rfl
  | cons row rest =>
    obtain rfl : rest = [] := List.length_eq_zero_iff.1 (by simpa using hone)
    simp [ColumnUniqueness.distinctKeys?, Distinct.project?, ColumnSet.empty]

theorem mem_shift_iff {width c : Nat} {key : ColumnSet} :
    c ∈ UniqueKeys.shift width key ↔ ∃ d ∈ key, d + width = c := by
  rw [UniqueKeys.shift, ColumnSet.mem_ofList, List.mem_map]
  rfl

theorem splitColumns_union {l r : ColumnSet} {width : Nat} (hl : l.Within width) :
    splitColumns (l.union (UniqueKeys.shift width r)) width = (l, r) := by
  refine Prod.ext (ColumnSet.ext_of_mem fun c => ?_) (ColumnSet.ext_of_mem fun c => ?_)
  · rw [mem_splitColumns_left, ColumnSet.mem_union, mem_shift_iff]
    constructor
    · rintro ⟨hc | ⟨d, -, rfl⟩, hlt⟩
      · exact hc
      · omega
    · exact fun hc => ⟨.inl hc, hl c hc⟩
  · rw [mem_splitColumns_right, ColumnSet.mem_union, mem_shift_iff]
    constructor
    · rintro (hc | ⟨d, hd, heq⟩)
      · have := hl _ hc
        omega
      · exact Nat.add_right_cancel heq ▸ hd
    · exact fun hc => .inr ⟨c, hc, rfl⟩

theorem splitColumns_left {key : ColumnSet} {width : Nat} (h : key.Within width) :
    splitColumns key width = (key, .empty) :=
  splitColumns_union (r := .empty) h

theorem splitColumns_shift (key : ColumnSet) (width : Nat) :
    splitColumns (UniqueKeys.shift width key) width = (.empty, key) := by
  have hunion : ColumnSet.empty.union (UniqueKeys.shift width key) = UniqueKeys.shift width key :=
    ColumnSet.ext_of_mem fun c => by
      rw [ColumnSet.mem_union]
      exact or_iff_right List.not_mem_nil
  rw [← hunion]
  exact splitColumns_union (List.forall_mem_nil _)

namespace Basis

section Steps
variable {Q : Type} {b : Basis Q} {p : Plan} {s : Subject} {ignoreNulls : Bool}
  {key columns : ColumnSet}

theorem gives_columnsUnique_of_self {child : Plan} (hs : b.node? p s = some child)
    (h : b.Gives child (columnsUnique .self columns ignoreNulls) (.ok (some true))) :
    b.Gives p (columnsUnique s columns ignoreNulls) (.ok (some true)) :=
  gives_columnsUnique.2 ⟨child, hs, exists_self.1 (gives_columnsUnique.1 h)⟩

theorem gives_uniqueSide (h : b.UniqueOn p s columns ignoreNulls) :
    b.Gives p (ColumnUniqueness.uniqueSide s columns ignoreNulls) (.ok true) := by
  rw [ColumnUniqueness.uniqueSide, if_neg (mt ColumnSet.isEmpty_iff.1 h.1)]
  exact gives_bind.2 ⟨some true, h.2, gives_pure.2 rfl⟩

theorem gives_uniqueOnEquated {equated : List Nat}
    (h : b.UniqueOn p s (.ofList equated) ignoreNulls) :
    b.Gives p (UniqueKeys.uniqueOnEquated s equated ignoreNulls) (.ok true) := by
  have hsome : ¬ equated.isEmpty = true := by
    rw [List.isEmpty_iff]
    rintro rfl
    exact h.1 rfl
  rw [UniqueKeys.uniqueOnEquated, if_neg hsome]
  exact gives_bind.2 ⟨some true, h.2, gives_pure.2 rfl⟩

theorem gives_passedOn_columns {input : Plan} (hs : p.children[0]? = some input)
    (h : b.Gives input (columnsUnique .self key ignoreNulls) (.ok (some true))) :
    b.Gives p (ColumnUniqueness.passedOn b.setting p (.columns key ignoreNulls))
      (.ok (some (.flag true))) := by
  simp only [ColumnUniqueness.passedOn]
  split
  · exact gives_known.2 rfl
  · have hsome : p.children ≠ [] := by
      intro hnone
      simp [hnone] at hs
    exact gives_fromInput_ok hsome (gives_columnsUnique_of_self hs h)

variable [Quantity Q] {id : Nat}

theorem gives_byKeys (h : b.KeyOf p .self ignoreNulls key) (hsome : key ≠ .empty) :
    b.Gives p (ColumnUniqueness.byKeys b.setting p (.columns key ignoreNulls))
      (.ok (some (.flag true))) := by
  obtain ⟨keys, hkeys, hkey⟩ := h
  simp only [ColumnUniqueness.byKeys]
  rw [if_neg (mt ColumnSet.isEmpty_iff.1 hsome)]
  refine gives_bind.2 ⟨some keys, hkeys, ?_⟩
  have hany : keys.any (·.subset key) = true :=
    List.any_eq_true.2 ⟨key, hkey, ColumnSet.subset_iff.2 fun c hc => hc⟩
  rw [Option.getD_some, if_pos hany]
  exact gives_known.2 rfl

theorem gives_ofProject {input : Plan} {projected : List Projection} {source : ColumnSet}
    (hcopied : source.renumber? (copyOf? projected) = some key) (hsome : key ≠ .empty)
    (h : b.Gives input (columnsUnique .self source ignoreNulls) (.ok (some true))) :
    b.Gives (.project id input projected) (ColumnUniqueness.ofProject b.setting
      (.project id input projected) (.columns key ignoreNulls)) (.ok (some (.flag true))) := by
  have hsource : source ≠ .empty := mt (ColumnSet.renumber?_eq_empty_iff hcopied).2 hsome
  simp only [ColumnUniqueness.ofProject, copied_of_renumber? hcopied]
  rw [if_neg (mt ColumnSet.isEmpty_iff.1 hsome), if_neg (mt ColumnSet.isEmpty_iff.1 hsource)]
  exact gives_bind.2 ⟨some true, gives_columnsUnique_of_self rfl h, gives_known.2 rfl⟩

/-- The key of a join tells its rows apart for the reason that it is a key, if not by the empty key
of one input. -/
theorem gives_ofJoin {left right : Plan} {condition : Expr} {type : JoinType}
    (hp : p = .join id left right condition type)
    (hwithin : ∀ key, b.KeyOf p (.input 0) ignoreNulls key → key.Within left.width)
    (hunique : ∀ i key, b.KeyOf p (.input i) ignoreNulls key →
      b.Gives p (columnsUnique (.input i) key ignoreNulls) (.ok (some true)))
    (hlone : type = .inner → ∀ l r, b.KeyOf p (.input 0) ignoreNulls l →
      b.KeyOf p (.input 1) ignoreNulls r → (l = .empty ↔ r = .empty))
    (h : b.JoinKey p left condition type ignoreNulls key) (hsome : key ≠ .empty) :
    b.Gives p (ColumnUniqueness.ofJoin b.setting p (.columns key ignoreNulls))
      (.ok (some (.flag true))) := by
  simp only [ColumnUniqueness.ofJoin, hp]
  rw [← hp, if_neg (mt ColumnSet.isEmpty_iff.1 hsome)]
  cases h with
  | kept htype hkey =>
    rw [splitColumns_left (hwithin _ hkey), htype]
    exact gives_report.2 ⟨true, hunique 0 _ hkey, rfl⟩
  | @both l r htype hl hr =>
    subst htype
    have hnone := hlone rfl l r hl hr
    have hsides : l ≠ .empty ∧ r ≠ .empty := by
      rw [Ne, ColumnSet.union_eq_empty_iff, shift_eq_empty_iff, ← hnone, and_self] at hsome
      exact ⟨hsome, mt hnone.2 hsome⟩
    rw [splitColumns_union (hwithin _ hl)]
    refine gives_bind.2 ⟨true, gives_uniqueSide ⟨hsides.1, hunique 0 _ hl⟩, ?_⟩
    exact gives_bind.2 ⟨true, gives_uniqueSide ⟨hsides.2, hunique 1 _ hr⟩, gives_known.2 rfl⟩
  | fromLeft htype hkey hequated =>
    rw [splitColumns_left (hwithin _ hkey)]
    have hside := gives_uniqueSide ⟨hsome, hunique 0 _ hkey⟩
    rcases htype with rfl | rfl
    all_goals
      refine gives_bind.2 ⟨true, hside, gives_bind.2 ⟨false, gives_pure.2 rfl, ?_⟩⟩
      exact gives_bind.2 ⟨true, gives_uniqueOnEquated hequated, gives_known.2 rfl⟩
  | @fromRight key htype hkey hequated =>
    rw [splitColumns_shift]
    have hside := gives_uniqueSide ⟨mt shift_eq_empty_iff.2 hsome, hunique 1 _ hkey⟩
    rcases htype with rfl | rfl
    all_goals
      refine gives_bind.2 ⟨false, gives_pure.2 rfl, gives_bind.2 ⟨true, hside, ?_⟩⟩
      refine gives_bind.2 ⟨false, gives_pure.2 rfl, ?_⟩
      exact gives_bind.2 ⟨true, gives_uniqueOnEquated hequated, gives_known.2 rfl⟩

end Steps

section Joins
variable {b : Basis Binary64} {id : Nat} {left right : Plan} {condition : Expr} {type : JoinType}
  {ignoreNulls : Bool}

theorem inputs_empty_iff (hrules : b.rules = .builtin)
    (hgrounded : (Plan.join id left right condition .inner).Grounded b.setting.source fun node =>
      b.KeyOf node .self ignoreNulls .empty) {l r : ColumnSet}
    (hleft : b.KeyOf left .self ignoreNulls l) (hright : b.KeyOf right .self ignoreNulls r) :
    l = .empty ↔ r = .empty := by
  have hself := Plan.self_mem_nodes (.join id left right condition .inner)
  constructor
  · rintro rfl
    have hlone := hgrounded.left id left right condition .inner hself (.inl rfl) hleft
    exact empty_of_emptyKey hrules (hgrounded.child (List.mem_cons_of_mem _ List.mem_cons_self))
      hlone rfl hright
  · rintro rfl
    have hlone := hgrounded.right id left right condition .inner hself (.inl rfl) hright
    exact empty_of_emptyKey hrules (hgrounded.child List.mem_cons_self) hlone rfl hleft

end Joins

variable {b : Basis Binary64} {p : Plan} {ignoreNulls : Bool} {key : ColumnSet}

/-- By induction over the plan. The empty key is left to the bound on the rows. -/
theorem columnsUnique_of_keyOf (hrules : b.rules = .builtin) (hvalid : p.Valid)
    (hcatalog : p.Cataloged b.setting.source)
    (hgrounded : p.Grounded b.setting.source fun node => b.KeyOf node .self ignoreNulls .empty)
    (h : b.KeyOf p .self ignoreNulls key) :
    b.Gives p (columnsUnique .self key ignoreNulls) (.ok (some true)) := by
  induction p using Plan.inputInduction generalizing key with
  | node p ih =>
    have hchild {child : Plan} {key : ColumnSet} (hmem : child ∈ p.children)
        (h : b.KeyOf child .self ignoreNulls key) :
        b.Gives child (columnsUnique .self key ignoreNulls) (.ok (some true)) :=
      ih child hmem (hvalid.child hmem) (hcatalog.child hmem) (hgrounded.child hmem) h
    clear ih
    suffices b.Answers p ⟨.columnUniqueness, .columns key ignoreNulls⟩ (.ok (some (.flag true)))
      from gives_columnsUnique.2 (exists_self.2 this)
    have hnone (hempty : key = .empty) :
        b.Gives p ColumnUniqueness.ofNoColumns (.ok (some (.flag true))) :=
      (atMostOne_of_emptyKey hrules hvalid hgrounded h hempty).gives_ofNoColumns
    cases keyed_of_keyOf hrules h with
    | @scan id table shape notes d key hd hkey =>
      have hsome := hgrounded.declares hd hkey
      refine answers_of_builtin hrules rfl ?_
      simp only [ColumnUniqueness.ofScan, hd]
      rw [if_neg (mt ColumnSet.isEmpty_iff.1 hsome)]
      have hany : d.uniqueKeys.any (·.subset key) = true :=
        List.any_eq_true.2 ⟨key, hkey, ColumnSet.subset_iff.2 fun c hc => hc⟩
      rw [hany]
      exact gives_known.2 rfl
    | values hone =>
      refine answers_of_builtin hrules rfl (gives_done.2 ?_)
      rw [distinctKeys?_empty hone]
      rfl
    | filter hkey =>
      exact answers_of_builtin hrules rfl
        (gives_passedOn_columns rfl (hchild List.mem_cons_self hkey))
    | project hkey hcopied =>
      refine answers_of_builtin hrules rfl ?_
      by_cases hempty : key = .empty
      · simp only [ColumnUniqueness.ofProject]
        rw [if_pos (ColumnSet.isEmpty_iff.2 hempty)]
        exact hnone hempty
      · exact gives_ofProject hcopied hempty (hchild List.mem_cons_self hkey)
    | @aggregate id input set calls indicator =>
      refine answers_of_builtin hrules rfl ?_
      simp only [ColumnUniqueness.ofAggregate]
      split
      next hempty => exact hnone (ColumnSet.isEmpty_iff.1 hempty)
      · rw [if_neg (by simp), Plan.groupColumns_singleton,
          if_pos (ColumnSet.subset_iff.2 fun c hc => hc)]
        exact gives_known.2 rfl
    | @join id left right condition type key hkey =>
      refine answers_of_builtin hrules rfl ?_
      by_cases hempty : key = .empty
      · simp only [ColumnUniqueness.ofJoin]
        rw [if_pos (ColumnSet.isEmpty_iff.2 hempty)]
        exact hnone hempty
      refine gives_ofJoin rfl (fun key hkey => ?_) (fun i key hkey => ?_)
        (fun htype l r hl hr => ?_) hkey hempty
      · obtain ⟨keys, hkeys, hmem⟩ := KeyOf.of_child rfl hkey
        exact keys_within hrules (hvalid.child List.mem_cons_self)
          (hcatalog.child List.mem_cons_self) (keyOf_self.1 hkeys) key hmem
      · obtain ⟨child, hs, hkey⟩ := hkey.of_input
        exact gives_columnsUnique_of_self hs (hchild (List.mem_of_getElem? hs) hkey)
      · subst htype
        exact inputs_empty_iff hrules hgrounded (.of_child rfl hl) (.of_child rfl hr)
    | @setOp id op inputs all =>
      have hwidth := hgrounded.setOp id op inputs all (Plan.self_mem_nodes _)
      have hgives := gives_byKeys h (mt ColumnSet.range_eq_empty_iff.1 hwidth)
      cases op <;>
      · refine answers_of_builtin hrules rfl ?_
        simp only [ColumnUniqueness.ofSetOp]
        split
        · exact gives_known.2 rfl
        · exact hgives
    | limit hone =>
      refine answers_of_builtin hrules rfl ?_
      simp only [ColumnUniqueness.passedOn, hone, if_true]
      exact gives_known.2 rfl
    | sort _ hkey =>
      exact answers_of_builtin hrules rfl
        (gives_passedOn_columns rfl (hchild List.mem_cons_self hkey))
    | exchange hkey =>
      exact answers_of_builtin hrules rfl
        (gives_passedOn_columns rfl (hchild List.mem_cons_self hkey))

end Basis

namespace Query
open Metadata.Basis
variable {root node : Plan} {fresh q q' : Query Binary64} {ignoreNulls : Bool}
  {keys : List ColumnSet}

/-- The empty key is known of the node. -/
def Lone (q : Query Binary64) (ignoreNulls : Bool) (p : Plan) : Prop :=
  ∃ keys q', q.inquire p (uniqueKeys .self ignoreNulls) = some (.ok (some keys), q') ∧
    .empty ∈ keys

theorem lone_iff (ids : q.root.checkIds = .ok ()) (hmemo : q.Sound q.memo)
    (hnode : node ∈ q.root.nodes) :
    q.Lone ignoreNulls node ↔ q.KeyOf node .self ignoreNulls .empty := by
  constructor
  · rintro ⟨keys, q', hinquire, hempty⟩
    exact ⟨keys, (inquire_sound ids hmemo hnode hinquire).2.2, hempty⟩
  · rintro ⟨keys, hgives, hempty⟩
    obtain ⟨q', hinquire⟩ := inquire_of_gives ids hmemo hnode hgives
    exact ⟨keys, q', hinquire, hempty⟩

/-- Whatever was asked before, the keys of a node are found unique when asked about as columns, if
the empty key has a reason where it is derived. -/
theorem columnsUnique_of_uniqueKeys {α : Type} {source : TableSource Binary64}
    {scanRows : Binary64} {splits : Nat} {caching : Bool}
    {earlier : List (Plan × Inquiry Binary64 α)} {outcomes : List (Except Error α)}
    (hfresh : ofPlan root .builtin source scanRows splits caching = .ok fresh)
    (hearlier : ∀ r ∈ earlier, r.1 ∈ root.nodes)
    (hserve : fresh.serve earlier = some (outcomes, q)) (hvalid : root.Valid)
    (hcatalog : root.Cataloged source) (hnode : node ∈ root.nodes)
    (hgrounded : node.Grounded source (q.Lone ignoreNulls))
    (h : q.inquire node (uniqueKeys .self ignoreNulls) = some (.ok (some keys), q')) :
    ∀ key ∈ keys,
      ∃ q'', q'.inquire node (columnsUnique .self key ignoreNulls) =
        some (.ok (some true), q'') := by
  intro key hkey
  obtain ⟨hbasis, ids, hmemo⟩ := serve_fresh hfresh hearlier hserve
  have hrules : q.rules = .builtin := by rw [hbasis]
  have hmem : node ∈ q.root.nodes := by rw [hbasis]; exact hnode
  have hcatalog : node.Cataloged q.setting.source := by rw [hbasis]; exact hcatalog.below hnode
  have hgrounded : node.Grounded q.setting.source fun m => q.KeyOf m .self ignoreNulls .empty := by
    have hsource : node.Grounded q.setting.source (q.Lone ignoreNulls) := by
      rw [hbasis]; exact hgrounded
    exact hsource.mono fun m hm => lone_iff ids hmemo (Plan.mem_nodes_trans hmem hm)
  obtain ⟨hbasis', hmemo', hgives⟩ := inquire_sound ids hmemo hmem h
  have hunique := columnsUnique_of_keyOf hrules (hvalid.of_mem_nodes hnode) hcatalog hgrounded
    ⟨keys, hgives, hkey⟩
  exact inquire_of_gives (hbasis' ▸ ids) (hbasis' ▸ hmemo') (hbasis' ▸ hmem) (hbasis' ▸ hunique)

theorem columnsUnique_of_uniqueKeys_pairs :
    let table : TableRef := ⟨7, "main", "orders"⟩
    let shape : Schema := [⟨"id", .int64 false, {}⟩, ⟨"customer", .int64 false, {}⟩]
    let source : TableSource Binary64 :=
      ⟨fun _ => .ok ⟨table, [1, 2], shape, none, [.ofList [0]], [], none⟩, fun _ => .ok none⟩
    let left : Plan := .scan 1 table shape
    let right : Plan := .scan 2 table shape
    let p : Plan := .join 3 left right (.literal (.boolean true) (.boolean false)) .inner
    ∃ fresh q' q'', ofPlan p .builtin source Quantity.one 1 true = .ok fresh ∧ p.Valid ∧
      p.Cataloged source ∧ p.Grounded source (fresh.Lone false) ∧
      fresh.inquire p (uniqueKeys .self false) = some (.ok (some [.ofList [0, 2]]), q') ∧
      q'.inquire p (columnsUnique .self (.ofList [0, 2]) false) =
        some (.ok (some true), q'') := by
  intro table shape source left right p
  obtain ⟨fresh, hfresh⟩ : ∃ fresh : Query Binary64,
      ofPlan p .builtin source Quantity.one 1 true = .ok fresh := ⟨_, rfl⟩
  have hnode : p ∈ p.nodes := Plan.self_mem_nodes p
  have hserve : fresh.serve ([] : List (Plan × Inquiry Binary64 Unit)) = some ([], fresh) := rfl
  have hvalid : p.Valid := by decide +kernel
  have hnodes : ∀ m ∈ p.nodes, m = .join 3 left right (.literal (.boolean true) (.boolean false))
      .inner ∨ m = .scan 1 table shape ∨ m = .scan 2 table shape := by
    intro m hm
    simpa [p, left, right, Plan.nodes_eq_cons, Plan.children] using hm
  have hcatalog : p.Cataloged source := by
    intro id other shape' notes h d hd
    cases hd
    have hshape : shape' = shape := by
      obtain heq | heq | heq := hnodes _ h <;> cases heq <;> rfl
    refine ⟨by rw [hshape], ?_, List.forall_mem_nil _, by simp⟩
    intro key hkey c hc
    obtain rfl := List.mem_singleton.1 hkey
    obtain rfl := List.mem_singleton.1 (ColumnSet.mem_ofList.1 hc)
    decide
  have hside : ∀ side ∈ p.children,
      fresh.Gives side (uniqueKeys .self false) (.ok (some [.ofList [0]])) := by
    obtain ⟨-, rfl⟩ := ofPlan_eq_ok hfresh
    intro side hmem
    refine gives_uniqueKeys.2 ⟨side, rfl, answers_some.2 ?_⟩
    obtain rfl | rfl := List.mem_pair.1 hmem <;> exact ⟨_, rfl, gives_known.2 (by rfl)⟩
  have hlone : ∀ side ∈ p.children, ¬ fresh.Lone false side := by
    rintro side hmem ⟨keys, q', hinquire, hempty⟩
    obtain ⟨hbasis, ids, hmemo⟩ := serve_fresh hfresh (by simp) hserve
    have hnode : side ∈ fresh.root.nodes := by
      rw [hbasis]; exact Plan.mem_nodes_of_mem_children hmem
    have hgives := (inquire_sound ids hmemo hnode hinquire).2.2
    cases hgives.unique (hside side hmem)
    revert hempty
    decide
  have hgrounded : p.Grounded source (fresh.Lone false) := by
    constructor
    · intro id other shape' notes _ d hd
      cases hd
      decide
    · intro id op inputs all h
      obtain heq | heq | heq := hnodes _ h <;> cases heq
    · intro id l r condition type h _ hl
      obtain heq | heq | heq := hnodes _ h <;> cases heq
      exact absurd hl (hlone _ List.mem_cons_self)
    · intro id l r condition type h _ hr
      obtain heq | heq | heq := hnodes _ h <;> cases heq
      exact absurd hr (hlone _ (List.mem_cons_of_mem _ List.mem_cons_self))
  have hkeys : fresh.Gives p (uniqueKeys .self false) (.ok (some [.ofList [0, 2]])) := by
    have hl := hside left List.mem_cons_self
    have hr := hside right (List.mem_cons_of_mem _ List.mem_cons_self)
    obtain ⟨-, rfl⟩ := ofPlan_eq_ok hfresh
    refine gives_uniqueKeys.2 ⟨p, rfl, answers_some.2 ⟨_, rfl, ?_⟩⟩
    refine gives_bind.2 ⟨some [.ofList [0]], ?_, gives_bind.2 ⟨some [.ofList [0]], ?_, ?_⟩⟩
    · exact gives_uniqueKeys.2 ⟨left, rfl, exists_self.1 (gives_uniqueKeys.1 hl)⟩
    · exact gives_uniqueKeys.2 ⟨right, rfl, exists_self.1 (gives_uniqueKeys.1 hr)⟩
    refine gives_bind.2 ⟨_, gives_ofExcept.2 (by rfl), ?_⟩
    refine gives_bind.2 ⟨false, gives_pure.2 rfl, gives_bind.2 ⟨false, gives_pure.2 rfl, ?_⟩⟩
    exact gives_bind.2 ⟨[], gives_ofExcept.2 rfl, gives_known.2 (by rfl)⟩
  obtain ⟨q', hinquire⟩ := inquire_fresh hfresh hnode hkeys
  obtain ⟨q'', hinquire'⟩ := columnsUnique_of_uniqueKeys hfresh (by simp) hserve hvalid hcatalog
    hnode hgrounded hinquire _ List.mem_cons_self
  exact ⟨fresh, q', q'', hfresh, hvalid, hcatalog, hgrounded, hinquire, hinquire'⟩

/-- The literal row stands beside each of the groups, but its empty key tells nothing apart. -/
theorem key_not_unique_beside_row :
    let shape : Schema := [⟨"n", .int64 false, {}⟩]
    let source : TableSource Binary64 :=
      ⟨fun _ => .error (.planning (.unknownTableId 0)), fun _ => .ok none⟩
    let left : Plan := .values 1 [[.int64 1]] shape
    let right : Plan := .aggregate 3 (.values 2 [[.int64 1], [.int64 2]] shape) [.range 1] [] false
    let p : Plan := .join 4 left right (.literal (.boolean true) (.boolean false)) .inner
    ∃ fresh q' q'', ofPlan p .builtin source Quantity.one 1 true = .ok fresh ∧ p.Valid ∧
      fresh.inquire p (uniqueKeys .self false) = some (.ok (some [.ofList [1]]), q') ∧
      q'.inquire p (columnsUnique .self (.ofList [1]) false) = some (.ok none, q'') := by
  intro shape source left right p
  obtain ⟨fresh, hfresh⟩ : ∃ fresh : Query Binary64,
      ofPlan p .builtin source Quantity.one 1 true = .ok fresh := ⟨_, rfl⟩
  have hnode : p ∈ p.nodes := Plan.self_mem_nodes p
  have hserve : fresh.serve ([] : List (Plan × Inquiry Binary64 Unit)) = some ([], fresh) := rfl
  have hkeys : fresh.Gives p (uniqueKeys .self false) (.ok (some [.ofList [1]])) := by
    obtain ⟨-, rfl⟩ := ofPlan_eq_ok hfresh
    refine gives_uniqueKeys.2 ⟨p, rfl, answers_some.2 ⟨_, rfl, ?_⟩⟩
    refine gives_bind.2 ⟨some [.empty], ?_, gives_bind.2 ⟨some [.range 1], ?_, ?_⟩⟩
    · exact gives_uniqueKeys.2 ⟨left, rfl, answers_some.2 ⟨_, rfl, gives_known.2 rfl⟩⟩
    · exact gives_uniqueKeys.2 ⟨right, rfl, answers_some.2 ⟨_, rfl, gives_known.2 rfl⟩⟩
    refine gives_bind.2 ⟨_, gives_ofExcept.2 (by rfl), ?_⟩
    refine gives_bind.2 ⟨false, gives_pure.2 rfl, gives_bind.2 ⟨false, gives_pure.2 rfl, ?_⟩⟩
    exact gives_bind.2 ⟨[], gives_ofExcept.2 rfl, gives_known.2 (by rfl)⟩
  have hcolumns : fresh.Gives p (columnsUnique .self (.ofList [1]) false) (.ok none) := by
    obtain ⟨-, rfl⟩ := ofPlan_eq_ok hfresh
    have hrule : RuleTable.builtin.lookup p.kind .columnUniqueness =
        some (ColumnUniqueness.ofJoin (Q := Binary64)) := rfl
    refine gives_askFor_none rfl (answers_of_lookup hrule ?_)
    refine gives_bind.2 ⟨false, gives_pure.2 rfl, gives_bind.2 ⟨true, ?_, ?_⟩⟩
    · refine gives_bind.2 ⟨some true, ?_, gives_pure.2 rfl⟩
      exact gives_columnsUnique.2 ⟨right, rfl, answers_some.2 ⟨_, rfl, gives_known.2 rfl⟩⟩
    refine gives_bind.2 ⟨false, gives_pure.2 rfl, gives_bind.2 ⟨false, gives_pure.2 rfl, ?_⟩⟩
    exact gives_unknown.2 rfl
  obtain ⟨hroot, ids, hmemo⟩ := serve_fresh hfresh (by simp) hserve
  have hmem : p ∈ fresh.root.nodes := by rw [hroot]; exact hnode
  obtain ⟨q', hinquire⟩ := inquire_of_gives ids hmemo hmem hkeys
  obtain ⟨hbasis, hmemo', -⟩ := inquire_sound ids hmemo hmem hinquire
  obtain ⟨q'', hinquire'⟩ := inquire_of_gives (hbasis ▸ ids) (hbasis ▸ hmemo') (hbasis ▸ hmem)
    (hbasis ▸ hcolumns)
  exact ⟨fresh, q', q'', hfresh, by decide +kernel, hinquire, hinquire'⟩

end Query
end Relational.Metadata
