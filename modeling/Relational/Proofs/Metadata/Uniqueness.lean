import Relational.Proofs.Metadata.Caching
import Relational.Proofs.Metadata.UniqueKeys

/-!
# Unique columns of executed plans

No two rows of a node agree on columns that the built-in rules find unique, nor on a key that they
derive. Only the answer for no columns at all is read off a bound, which is a double.
-/
namespace Relational

namespace Row
variable {columns : ColumnSet} {a b : Row} {key : List Value}

theorem Agree.project?_eq (h : a.Agree columns b)
    (hkey : Metadata.Distinct.project? columns a = some key) :
    Metadata.Distinct.project? columns b = some key := by
  refine mapM_eq_some.2 ((forall₂_congr fun c hc v => ?_).1 (mapM_eq_some.1 hkey))
  rw [h c hc]

theorem hasNull_of_project? (hkey : Metadata.Distinct.project? columns a = some key)
    (hnull : key.any (·.isNull) = true) : a.HasNull columns := by
  obtain ⟨v, hv, hvnull⟩ := List.any_eq_true.1 hnull
  obtain ⟨c, hc, hvalue⟩ := forall₂_exists_mem (mapM_eq_some.1 hkey) hv
  cases v with
  | null => exact ⟨c, hc, hvalue⟩
  | _ => cases hvnull

end Row

theorem copies_of_copiedColumns {columns : List Projection} {i c : Nat}
    (h : (Metadata.copiedColumns columns)[c]?.bind id = some i) {row out : Row}
    (hcopied : Plan.Copies columns row out) : out[c]? = row[i]? := by
  obtain ⟨found, hfound, hi⟩ := Option.bind_eq_some_iff.1 h
  rw [Metadata.copiedColumns, List.getElem?_map] at hfound
  obtain ⟨projected, hprojected, rfl⟩ := Option.map_eq_some_iff.1 hfound
  exact hcopied c projected i hprojected hi

namespace Metadata

theorem noRepeat_of_distinctKeys? {columns : ColumnSet} {ignoreNulls : Bool}
    {seen : List (List Value)} {rows : List Row}
    (h : ColumnUniqueness.distinctKeys? columns ignoreNulls seen rows = some true) :
    NoRepeat columns ignoreNulls rows ∧
      ∀ row ∈ rows, ∀ key ∈ seen, Distinct.project? columns row = some key →
        ignoreNulls = true ∧ row.HasNull columns := by
  induction rows generalizing seen with
  | nil => exact ⟨.nil, by simp⟩
  | cons row rest ih =>
    unfold ColumnUniqueness.distinctKeys? at h
    split at h
    · cases h
    next key hkey =>
      split at h
      next hskipped =>
        obtain ⟨hignore, hnull⟩ := Bool.and_eq_true_iff.1 hskipped
        have hrow := Row.hasNull_of_project? hkey hnull
        obtain ⟨hrest, hseen⟩ := ih h
        exact ⟨.cons (fun _ _ _ => ⟨hignore, hrow⟩) hrest,
          List.forall_mem_cons.2 ⟨fun _ _ _ => ⟨hignore, hrow⟩, hseen⟩⟩
      · split at h
        · cases h
        next hnew =>
          obtain ⟨hrest, hseen⟩ := ih h
          refine ⟨.cons (fun other hother hagree => ?_) hrest, ?_⟩
          · obtain ⟨hignore, hnull⟩ :=
              hseen other hother key List.mem_cons_self (hagree.project?_eq hkey)
            exact ⟨hignore, hnull.of_agree hagree⟩
          · refine List.forall_mem_cons.2 ⟨fun old hold hsame => ?_,
              fun other hother old hold => ?_⟩
            · obtain rfl := Option.some.inj (hkey.symm.trans hsame)
              exact absurd (List.contains_iff_mem.2 hold) hnew
            · exact hseen other hother old (List.mem_cons_of_mem _ hold)

namespace Basis
open Counting
variable {Q : Type} [Quantity Q] {b : Basis Q} {p : Plan} {registry : UserAggregate.Registry}
  {contents : Contents} {rows source : List Row} {columns : ColumnSet} {ignoreNulls : Bool}

theorem byKeys_columns (hkeys : b.KeysHold registry contents p)
    (hempty : columns.isEmpty = true →
      b.Gives p ColumnUniqueness.ofNoColumns (.ok (some (.flag true))) →
      NoRepeat columns ignoreNulls rows)
    (h : b.Gives p (ColumnUniqueness.byKeys b.setting p (.columns columns ignoreNulls))
      (.ok (some (.flag true))))
    (hrows : p.collect registry contents = .ok rows) : NoRepeat columns ignoreNulls rows := by
  simp only [ColumnUniqueness.byKeys] at h
  split at h
  next hnone => exact hempty hnone h
  · obtain ⟨found, hfound, h⟩ := gives_bind.1 h
    split at h
    next hany =>
      cases found with
      | none => cases hany
      | some keys =>
        obtain ⟨key, hkey, hsubset⟩ := List.any_eq_true.1 hany
        exact (hkeys.asked rfl hfound hrows key hkey).mono (ColumnSet.subset_iff.1 hsubset)
    · cases gives_unknown.1 h

variable [Counting Q]

def ColumnsHold (b : Basis Q) (registry : UserAggregate.Registry) (contents : Contents)
    (p : Plan) : Prop :=
  ∀ columns ignoreNulls rows, (columns = .empty → p.Counted Q registry contents) →
    b.Answers p ⟨.columnUniqueness, .columns columns ignoreNulls⟩ (.ok (some (.flag true))) →
    p.collect registry contents = .ok rows → NoRepeat columns ignoreNulls rows

theorem ColumnsHold.asked {s : Subject} {node : Plan} (hs : b.node? p s = some node)
    (hnode : b.ColumnsHold registry contents node)
    (hcounted : columns = .empty → node.Counted Q registry contents)
    (h : b.Gives p (columnsUnique s columns ignoreNulls) (.ok (some true)))
    (hrows : node.collect registry contents = .ok rows) : NoRepeat columns ignoreNulls rows := by
  obtain ⟨other, hother, hanswers⟩ := gives_columnsUnique.1 h
  obtain rfl := Option.some.inj (hs.symm.trans hother)
  exact hnode columns ignoreNulls rows hcounted hanswers hrows

theorem length_le_of_ofNoColumns {flag : Bool} (hbounded : b.Bounded registry contents p)
    (h : b.Gives p ColumnUniqueness.ofNoColumns (.ok (some (.flag flag))))
    (hrows : p.collect registry contents = .ok rows) : rows.length ≤ 1 := by
  obtain ⟨found, hfound, h⟩ := gives_bind.1 h
  cases found with
  | none => cases gives_unknown.1 h
  | some x =>
    simp only at h
    split at h
    next hone => exact le_one_of_covers (covers_maxRowCount rfl hbounded hfound hrows) hone
    · cases gives_unknown.1 h

theorem passedOn_columns {input : Plan}
    (hs : b.node? p (.input 0) = some input) (hinput : b.ColumnsHold registry contents input)
    (hcounted : columns = .empty → input.Counted Q registry contents)
    (hlimit : UniqueKeys.atMostOne p = false)
    (h : b.Gives p (ColumnUniqueness.passedOn b.setting p (.columns columns ignoreNulls))
      (.ok (some (.flag true))))
    (hsource : input.collect registry contents = .ok source) :
    NoRepeat columns ignoreNulls source := by
  simp only [ColumnUniqueness.passedOn, hlimit, Bool.false_eq_true, if_false] at h
  obtain ⟨flag, hflag, hfact⟩ := gives_fromInput h
  cases hfact
  exact hinput.asked hs hcounted hflag hsource

theorem project_columns {id : Nat} {input : Plan} {projected : List Projection}
    (hempty : columns.isEmpty = true →
      b.Gives (.project id input projected) ColumnUniqueness.ofNoColumns (.ok (some (.flag true))) →
      NoRepeat columns ignoreNulls rows)
    (hinput : b.ColumnsHold registry contents input)
    (h : b.Gives (.project id input projected) (ColumnUniqueness.ofProject b.setting
      (.project id input projected) (.columns columns ignoreNulls)) (.ok (some (.flag true))))
    (hsource : input.collect registry contents = .ok source)
    (hcopied : List.Forall₂ (Plan.Copies projected) source rows) :
    NoRepeat columns ignoreNulls rows := by
  simp only [ColumnUniqueness.ofProject] at h
  split at h
  next hnone => exact hempty hnone h
  split at h
  · cases gives_unknown.1 h
  next hcopies =>
    obtain ⟨found, hfound, h⟩ := gives_bind.1 h
    have hunique : found = some true := by
      split at h
      · rfl
      · split at h
        · cases gives_known.1 h
        · cases gives_unknown.1 h
      · cases gives_unknown.1 h
    subst hunique
    refine (hinput.asked rfl ?_ hfound hsource).transport hcopied fun m hm => ?_
    · exact fun hnone => absurd (ColumnSet.isEmpty_iff.2 hnone) hcopies
    · obtain ⟨c, hc, hcopy⟩ := List.mem_filterMap.1 (ColumnSet.mem_ofList.1 hm)
      exact ⟨c, hc, fun row out => copies_of_copiedColumns hcopy⟩

theorem aggregate_columns {id : Nat} {input : Plan} {sets : List ColumnSet}
    {calls : List AggregateCall} {indicator : Bool} {plans : List CallPlan}
    {states : List Grouping.SetState} {parts : List (List Row)}
    (hempty : columns.isEmpty = true → b.Gives (.aggregate id input sets calls indicator)
      ColumnUniqueness.ofNoColumns (.ok (some (.flag true))) →
      NoRepeat columns ignoreNulls parts.flatten)
    (hinput : b.ColumnsHold registry contents input)
    (h : b.Gives (.aggregate id input sets calls indicator) (ColumnUniqueness.ofAggregate b.setting
      (.aggregate id input sets calls indicator) (.columns columns ignoreNulls))
      (.ok (some (.flag true))))
    (hsource : input.collect registry contents = .ok source)
    (hstates : source.foldlM (Grouping.sendRow plans) (Grouping.start sets) = .ok states)
    (hparts : List.Forall₂ (fun s part =>
      ExecUnit.emitted (Plan.groupColumns sets) plans indicator s = .ok part) states parts) :
    NoRepeat columns ignoreNulls parts.flatten := by
  simp only [ColumnUniqueness.ofAggregate] at h
  split at h
  next hnone => exact hempty hnone h
  next hsome =>
  split at h
  · cases gives_unknown.1 h
  next hsingle =>
  obtain ⟨set, rfl⟩ := List.length_eq_one_iff.1 (not_not.1 hsingle)
  obtain ⟨s, hs, hpart⟩ := Grouping.foldlM_sendRow_single hstates hparts
  rw [Plan.groupColumns_singleton] at h
  split at h
  next hsubset =>
    have hrow := (Grouping.noRepeat_emitted hs hpart).ignoring ignoreNulls
    exact hrow.mono (ColumnSet.subset_iff.1 hsubset)
  split at h
  · cases gives_unknown.1 h
  next grouped hgrouped =>
  obtain ⟨found, hfound, h⟩ := gives_bind.1 h
  split at h
  next hunique =>
    subst hunique
    obtain ⟨hto, hfrom⟩ := ColumnSet.renumber?_eq_some hgrouped
    obtain ⟨c, hc⟩ := ColumnSet.isEmpty_eq_false_iff.1 (Bool.eq_false_iff.2 hsome)
    obtain ⟨d, hd, hcolumn⟩ := hto c hc
    have hgroups : grouped ≠ .empty := by
      rintro rfl
      exact List.not_mem_nil hd
    have hset : set.isEmpty = false :=
      ColumnSet.isEmpty_eq_false_iff.2 ⟨d, List.mem_of_getElem? hcolumn⟩
    have hrows := hinput.asked rfl (fun hnone => absurd hnone hgroups) hfound hsource
    exact Grouping.noRepeat_grouped hs hpart hrows hto hfrom hset
  · cases gives_unknown.1 h

theorem columnsHold (hrules : b.rules = .builtin)
    (hrespected : p.Respected b.setting.source contents) :
    b.ColumnsHold registry contents p := by
  induction p using Plan.inputInduction with
  | node p ih =>
    have hchild : ∀ child ∈ p.children, b.ColumnsHold registry contents child :=
      fun child hmem => ih child hmem (hrespected.below (Plan.mem_nodes_of_mem_children hmem))
    clear ih
    intro columns ignoreNulls rows hcounted h hrows
    have hinner : ∀ child ∈ p.children, columns = .empty → child.Counted Q registry contents :=
      fun child hmem hnone => (hcounted hnone).below (Plan.mem_nodes_of_mem_children hmem)
    have hempty : columns.isEmpty = true →
        b.Gives p ColumnUniqueness.ofNoColumns (.ok (some (.flag true))) →
        NoRepeat columns ignoreNulls rows := by
      intro hnone hgives
      have hbounded := bounded hrules (hcounted (ColumnSet.isEmpty_iff.1 hnone))
      exact .of_length_le_one (length_le_of_ofNoColumns hbounded hgives hrows)
    cases Plan.executed_of_collect hrows with
    | @scan id table shape notes =>
      have hgives := gives_of_builtin hrules h rfl
      simp only [ColumnUniqueness.ofScan] at hgives
      split at hgives
      next hnone => exact hempty hnone hgives
      · split at hgives
        next d hd =>
          have hany : some (Fact.flag true) = some (.flag (d.uniqueKeys.any (·.subset columns))) :=
            gives_known.1 hgives
          simp only [Option.some.injEq, Fact.flag.injEq] at hany
          obtain ⟨key, hkey, hsubset⟩ := List.any_eq_true.1 hany.symm
          have hrow := hrespected.scan hd key hkey
          exact (hrow.mono (ColumnSet.subset_iff.1 hsubset)).ignoring ignoreNulls
        · cases gives_unknown.1 hgives
    | values =>
      have hgives := gives_of_builtin hrules h rfl
      simp only [ColumnUniqueness.ofValues] at hgives
      have hdistinct := (Except.ok.inj (gives_done.1 hgives)).symm
      obtain ⟨flag, hflag, hfact⟩ := Option.map_eq_some_iff.1 hdistinct
      cases hfact
      exact (noRepeat_of_distinctKeys? hflag).1
    | filter hinput hsublist =>
      exact (passedOn_columns rfl (hchild _ List.mem_cons_self) (hinner _ List.mem_cons_self) rfl
        (gives_of_builtin hrules h rfl) hinput).sublist hsublist
    | project hinput hcopied =>
      exact project_columns hempty (hchild _ List.mem_cons_self) (gives_of_builtin hrules h rfl)
        hinput hcopied
    | aggregate hinput hstates hparts =>
      exact aggregate_columns hempty (hchild _ List.mem_cons_self) (gives_of_builtin hrules h rfl)
        hinput hstates hparts
    | union hinputs =>
      have hgives := gives_of_builtin hrules h rfl
      exact byKeys_columns (keysHold hrules hrespected) hempty hgives hrows
    | @sort id input collation offset fetch source hinput =>
      have hgives := gives_of_builtin hrules h rfl
      cases hlimit : UniqueKeys.atMostOne (.sort id input collation offset fetch) with
      | true => exact .of_length_le_one (length_le_of_atMostOne hlimit)
      | false =>
        exact (passedOn_columns rfl (hchild _ List.mem_cons_self) (hinner _ List.mem_cons_self)
          hlimit hgives hinput).window_sort collation offset fetch
    | exchange hinput =>
      exact passedOn_columns rfl (hchild _ List.mem_cons_self) (hinner _ List.mem_cons_self) rfl
        (gives_of_builtin hrules h rfl) hinput

end Basis

namespace Query
variable {root node : Plan} {fresh q : Query Binary64} {registry : UserAggregate.Registry}
  {contents : Contents} {rows : List Row}

open Metadata.Basis RowBound

/-- Whatever was asked before, no two executed rows agree on columns that are found unique, nor on
a key that is derived. -/
theorem uniqueness_sound {α : Type} {source : TableSource Binary64} {scanRows : Binary64}
    {splits : Nat} {caching : Bool} {earlier : List (Plan × Inquiry Binary64 α)}
    {outcomes : List (Except Error α)}
    (hfresh : ofPlan root .builtin source scanRows splits caching = .ok fresh)
    (hearlier : ∀ r ∈ earlier, r.1 ∈ root.nodes)
    (hserve : fresh.serve earlier = some (outcomes, q)) (hnode : node ∈ root.nodes)
    (hrespected : node.Respected source contents)
    (hrows : node.collect registry contents = .ok rows) :
    (∀ columns ignoreNulls q', (columns = .empty → node.Counted Binary64 registry contents) →
      q.inquire node (columnsUnique .self columns ignoreNulls) = some (.ok (some true), q') →
      NoRepeat columns ignoreNulls rows) ∧
    ∀ ignoreNulls keys q',
      q.inquire node (uniqueKeys .self ignoreNulls) = some (.ok (some keys), q') →
      ∀ key ∈ keys, NoRepeat key ignoreNulls rows := by
  obtain ⟨ids, rfl⟩ := ofPlan_eq_ok hfresh
  obtain ⟨hbasis, hmemo⟩ := serve_sound ids sound_nil hearlier hserve
  have hgives {β : Type} {x : Inquiry Binary64 β} {found : β} {q' : Query Binary64}
      (h : q.inquire node x = some (.ok found, q')) : q.Gives node x (.ok found) := by
    refine (inquire_sound ?_ ?_ ?_ h).2.2
    · rw [hbasis]; exact ids
    · rw [hbasis]; exact hmemo
    · rw [hbasis]; exact hnode
  have hrules : q.rules = .builtin := by rw [hbasis]
  have hsource : node.Respected q.setting.source contents := by rw [hbasis]; exact hrespected
  constructor
  · intro columns ignoreNulls q' hcounted h
    exact (columnsHold hrules hsource).asked rfl hcounted (hgives h) hrows
  · intro ignoreNulls keys q' h
    exact (keysHold hrules hsource).asked rfl (hgives h) hrows

theorem uniqueness_sound_orders :
    let table : TableRef := ⟨7, "main", "orders"⟩
    let shape : Schema := [⟨"id", .int64 false, {}⟩, ⟨"customer", .int64 false, {}⟩]
    let source : TableSource Binary64 :=
      ⟨fun _ => .ok ⟨table, [1, 2], shape, none, [.ofList [0]], [], none⟩, fun _ => .ok none⟩
    let contents : Contents := fun _ => [[.int64 1, .int64 5], [.int64 2, .int64 5],
      [.int64 3, .int64 6], [.int64 4, .int64 6]]
    let first : Plan := .sort 1 (.scan 0 table shape) [] none (some 3)
    let rest : Plan := .sort 2 first [] (some 2) none
    let p : Plan := .project 3 rest [⟨.column 0 (.int64 false), "id"⟩]
    ∃ fresh q', ofPlan p .builtin source Quantity.one 1 true = .ok fresh ∧
      fresh.inquire p (columnsUnique .self .empty false) = some (.ok (some true), q') ∧
      p.collect {} contents = .ok [[.int64 3]] ∧ NoRepeat .empty false [[.int64 3]] := by
  intro table shape source contents first rest p
  obtain ⟨fresh, hfresh⟩ : ∃ fresh : Query Binary64,
      ofPlan p .builtin source Quantity.one 1 true = .ok fresh := ⟨_, rfl⟩
  have hnode : p ∈ p.nodes := Plan.self_mem_nodes p
  have hrows : p.collect {} contents = .ok [[.int64 3]] := rfl
  have hrespected : p.Respected source contents := by
    intro id scanned shape' notes _ d hd key hkey
    cases hd
    obtain rfl := List.mem_singleton.1 hkey
    decide
  have hcounted : p.Counted Binary64 {} contents := by
    intro id input collation offset fetch hsort hoffset rows hrows
    simp only [p, rest, first, Plan.nodes_eq_cons, Plan.children, List.flatMap_cons,
      List.flatMap_nil, List.append_nil, List.mem_cons, List.not_mem_nil, reduceCtorEq, or_false,
      false_or, Plan.sort.injEq] at hsort
    obtain ⟨-, rfl, -⟩ | ⟨-, -, -, rfl, -⟩ := hsort
    · cases hrows
      exact (by decide : 3 ≤ 2 ^ 53)
    · cases hoffset
  have hskipped : some (Fact.number (Quantity.one : Binary64)) =
      some (.number (limit (Quantity.ofNat 3) (some 2) none)) := by
    have hone : Quantity.one = limit (Quantity.ofNat 3 : Binary64) (some 2) none := by
      decide +kernel
    rw [hone]
  have hgives : fresh.Gives p (columnsUnique .self .empty false) (.ok (some true)) := by
    obtain ⟨-, rfl⟩ := ofPlan_eq_ok hfresh
    refine gives_columnsUnique.2 ⟨p, rfl, answers_some.2 ⟨_, rfl, ?_⟩⟩
    refine gives_bind.2 ⟨some Quantity.one, ?_, gives_known.2 rfl⟩
    refine gives_askAmount.2 ⟨p, Quantity.one, rfl, answers_some.2 ⟨_, rfl, ?_⟩, by rfl⟩
    refine gives_report.2 ⟨Quantity.one, ?_, rfl⟩
    refine gives_askAmount.2 ⟨rest, Quantity.one, rfl, answers_some.2 ⟨_, rfl, ?_⟩, by rfl⟩
    refine gives_bind.2 ⟨some (Quantity.ofNat 3), ?_, gives_known.2 hskipped⟩
    refine gives_askAmount.2 ⟨first, Quantity.ofNat 3, rfl, answers_some.2 ⟨_, rfl, ?_⟩, by rfl⟩
    refine gives_bind.2 ⟨some Quantity.infinity, ?_, gives_known.2 (by rfl)⟩
    refine gives_askAmount.2 ⟨_, Quantity.infinity, rfl, answers_some.2 ⟨_, rfl, ?_⟩, by rfl⟩
    exact gives_known.2 rfl
  obtain ⟨q', hinquire⟩ := inquire_fresh hfresh hnode hgives
  have hserve : fresh.serve ([] : List (Plan × Inquiry Binary64 Unit)) = some ([], fresh) := rfl
  have hsound := uniqueness_sound hfresh (by simp) hserve hnode hrespected hrows
  exact ⟨fresh, _, hfresh, hinquire, hrows, hsound.1 _ _ _ (fun _ => hcounted) hinquire⟩

end Query
end Metadata
end Relational
