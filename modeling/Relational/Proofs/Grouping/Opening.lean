import Mathlib.Data.List.Induction
import Mathlib.Data.List.Nodup
import Mathlib.Data.List.Perm.Subperm
import Relational.Proofs.Execution.Collecting
import Relational.Proofs.Plan.Columns

/-!
# Opened groups

Whatever the codes of keys are, the groups of a grouping set have different codes, and each was
opened by a row that has its key.
-/
namespace Relational.Grouping
variable {plans : List CallPlan} {key : List Value} {rows : List Row} {row : Row} {g g' : Group}
  {groups groups' : List Group} {set : ColumnSet} {s s' : SetState}

def Group.tag (g : Group) : List UInt8 × List Value := (g.code, g.key)

theorem tag_send (h : g.send row = .ok g') : g'.tag = g.tag := by
  simp only [Group.send, bind_eq_ok, pure_eq_ok, Except.ok.injEq] at h
  obtain ⟨accumulators, -, rfl⟩ := h
  rfl

theorem tag_open (h : Group.open plans key = .ok g) : g.tag = (encodeKey key, key) := by
  simp only [Group.open, bind_eq_ok, pure_eq_ok, Except.ok.injEq] at h
  obtain ⟨accumulators, -, rfl⟩ := h
  rfl

theorem collect_tags (h : collect plans key row groups = .ok groups') :
    groups'.map Group.tag = groups.map Group.tag ∨
      (∀ g ∈ groups, g.code ≠ encodeKey key) ∧
        groups'.map Group.tag = groups.map Group.tag ++ [(encodeKey key, key)] := by
  induction groups generalizing groups' with
  | nil =>
    simp only [collect, bind_eq_ok, pure_eq_ok, Except.ok.injEq] at h
    obtain ⟨g, hopen, g', hsend, rfl⟩ := h
    exact .inr ⟨by simp, by simp [tag_send hsend, tag_open hopen]⟩
  | cons g rest ih =>
    unfold collect at h
    split at h
    · simp only [bind_eq_ok, pure_eq_ok, Except.ok.injEq] at h
      obtain ⟨g', hsend, rfl⟩ := h
      exact .inl (by simp [tag_send hsend])
    next hcode =>
      simp only [bind_eq_ok, pure_eq_ok, Except.ok.injEq] at h
      obtain ⟨rest', hrest, rfl⟩ := h
      rcases ih hrest with hsame | ⟨hnew, hadded⟩
      · exact .inl (by simp [hsame])
      · exact .inr ⟨List.forall_mem_cons.2 ⟨hcode, hnew⟩, by simp [hadded]⟩

structure SetState.Opened (rows : List Row) (set : ColumnSet) (s : SetState) : Prop where
  columns : s.columns = set
  codes : ∀ t ∈ s.groups.map Group.tag, t.1 = encodeKey t.2
  distinct : ((s.groups.map Group.tag).map (·.1)).Nodup
  origin : ∀ t ∈ s.groups.map Group.tag, ∃ row ∈ rows, keyOf set row = .ok t.2

theorem SetState.Opened.send (h : s.Opened rows set) (hsend : s.send plans row = .ok s') :
    s'.Opened (rows ++ [row]) set := by
  simp only [SetState.send, bind_eq_ok, pure_eq_ok, Except.ok.injEq] at hsend
  obtain ⟨key, hkey, groups, hcollect, rfl⟩ := hsend
  obtain ⟨rfl, hcodes, hdistinct, horigin⟩ := h
  have hearlier : ∀ t ∈ s.groups.map Group.tag,
      ∃ r ∈ rows ++ [row], keyOf s.columns r = .ok t.2 := by
    intro t ht
    obtain ⟨r, hr, hkeyOf⟩ := horigin t ht
    exact ⟨r, List.mem_append_left _ hr, hkeyOf⟩
  rcases collect_tags hcollect with hsame | ⟨hnew, hadded⟩
  · constructor
    · rfl
    · simpa only [hsame] using hcodes
    · simpa only [hsame] using hdistinct
    · simpa only [hsame] using hearlier
  · constructor
    · rfl
    · simp only [hadded, List.forall_mem_append, List.forall_mem_singleton]
      exact ⟨hcodes, trivial⟩
    · simp only [hadded, List.map_append, List.map_singleton]
      refine List.nodup_append.2 ⟨hdistinct, List.pairwise_singleton _ _, ?_⟩
      simp only [List.map_map, List.mem_map, List.mem_singleton]
      rintro _ ⟨g, hg, rfl⟩ _ rfl
      exact hnew g hg
    · simp only [hadded, List.forall_mem_append, List.forall_mem_singleton]
      exact ⟨hearlier, row, by simp, hkey⟩

/-- After all rows every grouping set has the groups that its rows opened. -/
theorem foldlM_sendRow_opened {sets : List ColumnSet} {states : List SetState}
    (h : rows.foldlM (sendRow plans) (start sets) = .ok states) :
    List.Forall₂ (fun set s => SetState.Opened rows set s) sets states := by
  induction rows using List.reverseRecOn generalizing states with
  | nil =>
    cases h
    rw [start, List.forall₂_map_right_iff, List.forall₂_same]
    intro set _
    exact ⟨rfl, by simp, by simp, by simp⟩
  | append_singleton rows row ih =>
    simp only [List.foldlM_append, List.foldlM_cons, List.foldlM_nil, bind_pure, bind_eq_ok] at h
    obtain ⟨before, hbefore, hsend⟩ := h
    refine (forall₂_comp.1 ⟨before, ih hbefore, mapM_eq_ok.1 hsend⟩).imp ?_
    rintro set s ⟨s₀, hopened, hsend⟩
    exact hopened.send hsend

theorem foldlM_sendRow_single {all : ColumnSet} {indicator : Bool} {states : List SetState}
    {parts : List (List Row)} (h : rows.foldlM (sendRow plans) (start [set]) = .ok states)
    (hparts : List.Forall₂ (fun s part => ExecUnit.emitted all plans indicator s = .ok part)
      states parts) :
    ∃ s, s.Opened rows set ∧ ExecUnit.emitted all plans indicator s = .ok parts.flatten := by
  have hopened := foldlM_sendRow_opened h
  rw [List.forall₂_cons_left_iff] at hopened
  obtain ⟨s, states, hs, hnil, rfl⟩ := hopened
  obtain rfl := List.forall₂_nil_left_iff.1 hnil
  rw [List.forall₂_cons_left_iff] at hparts
  obtain ⟨part, parts, hpart, hnil, rfl⟩ := hparts
  obtain rfl := List.forall₂_nil_left_iff.1 hnil
  exact ⟨s, hs, by rw [hpart, List.flatten_singleton]⟩

def KeyOver (set : ColumnSet) (rows : List Row) (k : List Value) : Prop :=
  (∃ row ∈ rows, keyOf set row = .ok k) ∨ set.isEmpty = true ∧ k = []

theorem SetState.Opened.close (h : s.Opened rows set) (hclose : s.close plans = .ok groups) :
    (groups.map (·.key)).Nodup ∧ ∀ g ∈ groups, KeyOver set rows g.key := by
  obtain ⟨rfl, hcodes, hdistinct, horigin⟩ := h
  unfold SetState.close at hclose
  split at hclose
  next hempty =>
    simp only [bind_eq_ok, pure_eq_ok, Except.ok.injEq] at hclose
    obtain ⟨g, hopen, rfl⟩ := hclose
    have hkey : g.key = [] := congrArg Prod.snd (tag_open hopen)
    simp only [List.map_singleton, List.forall_mem_singleton]
    exact ⟨List.pairwise_singleton _ _, .inr ⟨(Bool.and_eq_true_iff.1 hempty).1, hkey⟩⟩
  · cases hclose
    constructor
    · have hcode : (s.groups.map Group.tag).map (·.1) = (s.groups.map (·.key)).map encodeKey := by
        rw [List.map_map, List.map_map]
        exact List.map_congr_left fun g hg => hcodes g.tag (List.mem_map_of_mem hg)
      exact List.Nodup.of_map encodeKey (hcode ▸ hdistinct)
    · exact fun g hg => .inl (horigin g.tag (List.mem_map_of_mem hg))

def keyColumns (all set : ColumnSet) (k : List Value) : Row :=
  all.columns.map fun c => ((set.position? c).bind fun p => k[p]?).getD .null

theorem eq_of_outputRow {all : ColumnSet} {indicator : Bool} {out : Row}
    (h : outputRow all set indicator g = .ok out) : ∃ rest, out = keyColumns all set g.key ++ rest := by
  simp only [outputRow, bind_eq_ok, pure_eq_ok, Except.ok.injEq] at h
  obtain ⟨results, -, rfl⟩ := h
  exact ⟨_, List.append_assoc _ _ _⟩

theorem emitted_keys {all : ColumnSet} {indicator : Bool} {part : List Row}
    (h : s.Opened rows set) (hpart : ExecUnit.emitted all plans indicator s = .ok part) :
    ∃ ks : List (List Value), ks.Nodup ∧ (∀ k ∈ ks, KeyOver set rows k) ∧
      List.Forall₂ (fun k out => ∃ rest, out = keyColumns all set k ++ rest) ks part := by
  simp only [ExecUnit.emitted, bind_eq_ok] at hpart
  obtain ⟨groups, hclose, hpart⟩ := hpart
  obtain ⟨hnodup, hover⟩ := h.close hclose
  refine ⟨groups.map (·.key), hnodup, by simpa using hover, ?_⟩
  rw [List.forall₂_map_left_iff, ← h.columns]
  exact (mapM_eq_ok.1 hpart).imp fun g out hout => eq_of_outputRow hout

theorem keyOf_eq_ok_iff :
    keyOf set row = .ok key ↔
      List.Forall₂ (fun c v => row[c]? = some v) set.columns key := by
  rw [keyOf, mapM_eq_ok]
  refine forall₂_congr fun c _ v => ?_
  cases row[c]? <;> simp

theorem eq_of_keyOf {k : List Value} (h : keyOf set row = .ok k) :
    List.Forall₂ (fun c v => row[c]? = some v) set.columns k :=
  keyOf_eq_ok_iff.1 h

theorem length_emitted_le {all : ColumnSet} {indicator : Bool} {part : List Row}
    (h : s.Opened rows set) (hpart : ExecUnit.emitted all plans indicator s = .ok part) :
    part.length ≤ if set.isEmpty then 1 else rows.length := by
  obtain ⟨ks, hnodup, hover, houtput⟩ := emitted_keys h hpart
  rw [← houtput.length_eq]
  split
  next hempty =>
    have hcolumns : set.columns = [] := List.isEmpty_iff.1 hempty
    have hnil : ∀ k ∈ ks, k ∈ [[]] := by
      intro k hk
      rcases hover k hk with ⟨row, -, hkey⟩ | ⟨-, rfl⟩
      · have hvalues := eq_of_keyOf hkey
        rw [hcolumns, List.forall₂_nil_left_iff] at hvalues
        rw [hvalues, List.mem_singleton]
      · exact List.mem_singleton_self _
    exact (hnodup.subperm hnil).length_le
  next hnonempty =>
    have hkeys : ∀ k ∈ ks, k ∈ rows.filterMap fun row => (keyOf set row).toOption := by
      intro k hk
      rcases hover k hk with ⟨row, hrow, hkey⟩ | ⟨hempty, -⟩
      · exact List.mem_filterMap.2 ⟨row, hrow, by rw [hkey]; rfl⟩
      · exact absurd hempty hnonempty
    exact Nat.le_trans (hnodup.subperm hkeys).length_le (List.length_filterMap_le _ _)

theorem collect_ne_nil (h : collect plans key row groups = .ok groups') : groups' ≠ [] := by
  cases groups with
  | nil =>
    simp only [collect, bind_eq_ok, pure_eq_ok, Except.ok.injEq] at h
    obtain ⟨_, -, _, -, rfl⟩ := h
    exact List.cons_ne_nil _ _
  | cons g rest =>
    unfold collect at h
    split at h <;> simp only [bind_eq_ok, pure_eq_ok, Except.ok.injEq] at h <;>
      obtain ⟨_, -, rfl⟩ := h <;> exact List.cons_ne_nil _ _

theorem groups_ne_nil {sets : List ColumnSet} {states : List SetState} (hrows : rows ≠ [])
    (h : rows.foldlM (sendRow plans) (start sets) = .ok states) : ∀ s ∈ states, s.groups ≠ [] := by
  rw [← List.dropLast_append_getLast hrows] at h
  simp only [List.foldlM_append, List.foldlM_cons, List.foldlM_nil, bind_pure, bind_eq_ok] at h
  obtain ⟨before, -, hsend⟩ := h
  intro s hs
  obtain ⟨s₀, -, hs₀⟩ := forall₂_exists_mem (mapM_eq_ok.1 hsend) hs
  simp only [SetState.send, bind_eq_ok, pure_eq_ok, Except.ok.injEq] at hs₀
  obtain ⟨key, -, groups, hcollect, rfl⟩ := hs₀
  exact collect_ne_nil hcollect

theorem length_emitted_pos {all : ColumnSet} {indicator : Bool} {part : List Row}
    (h : s.groups ≠ [] ∨ s.columns.isEmpty = true)
    (hpart : ExecUnit.emitted all plans indicator s = .ok part) : 1 ≤ part.length := by
  simp only [ExecUnit.emitted, bind_eq_ok] at hpart
  obtain ⟨groups, hclose, hpart⟩ := hpart
  rw [← (mapM_eq_ok.1 hpart).length_eq, Nat.one_le_iff_ne_zero, Ne, List.length_eq_zero_iff]
  unfold SetState.close at hclose
  split at hclose
  · simp only [bind_eq_ok, pure_eq_ok, Except.ok.injEq] at hclose
    obtain ⟨_, -, rfl⟩ := hclose
    exact List.cons_ne_nil _ _
  next hsome =>
    cases hclose
    rcases h with h | h
    · exact h
    · simpa [h] using hsome

theorem KeyOver.length_eq {k : List Value} (h : KeyOver set rows k) :
    k.length = set.columns.length := by
  rcases h with ⟨row, -, hkey⟩ | ⟨hempty, rfl⟩
  · exact (eq_of_keyOf hkey).length_eq.symm
  · rw [List.isEmpty_iff.1 hempty]
    rfl

theorem keyColumns_self {k : List Value} (h : k.length = set.columns.length) :
    keyColumns set set k = k := by
  refine List.ext_getElem (by simp [keyColumns, h]) fun i hi hk => ?_
  have hposition := ColumnSet.position?_getElem (s := set) (i := i) (h ▸ hk)
  simp [keyColumns, hposition, hk]

theorem emitted_single {indicator : Bool} {part : List Row} (h : s.Opened rows set)
    (hpart : ExecUnit.emitted (Plan.groupColumns [set]) plans indicator s = .ok part) :
    ∃ ks : List (List Value), ks.Nodup ∧ (∀ k ∈ ks, KeyOver set rows k) ∧
      List.Forall₂ (fun k out => k.length = set.columns.length ∧ ∃ rest, out = k ++ rest)
        ks part := by
  rw [Plan.groupColumns_singleton] at hpart
  obtain ⟨ks, hnodup, hover, houtput⟩ := emitted_keys h hpart
  refine ⟨ks, hnodup, hover, ?_⟩
  refine ((List.forall₂_and_left _ _).2 ⟨hover, houtput⟩).imp ?_
  rintro k out ⟨hk, rest, hout⟩
  exact ⟨hk.length_eq, rest, by rw [hout, keyColumns_self hk.length_eq]⟩

end Relational.Grouping
