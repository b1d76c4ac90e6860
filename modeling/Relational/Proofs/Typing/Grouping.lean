import Relational.Aggregation.Grouping
import Relational.Proofs.Plan.Columns
import Relational.Proofs.Typing.Accumulation

/-!
# Typed groups

Every group of a checked aggregate has a key of the types of its columns and an accumulator of the
type of every call. The row that it puts out conforms to the schema of the aggregate.
-/
namespace Relational.Grouping
variable {input : Schema} {calls : List AggregateCall} {plans : List CallPlan} {row : Row}
  {set : ColumnSet} {sets : List ColumnSet} {key : List Value}

def KeyTyped (input : Schema) (columns : List Nat) (key : List Value) : Prop :=
  List.Forall₂ (fun v c => ∃ f, input[c]? = some f ∧ v.Conforms f.type.dataType) key columns

structure Group.Typed (input : Schema) (calls : List AggregateCall) (set : ColumnSet)
    (g : Group) : Prop where
  key : KeyTyped input set.columns g.key
  accumulators : List.Forall₂ (fun c acc => acc.Typed input c.type.dataType) calls g.accumulators

structure SetState.Typed (input : Schema) (calls : List AggregateCall) (sets : List ColumnSet)
    (s : SetState) : Prop where
  mem : s.columns ∈ sets
  groups : ∀ g ∈ s.groups, g.Typed input calls s.columns

def Starts (input : Schema) (calls : List AggregateCall) (plans : List CallPlan) : Prop :=
  List.Forall₂ (fun c plan => ∃ acc, plan.start = .ok acc ∧ acc.Typed input c.type.dataType)
    calls plans

theorem keyOf_typed (hset : ∀ c ∈ set, c < input.length) (hrow : row.Conforms input) :
    ∃ key, keyOf set row = .ok key ∧ KeyTyped input set.columns key := by
  have hcolumns : ∀ c ∈ set.columns, c < input.length := hset
  unfold keyOf
  generalize set.columns = columns at hcolumns
  induction columns with
  | nil => exact ⟨[], rfl, .nil⟩
  | cons c rest ih =>
    obtain ⟨hc, hrest⟩ := List.forall_mem_cons.1 hcolumns
    obtain ⟨v, hv, hconforms⟩ := hrow.getElem (List.getElem?_eq_getElem hc)
    obtain ⟨key, hkey, htyped⟩ := ih hrest
    refine ⟨v :: key, ?_, .cons ⟨_, List.getElem?_eq_getElem hc, hconforms⟩ htyped⟩
    rw [List.mapM_cons, hkey, hv]
    rfl

theorem open_typed (hplans : Starts input calls plans) (hkey : KeyTyped input set.columns key) :
    ∃ g, Group.open plans key = .ok g ∧ g.Typed input calls set := by
  have hstart : ∃ accs, plans.mapM CallPlan.start = .ok accs ∧
      List.Forall₂ (fun c acc => acc.Typed input c.type.dataType) calls accs := by
    induction hplans with
    | nil => exact ⟨[], rfl, .nil⟩
    | cons hplan _ ih =>
      obtain ⟨acc, hacc, htyped⟩ := hplan
      obtain ⟨accs, haccs, hrest⟩ := ih
      exact ⟨acc :: accs, by simp [hacc, haccs], .cons htyped hrest⟩
  obtain ⟨accs, haccs, htyped⟩ := hstart
  exact ⟨⟨encodeKey key, key, accs⟩, by simp [Group.open, haccs], hkey, htyped⟩

theorem Group.Typed.send {g : Group} (h : g.Typed input calls set) (hrow : row.Conforms input) :
    Yields (Group.Typed input calls set) (g.send row) := by
  obtain ⟨hkey, haccs⟩ := h
  suffices Yields (List.Forall₂ (fun c acc => acc.Typed input c.type.dataType) calls ·)
      (g.accumulators.mapM fun a => a.send row) from this.bind fun accs haccs => ⟨hkey, haccs⟩
  generalize g.accumulators = accs at haccs
  induction haccs with
  | nil => exact .nil
  | cons hacc _ ih =>
    rw [List.mapM_cons]
    exact (hacc.send hrow).bind fun acc hacc => ih.bind fun accs haccs => .cons hacc haccs

theorem collect_typed (hplans : Starts input calls plans) (hkey : KeyTyped input set.columns key)
    (hrow : row.Conforms input) {groups : List Group}
    (hgroups : ∀ g ∈ groups, g.Typed input calls set) :
    Yields (∀ g ∈ ·, g.Typed input calls set) (collect plans key row groups) := by
  induction groups with
  | nil =>
    obtain ⟨g, hg, typed⟩ := open_typed hplans hkey
    simp only [collect, hg, ok_bind]
    exact (typed.send hrow).bind fun g hg => by simpa [Yields] using hg
  | cons g rest ih =>
    obtain ⟨hg, hrest⟩ := List.forall_mem_cons.1 hgroups
    unfold collect
    split
    · exact (hg.send hrow).bind fun g hg => List.forall_mem_cons.2 ⟨hg, hrest⟩
    · exact (ih hrest).bind fun rest hrest => List.forall_mem_cons.2 ⟨hg, hrest⟩

theorem sendRow_typed (hplans : Starts input calls plans) (hrow : row.Conforms input)
    (hsets : ∀ set ∈ sets, ∀ c ∈ set, c < input.length) {states : List SetState}
    (hstates : ∀ s ∈ states, s.Typed input calls sets) :
    Yields (∀ s ∈ ·, s.Typed input calls sets) (sendRow plans states row) := by
  have hsend : ∀ s ∈ states,
      Yields (fun s' => s'.Typed input calls sets) (SetState.send plans row s) := by
    intro s hs
    obtain ⟨hmem, hgroups⟩ := hstates s hs
    obtain ⟨key, hkey, htyped⟩ := keyOf_typed (hsets _ hmem) hrow
    simp only [SetState.send, hkey, ok_bind]
    exact (collect_typed hplans htyped hrow hgroups).bind fun groups hgroups => ⟨hmem, hgroups⟩
  refine (Yields.mapM hsend).mono fun states' h => ?_
  clear hsend hstates
  induction h with
  | nil => simp
  | cons hs _ ih => exact List.forall_mem_cons.2 ⟨hs, ih⟩

theorem start_typed (sets : List ColumnSet) :
    ∀ s ∈ start sets, s.Typed input calls sets := by
  intro s hs
  obtain ⟨set, hset, rfl⟩ := List.mem_map.1 hs
  exact ⟨hset, by simp⟩

/-- After any number of conforming rows the groups have the types of the aggregate. -/
theorem run_typed (hplans : Starts input calls plans)
    (hsets : ∀ c ∈ Plan.groupColumns sets, c < input.length) {rows : List Row}
    (hrows : ∀ row ∈ rows, row.Conforms input) :
    Yields (∀ s ∈ ·, s.Typed input calls sets) (rows.foldlM (sendRow plans) (start sets)) := by
  have hcolumns : ∀ set ∈ sets, ∀ c ∈ set, c < input.length := fun set hset c hc =>
    hsets c (Plan.mem_groupColumns.2 ⟨set, hset, hc⟩)
  refine Yields.foldlM (start_typed sets) fun states row hstates hrow => ?_
  exact sendRow_typed hplans (hrows row hrow) hcolumns hstates

theorem close_typed (hplans : Starts input calls plans) {s : SetState}
    (hs : s.Typed input calls sets) :
    ∃ groups, s.close plans = .ok groups ∧ ∀ g ∈ groups, g.Typed input calls s.columns := by
  unfold SetState.close
  split
  next hempty =>
    simp only [ColumnSet.isEmpty, Bool.and_eq_true, List.isEmpty_iff] at hempty
    have hkey : KeyTyped input s.columns.columns [] := hempty.1 ▸ .nil
    obtain ⟨g, hg, typed⟩ := open_typed hplans hkey
    exact ⟨[g], by simp [hg], by simpa using typed⟩
  · exact ⟨s.groups, rfl, hs.groups⟩

theorem forall₂_columns {R : Value → Field → Prop} {columns : List Nat}
    (hcolumns : ∀ c ∈ columns, c < input.length) (value : Nat → Value) (field : Nat → Field → Field)
    (h : ∀ c ∈ columns, ∀ f, input[c]? = some f → R (value c) (field c f)) :
    List.Forall₂ R (columns.map value) (columns.filterMap fun c => input[c]?.map (field c)) := by
  induction columns with
  | nil => exact .nil
  | cons c rest ih =>
    obtain ⟨hc, hrest⟩ := List.forall_mem_cons.1 hcolumns
    obtain ⟨hvalue, hvalues⟩ := List.forall_mem_cons.1 h
    have hf := List.getElem?_eq_getElem hc
    rw [List.map_cons, List.filterMap_cons_some (by rw [hf]; rfl)]
    exact .cons (hvalue _ hf) (ih hrest hvalues)

theorem keyValue_conforms (hkey : KeyTyped input set.columns key) {c : Nat} {f : Field}
    (hf : input[c]? = some f) :
    (((set.position? c).bind fun p => key[p]?).getD .null).Conforms f.type.dataType := by
  cases hp : set.position? c with
  | none => exact Value.null_conforms _
  | some p =>
    cases hv : key[p]? with
    | none => simp [hv]
    | some v =>
      have hc := ColumnSet.position?_eq_some hp
      obtain ⟨f', hf', hconforms⟩ := forall₂_getElem? hkey hv hc
      obtain rfl := Option.some.inj (hf.symm.trans hf')
      simpa [hv] using hconforms

theorem results_yield {g : Group} (h : g.Typed input calls set) :
    Yields (Row.Conforms · (Plan.callFields calls))
      (g.accumulators.mapM Accumulator.finish) := by
  obtain ⟨-, haccs⟩ := h
  generalize g.accumulators = accs at haccs
  induction haccs with
  | nil => exact .nil
  | cons hacc _ ih =>
    rw [List.mapM_cons]
    exact hacc.finish.bind fun v hv => ih.bind fun vs hvs => .cons hv hvs

theorem outputRow_yields (hsets : ∀ c ∈ Plan.groupColumns sets, c < input.length)
    (indicator : Bool) {g : Group} (h : g.Typed input calls set) :
    Yields (Row.Conforms · (Plan.groupFields input sets ++
        (if indicator then Plan.indicatorFields input sets else []) ++ Plan.callFields calls))
      (outputRow (Plan.groupColumns sets) set indicator g) := by
  have hcolumns : ∀ c ∈ (Plan.groupColumns sets).columns, c < input.length := hsets
  refine (results_yield h).bind fun results hresults => ?_
  refine Row.Conforms.append (Row.Conforms.append ?_ ?_) hresults
  · exact forall₂_columns hcolumns _ (fun c => Plan.nullableField !sets.all (·.contains c))
      fun c _ f hf => keyValue_conforms (f := f) h.key hf
  · split
    · exact forall₂_columns hcolumns _
        (fun _ f => { name := "i$" ++ f.name, type := .boolean false })
        fun _ _ _ _ => Value.boolean_conforms _
    · exact .nil

end Relational.Grouping
