import Relational.Expr.Document
import Relational.Proofs.Expr.Evaluation
import Relational.Proofs.Json.Decode

/-!
# Documents of expressions

An expression is read back from its document if its floats are finite and its numbers fit machine
words.
-/
namespace Relational
open Json

namespace Notes

theorem insertField_last {name note : String} {entries : List (String × String)}
    (h : ∀ n ∈ entries, n.1 < name) :
    insertField name note entries = entries ++ [(name, note)] := by
  induction entries with
  | nil => rfl
  | cons n rest ih =>
    obtain ⟨hn, hrest⟩ := List.forall_mem_cons.1 h
    have hlt : n.1 < name := hn
    have hne : name ≠ n.1 := fun heq => String.lt_irrefl name (heq ▸ hlt)
    rw [insertField, if_neg (String.lt_asymm hlt), if_neg hne, ih hrest]
    rfl

theorem foldlM_insert (done : Notes) {rest : List (String × String)}
    (h : (done.entries ++ rest).Pairwise (·.1 < ·.1)) :
    (rest.map fun (name, note) => (name, Json.string note)).foldlM (fun (ns : Notes) (name, j) => do
      return ns.insert name (← j.text?)) done = some ⟨done.entries ++ rest, h⟩ := by
  induction rest generalizing done with
  | nil =>
    refine congrArg some ?_
    simp only [List.append_nil]
  | cons n rest ih =>
    obtain ⟨name, note⟩ := n
    have hlast : (done.insert name note).entries = done.entries ++ [(name, note)] :=
      insertField_last fun n hn => (List.pairwise_append.1 h).2.2 n hn (name, note)
        List.mem_cons_self
    have happend : (done.insert name note).entries ++ rest = done.entries ++ (name, note) :: rest := by
      rw [hlast, List.append_assoc]
      rfl
    rw [List.map_cons, List.foldlM_cons]
    show _ = some (⟨_, h⟩ : Notes)
    refine (ih (done.insert name note) (happend ▸ h)).trans ?_
    simp only [happend]

theorem stands (ns : Notes) : Stands Notes.ofJson? ns ns.toJson :=
  ⟨foldlM_insert {} ns.sorted, intact_object (List.forall_mem_map.2 fun _ _ => rfl)⟩

end Notes

namespace DataType

theorem itemsToJson_eq_map (items : List (Item DataType)) :
    itemsToJson items = items.map itemToJson := by
  induction items with
  | nil => rfl
  | cons item rest ih => rw [itemsToJson, ih, List.map_cons]

theorem itemsOfJson?_eq_mapM (js : List Json) : itemsOfJson? js = js.mapM itemOfJson? := by
  induction js with
  | nil => rfl
  | cons j rest ih => simp only [itemsOfJson?, List.mapM_cons, ih]

theorem stands_item {item : Item DataType} (h : Stands ofJson? item.type item.type.toJson) :
    Stands itemOfJson? item (itemToJson item) := by
  obtain ⟨name, t, nullable, notes⟩ := item
  have hname := stands_text name
  have hnullable := stands_bool nullable
  have hnotes := notes.stands
  have hid : Stands int64? 0 (.integer 0) := stands_int64 0
  have hordered := stands_bool false
  refine stands_record (by simp) (by simp [hname.intact, h.intact, hnullable.intact, hid.intact,
    hordered.intact, hnotes.intact]) fun hms => ?_
  have htype : ofJson? t.toJson = some t := h.read
  rw [itemOfJson?, hms, Option.bind_eq_bind, Option.bind_some]
  show (ofJson? t.toJson >>= _) = _
  rw [htype, Option.bind_eq_bind, Option.bind_some, Item.ofMembers?, member?_of_lookup rfl hid,
    member?_of_lookup rfl hordered, member?_of_lookup rfl hname, member?_of_lookup rfl hnullable,
    member?_of_lookup rfl hnotes]
  rfl

theorem stands_items {items : List (Item DataType)}
    (h : ∀ item ∈ items, Stands ofJson? item.type item.type.toJson) :
    Stands (list? itemOfJson?) items (.array (itemsToJson items)) := by
  rw [itemsToJson_eq_map]
  exact stands_map fun item hitem => stands_item (h item hitem)

theorem stands_variants {variants : List (Int8 × Item DataType)}
    (h : ∀ v ∈ variants, Stands ofJson? v.2.type v.2.type.toJson) :
    variantsOfJson? (variantsToJson variants) = some variants ∧
      (Json.array (variantsToJson variants)).intact = true := by
  rw [intact, intactItems_eq_true]
  induction variants with
  | nil => exact ⟨rfl, fun _ hj => absurd hj List.not_mem_nil⟩
  | cons v rest ih =>
    obtain ⟨id, item⟩ := v
    obtain ⟨hitem, hrest⟩ := List.forall_mem_cons.1 h
    have hid := stands_int8 id
    have hitem := stands_item hitem
    obtain ⟨hread, hintact⟩ := ih hrest
    constructor
    · rw [variantsToJson, variantsOfJson?, hid.read, hitem.read, hread]
      rfl
    · exact List.forall_mem_cons.2
        ⟨intact_array (by simp [hid.intact, hitem.intact]), hintact⟩

theorem stands_flat {t : DataType} {tag : String} {content : Json}
    (hlist : ListKind.ofName? tag = none) (hintact : content.intact = true)
    (hread : flatOfJson? tag content = some t)
    (hnested : tag ∉ ["Struct", "Union", "FixedSizeList", "Dictionary", "Map", "RunEndEncoded"]) :
    Stands ofJson? t (.object [(tag, content)]) := by
  refine ⟨?_, intact_object (List.forall_mem_singleton.2 hintact)⟩
  simp only [List.mem_cons, List.not_mem_nil, or_false, not_or] at hnested
  obtain ⟨hstruct, hunion, hfixed, hdictionary, hmap, hrun⟩ := hnested
  rw [ofJson?.eq_8 _ _ (by simp [hstruct]) (by simp [hunion]) (by simp [hfixed])
    (by simp [hdictionary]) (by simp [hmap]) (by simp [hrun]), hlist]
  exact hread

theorem stands_bare {t : DataType} (h : t.bare = true) : Stands ofJson? t t.toJson := by
  have hjson : t.toJson = .string t.name := by cases t <;> first | rfl | cases h
  rw [hjson]
  exact ⟨ofName?_name h, rfl⟩

/-- Reading what was written: the tag says which case it is. -/
theorem stands (t : DataType) : Stands ofJson? t t.toJson := by
  induction t using innerInduction with
  | node t ih =>
    cases t with
    | timestamp unit zone =>
      have hunit := stands_named unit.ofName?_name
      have hzone : Stands (optional? text?) zone (zone.elim .null .string) :=
        stands_optional (fun _ => Json.noConfusion) fun z _ => stands_text z
      refine stands_flat rfl (intact_array (by simp [hunit.intact, hzone.intact])) ?_ (by decide)
      rw [flatOfJson?, hunit.read, hzone.read]
      rfl
    | clock kind unit =>
      refine stands_flat (by cases kind <;> rfl) rfl ?_ (by cases kind <;> decide)
      cases kind <;> cases unit <;> rfl
    | interval unit =>
      have hunit := stands_named unit.ofName?_name
      refine stands_flat rfl rfl ?_ (by decide)
      rw [flatOfJson?, hunit.read]
      rfl
    | fixedSizeBinary width =>
      have hwidth := stands_int32 width
      refine stands_flat rfl rfl ?_ (by decide)
      rw [flatOfJson?, hwidth.read]
      rfl
    | decimal width precision scale =>
      have hprecision := stands_uint8 precision
      have hscale := stands_int8 scale
      refine stands_flat (by cases width <;> rfl)
        (intact_array (by simp [hprecision.intact, hscale.intact])) ?_ (by cases width <;> decide)
      have hflat : ∀ p s : Json, flatOfJson? width.name (.array [p, s]) = (do
          let p ← p.uint8?
          return .decimal width p (← s.int8?)) := by
        intro p s
        cases width <;> rfl
      rw [hflat, hprecision.read, hscale.read]
      rfl
    | list kind item =>
      have hitem := stands_item (ih item.type (by simp [inner]))
      refine ⟨?_, intact_object (List.forall_mem_singleton.2 hitem.intact)⟩
      have hread : ofJson? (toJson (.list kind item)) =
          (do return .list kind (← itemOfJson? (itemToJson item))) := by
        cases kind <;> rfl
      rw [hread, hitem.read]
      rfl
    | fixedSizeList item size =>
      have hitem := stands_item (ih item.type (by simp [inner]))
      have hsize := stands_int32 size
      refine ⟨?_, intact_object (List.forall_mem_singleton.2
        (intact_array (by simp [hitem.intact, hsize.intact])))⟩
      rw [toJson, ofJson?, hitem.read, hsize.read]
      rfl
    | struct items =>
      have hitems := stands_items fun item hmem => ih item.type (List.mem_map_of_mem hmem)
      refine ⟨?_, intact_object (List.forall_mem_singleton.2 hitems.intact)⟩
      rw [toJson, ofJson?, itemsOfJson?_eq_mapM]
      show (list? itemOfJson? (.array (itemsToJson items)) >>= _) = _
      rw [hitems.read]
      rfl
    | union variants mode =>
      obtain ⟨hread, hintact⟩ := stands_variants fun v hmem => ih v.2.type (List.mem_map_of_mem hmem)
      have hmode := stands_named mode.ofName?_name
      refine ⟨?_, intact_object (List.forall_mem_singleton.2
        (intact_array (by simp [hintact, hmode.intact])))⟩
      rw [toJson, ofJson?, hread, hmode.read]
      rfl
    | dictionary key value =>
      have hkey := ih key (by simp [inner])
      have hvalue := ih value (by simp [inner])
      refine ⟨?_, intact_object (List.forall_mem_singleton.2
        (intact_array (by simp [hkey.intact, hvalue.intact])))⟩
      rw [toJson, ofJson?, hkey.read, hvalue.read]
      rfl
    | map entries sorted =>
      have hentries := stands_item (ih entries.type (by simp [inner]))
      have hsorted := stands_bool sorted
      refine ⟨?_, intact_object (List.forall_mem_singleton.2
        (intact_array (by simp [hentries.intact, hsorted.intact])))⟩
      rw [toJson, ofJson?, hentries.read, hsorted.read]
      rfl
    | runEndEncoded ends values =>
      have hends := stands_item (ih ends.type (by simp [inner]))
      have hvalues := stands_item (ih values.type (by simp [inner]))
      refine ⟨?_, intact_object (List.forall_mem_singleton.2
        (intact_array (by simp [hends.intact, hvalues.intact])))⟩
      rw [toJson, ofJson?, hends.read, hvalues.read]
      rfl
    | _ => exact stands_bare rfl

end DataType

theorem SqlType.stands (t : SqlType) : Stands SqlType.ofJson? t t.toJson := by
  have htype := t.dataType.stands
  have hnullable := stands_bool t.nullable
  refine stands_record (by simp) (by simp [htype.intact, hnullable.intact]) fun hms => ?_
  rw [ofJson?, hms, Option.bind_eq_bind, Option.bind_some, member?_of_lookup rfl htype,
    member?_of_lookup rfl hnullable]
  rfl

namespace Value

def Finite : Value → Prop
  | float32 x => x.isFinite = true
  | float64 x => x.isFinite = true
  | _ => True

instance : DecidablePred Finite
  | float32 x => inferInstanceAs (Decidable (x.isFinite = true))
  | float64 x => inferInstanceAs (Decidable (x.isFinite = true))
  | null | boolean _ | int32 _ | int64 _ | utf8 _ => inferInstanceAs (Decidable True)

theorem stands {v : Value} (h : v.Finite) : Stands Value.ofJson? v v.toJson := by
  cases v with
  | null | boolean | utf8 => exact ⟨rfl, rfl⟩
  | int32 n => exact ⟨congrArg (Option.map int32) (stands_int32 n).read, rfl⟩
  | int64 n => exact ⟨congrArg (Option.map int64) (stands_int64 n).read, rfl⟩
  | float32 x =>
    have hfinite : x.isFinite = true := h
    rw [toJson, if_pos hfinite]
    exact ⟨rfl, rfl⟩
  | float64 x =>
    have hfinite : x.isFinite = true := h
    rw [toJson, if_pos hfinite]
    exact ⟨rfl, rfl⟩

end Value

theorem TableOccurrence.stands {t : TableOccurrence} (h : t.number < Integer.wordCount) :
    Stands TableOccurrence.ofJson? t t.toJson := by
  have htable := stands_text t.table
  have hnumber := stands_natural h
  refine stands_record (by simp) (by simp [htable.intact, hnumber.intact]) fun hms => ?_
  rw [ofJson?, hms, Option.bind_eq_bind, Option.bind_some, member?_of_lookup rfl htable,
    member?_of_lookup rfl hnumber]
  rfl

namespace Expr

def constants (e : Expr) : List Value := e.parts.filterMap literal?

def Sized : Expr → Prop
  | column i _ => i < Integer.wordCount
  | correlation id _ => id < 4294967296
  | tableColumn table c _ => table.number < Integer.wordCount ∧ c < Integer.wordCount
  | _ => True

instance : DecidablePred Sized
  | column i _ => inferInstanceAs (Decidable (i < _))
  | correlation id _ => inferInstanceAs (Decidable (id < _))
  | tableColumn table c _ => inferInstanceAs (Decidable (table.number < _ ∧ c < _))
  | literal .. | call .. => inferInstanceAs (Decidable True)

theorem toJsons_eq_map (es : List Expr) : toJsons es = es.map toJson := by
  induction es with
  | nil => rfl
  | cons e rest ih => rw [toJsons, ih, List.map_cons]

theorem ofJsons?_eq_mapM (js : List Json) : ofJsons? js = js.mapM ofJson? := by
  induction js with
  | nil => rfl
  | cons j rest ih => simp only [ofJsons?, List.mapM_cons, ih]

theorem stands_literal {v : Value} (t : SqlType) (h : v.Finite) :
    Stands ofJson? (literal v t) (literal v t).toJson := by
  have hvalue := v.stands h
  have htype := t.stands
  refine stands_tagged (by simp) (by simp [hvalue.intact, htype.intact]) fun hms => ?_
  show (members? _ _ >>= _) = _
  rw [hms, Option.bind_eq_bind, Option.bind_some, member?_of_lookup rfl hvalue,
    member?_of_lookup rfl htype]
  rfl

theorem stands_column {i : Nat} (t : SqlType) (h : i < Integer.wordCount) :
    Stands ofJson? (column i t) (column i t).toJson := by
  have hindex := stands_natural h
  have htype := t.stands
  refine stands_tagged (by simp) (by simp [hindex.intact, htype.intact]) fun hms => ?_
  show (members? _ _ >>= _) = _
  rw [hms, Option.bind_eq_bind, Option.bind_some, member?_of_lookup rfl hindex,
    member?_of_lookup rfl htype]
  rfl

theorem stands_correlation {id : Nat} (t : SqlType) (h : id < 4294967296) :
    Stands ofJson? (correlation id t) (correlation id t).toJson := by
  have hid := stands_natural32 h
  have htype := t.stands
  refine stands_tagged (by simp) (by simp [hid.intact, htype.intact]) fun hms => ?_
  show (members? _ _ >>= _) = _
  rw [hms, Option.bind_eq_bind, Option.bind_some, member?_of_lookup rfl hid,
    member?_of_lookup rfl htype]
  rfl

theorem stands_tableColumn {table : TableOccurrence} {c : Nat} (t : SqlType)
    (htable : table.number < Integer.wordCount) (hcolumn : c < Integer.wordCount) :
    Stands ofJson? (tableColumn table c t) (tableColumn table c t).toJson := by
  have htable := table.stands htable
  have hcolumn := stands_natural hcolumn
  have htype := t.stands
  refine stands_tagged (by simp) (by simp [htable.intact, hcolumn.intact, htype.intact])
    fun hms => ?_
  show (members? _ _ >>= _) = _
  rw [hms, Option.bind_eq_bind, Option.bind_some, member?_of_lookup rfl htable,
    member?_of_lookup rfl hcolumn, member?_of_lookup rfl htype]
  rfl

theorem stands_call {op : Op} {operands : List Expr} (t : SqlType)
    (h : ∀ o ∈ operands, Stands ofJson? o o.toJson) :
    Stands ofJson? (call op operands t) (call op operands t).toJson := by
  have hop := stands_named op.ofName?_name
  have htype := t.stands
  have hoperands := stands_map h
  rw [← toJsons_eq_map] at hoperands
  have hread : operandsOfFields? [("op", .string op.name), ("operands", .array (toJsons operands)),
      ("ty", t.toJson)] = some operands := by
    show ofJsons? (toJsons operands) = some operands
    rw [ofJsons?_eq_mapM]
    exact hoperands.read
  refine stands_tagged (by simp) (by simp [hop.intact, hoperands.intact, htype.intact])
    fun hms => ?_
  rw [ofJson?, hms, Option.bind_eq_bind, Option.bind_some, member?_of_lookup rfl hop,
    member?_of_lookup rfl htype, hread]
  rfl

theorem stands {e : Expr} (hfinite : ∀ v ∈ e.constants, v.Finite)
    (hsized : ∀ part ∈ e.parts, part.Sized) : Stands ofJson? e e.toJson := by
  induction e using operandInduction with
  | literal v t => exact stands_literal t (hfinite v List.mem_cons_self)
  | column i t => exact stands_column t (hsized _ (self_mem_parts _))
  | call op operands t ih =>
    refine stands_call t fun o ho => ih o ho (fun v hv => hfinite v ?_)
      fun part hpart => hsized part (mem_parts_of_operand ho hpart)
    obtain ⟨part, hpart, hv⟩ := List.mem_filterMap.1 hv
    exact List.mem_filterMap.2 ⟨part, mem_parts_of_operand ho hpart, hv⟩
  | correlation id t => exact stands_correlation t (hsized _ (self_mem_parts _))
  | tableColumn table i t =>
    obtain ⟨htable, hcolumn⟩ := hsized _ (self_mem_parts _)
    exact stands_tableColumn t htable hcolumn

end Expr
end Relational
