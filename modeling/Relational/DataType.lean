import Relational.Text.Quoted

/-!
# Data types

The types of columns and expressions: a data type and whether null may occur. `unify?` finds
the type that the branches of an expression, or the inputs of a set operation, share.

Values, and with them evaluation, know few of the data types; the others are compared, shown and
read from documents.
-/
namespace Relational

theorem sorted_nil : ([] : List (String × String)).Pairwise (·.1 < ·.1) := .nil

/-- What a document attaches to a column or to a row shape: texts under names, in the order of the
names. -/
structure Notes where
  entries : List (String × String) := []
  sorted : entries.Pairwise (·.1 < ·.1) := by exact sorted_nil
  deriving DecidableEq

instance : Inhabited Notes := ⟨{}⟩

def Notes.text (ns : Notes) : String :=
  let entry : String × String → String := fun (name, note) => Text.quoted name ++ ": " ++ Text.quoted note
  "\x7b" ++ ", ".intercalate (ns.entries.map entry) ++ "\x7d"

inductive TimeUnit
  | second | millisecond | microsecond | nanosecond
  deriving DecidableEq, Inhabited

namespace TimeUnit

def all : List TimeUnit := [second, millisecond, microsecond, nanosecond]

def name : TimeUnit → String
  | second => "Second"
  | millisecond => "Millisecond"
  | microsecond => "Microsecond"
  | nanosecond => "Nanosecond"

def ofName? (s : String) : Option TimeUnit := all.find? (·.name == s)

theorem ofName?_name (u : TimeUnit) : ofName? u.name = some u := by cases u <;> decide

end TimeUnit

inductive IntervalUnit
  | yearMonth | dayTime | monthDayNano
  deriving DecidableEq, Inhabited

namespace IntervalUnit

def all : List IntervalUnit := [yearMonth, dayTime, monthDayNano]

def name : IntervalUnit → String
  | yearMonth => "YearMonth"
  | dayTime => "DayTime"
  | monthDayNano => "MonthDayNano"

def ofName? (s : String) : Option IntervalUnit := all.find? (·.name == s)

theorem ofName?_name (u : IntervalUnit) : ofName? u.name = some u := by cases u <;> decide

end IntervalUnit

inductive UnionMode
  | sparse | dense
  deriving DecidableEq, Inhabited

namespace UnionMode

def all : List UnionMode := [sparse, dense]

def name : UnionMode → String
  | sparse => "Sparse"
  | dense => "Dense"

def ofName? (s : String) : Option UnionMode := all.find? (·.name == s)

theorem ofName?_name (m : UnionMode) : ofName? m.name = some m := by cases m <;> decide

end UnionMode

inductive Clock
  | time32 | time64 | duration
  deriving DecidableEq, Inhabited

namespace Clock

def all : List Clock := [time32, time64, duration]

def name : Clock → String
  | time32 => "Time32"
  | time64 => "Time64"
  | duration => "Duration"

def ofName? (s : String) : Option Clock := all.find? (·.name == s)

theorem ofName?_name (c : Clock) : ofName? c.name = some c := by cases c <;> decide

end Clock

inductive DecimalWidth
  | decimal128 | decimal256
  deriving DecidableEq, Inhabited

namespace DecimalWidth

def all : List DecimalWidth := [decimal128, decimal256]

def name : DecimalWidth → String
  | decimal128 => "Decimal128"
  | decimal256 => "Decimal256"

def ofName? (s : String) : Option DecimalWidth := all.find? (·.name == s)

theorem ofName?_name (w : DecimalWidth) : ofName? w.name = some w := by cases w <;> decide

end DecimalWidth

inductive ListKind
  | list | listView | largeList | largeListView
  deriving DecidableEq, Inhabited

namespace ListKind

def all : List ListKind := [list, listView, largeList, largeListView]

def name : ListKind → String
  | list => "List"
  | listView => "ListView"
  | largeList => "LargeList"
  | largeListView => "LargeListView"

def ofName? (s : String) : Option ListKind := all.find? (·.name == s)

theorem ofName?_name (k : ListKind) : ofName? k.name = some k := by cases k <;> decide

end ListKind

/-- A column inside a type. Its dictionary, which takes no part in the comparison of types, is not
kept. -/
structure Item (T : Type) where
  name : String
  type : T
  nullable : Bool
  notes : Notes := {}
  deriving DecidableEq, Inhabited

inductive DataType
  | null | boolean
  | int8 | int16 | int32 | int64
  | uint8 | uint16 | uint32 | uint64
  | float16 | float32 | float64
  | date32 | date64
  | binary | largeBinary | binaryView
  | utf8 | largeUtf8 | utf8View
  | timestamp (unit : TimeUnit) (zone : Option String)
  | clock (kind : Clock) (unit : TimeUnit)
  | interval (unit : IntervalUnit)
  | fixedSizeBinary (width : Int32)
  | decimal (width : DecimalWidth) (precision : UInt8) (scale : Int8)
  | list (kind : ListKind) (item : Item DataType)
  | fixedSizeList (item : Item DataType) (size : Int32)
  | struct (items : List (Item DataType))
  | union (variants : List (Int8 × Item DataType)) (mode : UnionMode)
  | dictionary (key value : DataType)
  | map (entries : Item DataType) (sorted : Bool)
  | runEndEncoded (ends values : Item DataType)
  deriving Inhabited

namespace DataType

def all : List DataType :=
  [null, boolean, int8, int16, int32, int64, uint8, uint16, uint32, uint64, float16, float32,
   float64, date32, date64, binary, largeBinary, binaryView, utf8, largeUtf8, utf8View]

def bare : DataType → Bool
  | timestamp .. | clock .. | interval .. | fixedSizeBinary .. | decimal .. | list ..
  | fixedSizeList .. | struct .. | union .. | dictionary .. | map .. | runEndEncoded .. => false
  | _ => true

def inner : DataType → List DataType
  | list _ item | fixedSizeList item _ | map item _ => [item.type]
  | struct items => items.map (·.type)
  | union variants _ => variants.map (·.2.type)
  | dictionary key value => [key, value]
  | runEndEncoded ends values => [ends.type, values.type]
  | _ => []

theorem sizeOf_lt_of_mem_inner {t u : DataType} (h : u ∈ t.inner) : sizeOf u < sizeOf t := by
  have hitem : ∀ item : Item DataType, sizeOf item.type < sizeOf item := by
    rintro ⟨name, type, nullable, notes⟩
    simp only [Item.mk.sizeOf_spec]
    omega
  cases t with
  | list kind item | fixedSizeList item size | map item sorted =>
    obtain rfl := List.mem_singleton.1 h
    have hlt := hitem item
    simp only [list.sizeOf_spec, fixedSizeList.sizeOf_spec, map.sizeOf_spec]
    omega
  | struct items =>
    obtain ⟨item, hmem, rfl⟩ := List.mem_map.1 h
    have hlt := hitem item
    have hin := List.sizeOf_lt_of_mem hmem
    simp only [struct.sizeOf_spec]
    omega
  | union variants mode =>
    obtain ⟨⟨id, item⟩, hmem, rfl⟩ := List.mem_map.1 h
    have hlt := hitem item
    have hin := List.sizeOf_lt_of_mem hmem
    simp only [union.sizeOf_spec, Prod.mk.sizeOf_spec] at hin ⊢
    omega
  | dictionary key value =>
    simp only [inner, List.mem_cons, List.not_mem_nil, or_false] at h
    rcases h with rfl | rfl
    all_goals
      simp only [dictionary.sizeOf_spec]
      omega
  | runEndEncoded ends values =>
    have hends := hitem ends
    have hvalues := hitem values
    simp only [inner, List.mem_cons, List.not_mem_nil, or_false] at h
    rcases h with rfl | rfl
    all_goals
      simp only [runEndEncoded.sizeOf_spec]
      omega
  | _ => cases h

@[elab_as_elim]
theorem innerInduction {motive : DataType → Prop}
    (node : ∀ t, (∀ u ∈ t.inner, motive u) → motive t) (t : DataType) : motive t :=
  node t fun u hu =>
    have := sizeOf_lt_of_mem_inner hu
    innerInduction node u
termination_by sizeOf t

mutual
def same : DataType → DataType → Bool
  | timestamp unit zone, timestamp unit' zone' => unit = unit' && zone = zone'
  | clock kind unit, clock kind' unit' => kind = kind' && unit = unit'
  | interval unit, interval unit' => unit = unit'
  | fixedSizeBinary width, fixedSizeBinary width' => width = width'
  | decimal width p s, decimal width' p' s' => width = width' && p = p' && s = s'
  | list kind item, list kind' item' => kind = kind' && sameItem item item'
  | fixedSizeList item size, fixedSizeList item' size' => sameItem item item' && size = size'
  | struct items, struct items' => sameItems items items'
  | union variants mode, union variants' mode' => sameVariants variants variants' && mode = mode'
  | dictionary key value, dictionary key' value' => key.same key' && value.same value'
  | map entries sorted, map entries' sorted' => sameItem entries entries' && sorted = sorted'
  | runEndEncoded ends values, runEndEncoded ends' values' =>
    sameItem ends ends' && sameItem values values'
  | t, u => t.bare && t.ctorIdx == u.ctorIdx
termination_by structural t => t

def sameItem : Item DataType → Item DataType → Bool
  | ⟨name, t, nullable, notes⟩, ⟨name', t', nullable', notes'⟩ =>
    name = name' && t.same t' && nullable = nullable' && notes = notes'

def sameItems : List (Item DataType) → List (Item DataType) → Bool
  | [], [] => true
  | item :: rest, item' :: rest' => sameItem item item' && sameItems rest rest'
  | _, _ => false

def sameVariants : List (Int8 × Item DataType) → List (Int8 × Item DataType) → Bool
  | [], [] => true
  | (id, item) :: rest, (id', item') :: rest' =>
    id = id' && sameItem item item' && sameVariants rest rest'
  | _, _ => false
end

theorem all_getElem?_ctorIdx (t : DataType) :
    all[t.ctorIdx]? = if t.bare then some t else none := by
  cases t <;> rfl

theorem eq_of_ctorIdx {t u : DataType} (ht : t.bare) (h : t.ctorIdx = u.ctorIdx) : t = u := by
  have hu := all_getElem?_ctorIdx u
  rw [← h, all_getElem?_ctorIdx t, if_pos ht] at hu
  split at hu
  · exact Option.some.inj hu
  · cases hu


theorem sameItem_iff {item item' : Item DataType}
    (h : ∀ u, item.type.same u = true ↔ item.type = u) :
    sameItem item item' = true ↔ item = item' := by
  obtain ⟨name, type, nullable, notes⟩ := item
  obtain ⟨name', type', nullable', notes'⟩ := item'
  simp only [sameItem, Bool.and_eq_true, decide_eq_true_eq, h, Item.mk.injEq, and_assoc]

theorem sameItems_iff {items items' : List (Item DataType)}
    (h : ∀ item ∈ items, ∀ u, item.type.same u = true ↔ item.type = u) :
    sameItems items items' = true ↔ items = items' := by
  induction items generalizing items' with
  | nil => cases items' <;> simp [sameItems]
  | cons item rest ih =>
    obtain ⟨hitem, hrest⟩ := List.forall_mem_cons.1 h
    cases items' with
    | nil => simp [sameItems]
    | cons item' rest' =>
      rw [sameItems, Bool.and_eq_true, sameItem_iff hitem, ih hrest, List.cons.injEq]

theorem sameVariants_iff {variants variants' : List (Int8 × Item DataType)}
    (h : ∀ v ∈ variants, ∀ u, v.2.type.same u = true ↔ v.2.type = u) :
    sameVariants variants variants' = true ↔ variants = variants' := by
  induction variants generalizing variants' with
  | nil => cases variants' <;> simp [sameVariants]
  | cons v rest ih =>
    obtain ⟨hv, hrest⟩ := List.forall_mem_cons.1 h
    cases variants' with
    | nil => simp [sameVariants]
    | cons v' rest' =>
      rw [sameVariants, Bool.and_eq_true, Bool.and_eq_true, decide_eq_true_eq, sameItem_iff hv,
        ih hrest, List.cons.injEq, Prod.ext_iff]

theorem same_iff {t u : DataType} : t.same u = true ↔ t = u := by
  induction t using innerInduction generalizing u with
  | node t ih =>
    cases hbare : t.bare with
    | true =>
      have hsame : t.same u = (t.bare && t.ctorIdx == u.ctorIdx) := by
        cases t <;> first | rfl | cases hbare
      rw [hsame, hbare, Bool.true_and, beq_iff_eq]
      exact ⟨eq_of_ctorIdx hbare, congrArg DataType.ctorIdx⟩
    | false =>
      cases t with
      | timestamp | clock | interval | fixedSizeBinary | decimal =>
        cases u <;> simp [same, bare, and_assoc]
      | list kind item =>
        have hitem := fun u => @ih item.type (by simp [inner]) u
        cases u <;> simp [same, bare, sameItem_iff hitem]
      | fixedSizeList item size =>
        have hitem := fun u => @ih item.type (by simp [inner]) u
        cases u <;> simp [same, bare, sameItem_iff hitem]
      | struct items =>
        have hitems : ∀ item ∈ items, ∀ u, item.type.same u = true ↔ item.type = u :=
          fun item hmem u => ih item.type (List.mem_map_of_mem hmem)
        cases u <;> simp [same, bare, sameItems_iff hitems]
      | union variants mode =>
        have hvariants : ∀ v ∈ variants, ∀ u, v.2.type.same u = true ↔ v.2.type = u :=
          fun v hmem u => ih v.2.type (List.mem_map_of_mem hmem)
        cases u <;> simp [same, bare, sameVariants_iff hvariants]
      | dictionary key value =>
        have hkey := fun u => @ih key (by simp [inner]) u
        have hvalue := fun u => @ih value (by simp [inner]) u
        cases u <;> simp [same, bare, hkey, hvalue]
      | map entries sorted =>
        have hentries := fun u => @ih entries.type (by simp [inner]) u
        cases u <;> simp [same, bare, sameItem_iff hentries]
      | runEndEncoded ends values =>
        have hends := fun u => @ih ends.type (by simp [inner]) u
        have hvalues := fun u => @ih values.type (by simp [inner]) u
        cases u <;> simp [same, bare, sameItem_iff hends, sameItem_iff hvalues]
      | _ => cases hbare

instance : DecidableEq DataType := fun _ _ => decidable_of_iff _ same_iff

mutual
/-- The type as it shows itself in messages and in the texts of casts. -/
def name : DataType → String
  | null => "Null"
  | boolean => "Boolean"
  | int8 => "Int8"
  | int16 => "Int16"
  | int32 => "Int32"
  | int64 => "Int64"
  | uint8 => "UInt8"
  | uint16 => "UInt16"
  | uint32 => "UInt32"
  | uint64 => "UInt64"
  | float16 => "Float16"
  | float32 => "Float32"
  | float64 => "Float64"
  | date32 => "Date32"
  | date64 => "Date64"
  | binary => "Binary"
  | largeBinary => "LargeBinary"
  | binaryView => "BinaryView"
  | utf8 => "Utf8"
  | largeUtf8 => "LargeUtf8"
  | utf8View => "Utf8View"
  | timestamp unit zone =>
    "Timestamp(" ++ unit.name ++ ", " ++
      zone.elim "None" (fun z => "Some(" ++ Text.quoted z ++ ")") ++ ")"
  | clock kind unit => kind.name ++ "(" ++ unit.name ++ ")"
  | interval unit => "Interval(" ++ unit.name ++ ")"
  | fixedSizeBinary width => "FixedSizeBinary(" ++ toString width.toInt ++ ")"
  | decimal width precision scale =>
    width.name ++ "(" ++ toString precision.toNat ++ ", " ++ toString scale.toInt ++ ")"
  | list kind item => kind.name ++ "(" ++ itemText item ++ ")"
  | fixedSizeList item size => "FixedSizeList(" ++ itemText item ++ ", " ++ toString size.toInt ++ ")"
  | struct items => "Struct([" ++ ", ".intercalate (itemTexts items) ++ "])"
  | union variants mode =>
    "Union([" ++ ", ".intercalate (variantTexts variants) ++ "], " ++ mode.name ++ ")"
  | dictionary key value => "Dictionary(" ++ key.name ++ ", " ++ value.name ++ ")"
  | map entries sorted => "Map(" ++ itemText entries ++ ", " ++ toString sorted ++ ")"
  | runEndEncoded ends values => "RunEndEncoded(" ++ itemText ends ++ ", " ++ itemText values ++ ")"
termination_by structural t => t

def itemText : Item DataType → String
  | ⟨name, t, nullable, notes⟩ =>
    "Field \x7b name: " ++ Text.quoted name ++ ", data_type: " ++ t.name ++ ", nullable: " ++
      toString nullable ++ ", dict_id: 0, dict_is_ordered: false, metadata: " ++ notes.text ++ " \x7d"

def itemTexts : List (Item DataType) → List String
  | [] => []
  | item :: rest => itemText item :: itemTexts rest

def variantTexts : List (Int8 × Item DataType) → List String
  | [] => []
  | (id, item) :: rest => ("(" ++ toString id.toInt ++ ", " ++ itemText item ++ ")") :: variantTexts rest
end

def ofName? (s : String) : Option DataType := all.find? (·.name == s)

/-- Position in the order of widening; the half-width float takes no part in arithmetic. -/
def width? : DataType → Option Nat
  | int8 | uint8 => some 1
  | int16 | uint16 => some 2
  | int32 | uint32 => some 3
  | int64 | uint64 => some 4
  | float32 => some 5
  | float64 => some 6
  | _ => none

def isNumeric (t : DataType) : Bool := t.width?.isSome

def isText (t : DataType) : Bool := t == utf8 || t == largeUtf8

def wider? (a b : DataType) : Option DataType :=
  match a.width?, b.width? with
  | some m, some n => some (if n ≤ m then a else b)
  | _, _ => none

def comparable (a b : DataType) : Bool :=
  a == b || a == null || b == null || (a.isNumeric && b.isNumeric) || (a.isText && b.isText)

def join? (a b : DataType) : Option DataType :=
  if b = null then some a
  else if a = null then some b
  else if a = b then some a
  else match a.wider? b with
    | some t => some t
    | none => if a.isText && b.isText then some largeUtf8 else none

def unify (types : List DataType) : Except (DataType × DataType) DataType :=
  types.foldlM (fun a b => (a.join? b).elim (.error (a, b)) .ok) null

theorem ofName?_name {t : DataType} (h : t.bare = true) : ofName? t.name = some t := by
  cases t <;> first | decide | cases h

end DataType

structure SqlType where
  dataType : DataType
  nullable : Bool
  deriving DecidableEq, Inhabited

namespace SqlType

def boolean (nullable : Bool) : SqlType := ⟨.boolean, nullable⟩
def int64 (nullable : Bool) : SqlType := ⟨.int64, nullable⟩
def float64 (nullable : Bool) : SqlType := ⟨.float64, nullable⟩

def withNullable (t : SqlType) (nullable : Bool) : SqlType := ⟨t.dataType, nullable⟩

def text (t : SqlType) : String :=
  if t.nullable then t.dataType.name else t.dataType.name ++ " NOT NULL"

end SqlType

/-- What a document says of a column beyond name and type; it is carried along without effect. -/
structure Annotation where
  dictionary : Int64 := 0
  ordered : Bool := false
  notes : Notes := {}
  deriving DecidableEq, Inhabited

structure Field where
  name : String
  type : SqlType
  annotation : Annotation := {}
  deriving DecidableEq, Inhabited

abbrev Schema := List Field

end Relational
