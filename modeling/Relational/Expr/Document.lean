import Relational.Expr.Basic
import Relational.Json.Decode

/-!
# Documents of values and expressions

`toJson` writes, `ofJson?` reads. Reading does not check types; `Expr.validate` and the checks
of plan nodes do.
-/
namespace Relational

namespace Notes

def toJson (ns : Notes) : Json :=
  .object (ns.entries.map fun (name, note) => (name, .string note))

def insert (name note : String) (ns : Notes) : Notes :=
  ⟨Json.insertField name note ns.entries, Json.insertField_sorted ns.sorted⟩

def ofJson? : Json → Option Notes
  | .object fields =>
    fields.foldlM (fun (ns : Notes) (name, j) => do return ns.insert name (← j.text?)) {}
  | _ => none

end Notes

namespace Item
variable {T : Type}

def members : List String :=
  ["name", "data_type", "nullable", "dict_id", "dict_is_ordered", "metadata"]

def ofMembers? (ms : List (String × Json)) (type : T) : Option (Item T) := do
  let _ ← Json.member? "dict_id" Json.int64? ms
  let _ ← Json.member? "dict_is_ordered" Json.bool? ms
  return ⟨← Json.member? "name" Json.text? ms, type, ← Json.member? "nullable" Json.bool? ms,
    ← Json.member? "metadata" Notes.ofJson? ms⟩

end Item

namespace DataType

mutual
def toJson : DataType → Json
  | timestamp unit zone =>
    .object [("Timestamp", .array [.string unit.name, zone.elim .null .string])]
  | clock kind unit => .object [(kind.name, .string unit.name)]
  | interval unit => .object [("Interval", .string unit.name)]
  | fixedSizeBinary width => .object [("FixedSizeBinary", .integer width.toInt)]
  | decimal width precision scale =>
    .object [(width.name, .array [.natural precision.toNat, .integer scale.toInt])]
  | list kind item => .object [(kind.name, itemToJson item)]
  | fixedSizeList item size =>
    .object [("FixedSizeList", .array [itemToJson item, .integer size.toInt])]
  | struct items => .object [("Struct", .array (itemsToJson items))]
  | union variants mode =>
    .object [("Union", .array [.array (variantsToJson variants), .string mode.name])]
  | dictionary key value => .object [("Dictionary", .array [key.toJson, value.toJson])]
  | map entries sorted => .object [("Map", .array [itemToJson entries, .bool sorted])]
  | runEndEncoded ends values =>
    .object [("RunEndEncoded", .array [itemToJson ends, itemToJson values])]
  | t => .string t.name
termination_by structural t => t

def itemToJson : Item DataType → Json
  | ⟨name, t, nullable, notes⟩ =>
    .object [("name", .string name), ("data_type", t.toJson), ("nullable", .bool nullable),
      ("dict_id", .integer 0), ("dict_is_ordered", .bool false), ("metadata", notes.toJson)]

def itemsToJson : List (Item DataType) → List Json
  | [] => []
  | item :: rest => itemToJson item :: itemsToJson rest

def variantsToJson : List (Int8 × Item DataType) → List Json
  | [] => []
  | (id, item) :: rest => .array [.integer id.toInt, itemToJson item] :: variantsToJson rest
end

def flatOfJson? (tag : String) (content : Json) : Option DataType := do
  match tag, content with
  | "Timestamp", .array [unit, zone] =>
    return .timestamp (← unit.named? TimeUnit.ofName?) (← zone.optional? Json.text?)
  | "Interval", unit => return .interval (← unit.named? IntervalUnit.ofName?)
  | "FixedSizeBinary", width => return .fixedSizeBinary (← width.int32?)
  | tag, .array [precision, scale] =>
    return .decimal (← DecimalWidth.ofName? tag) (← precision.uint8?) (← scale.int8?)
  | tag, .null => ofName? tag
  | tag, unit => return .clock (← Clock.ofName? tag) (← unit.named? TimeUnit.ofName?)

mutual
def ofJson? : Json → Option DataType
  | .string tag => ofName? tag
  | .object [("Struct", .array items)] => do return .struct (← itemsOfJson? items)
  | .object [("Union", .array [.array variants, mode])] => do
    return .union (← variantsOfJson? variants) (← mode.named? UnionMode.ofName?)
  | .object [("FixedSizeList", .array [item, size])] => do
    return .fixedSizeList (← itemOfJson? item) (← size.int32?)
  | .object [("Dictionary", .array [key, value])] => do
    return .dictionary (← ofJson? key) (← ofJson? value)
  | .object [("Map", .array [entries, sorted])] => do
    return .map (← itemOfJson? entries) (← sorted.bool?)
  | .object [("RunEndEncoded", .array [ends, values])] => do
    return .runEndEncoded (← itemOfJson? ends) (← itemOfJson? values)
  | .object [(tag, content)] =>
    match ListKind.ofName? tag with
    | some kind => do return .list kind (← itemOfJson? content)
    | none => flatOfJson? tag content
  | _ => none

def itemOfJson? : Json → Option (Item DataType)
  | .object fields => do
    let ms ← Json.members? Item.members (.object fields)
    Item.ofMembers? ms (← typeOfFields? fields)
  | .array [name, type, nullable, id, ordered, notes] => do
    let ms := Item.members.zip [name, type, nullable, id, ordered, notes]
    Item.ofMembers? ms (← ofJson? type)
  | _ => none

def typeOfFields? : List (String × Json) → Option DataType
  | [] => none
  | (key, j) :: rest => if key == "data_type" then ofJson? j else typeOfFields? rest

def itemsOfJson? : List Json → Option (List (Item DataType))
  | [] => some []
  | j :: rest => do return (← itemOfJson? j) :: (← itemsOfJson? rest)

def variantsOfJson? : List Json → Option (List (Int8 × Item DataType))
  | [] => some []
  | .array [id, item] :: rest => do
    return (← id.int8?, ← itemOfJson? item) :: (← variantsOfJson? rest)
  | _ => none
end

end DataType

namespace SqlType

def toJson (t : SqlType) : Json :=
  .object [("data_type", t.dataType.toJson), ("nullable", .bool t.nullable)]

def ofJson? (j : Json) : Option SqlType := do
  let ms ← j.members? ["data_type", "nullable"]
  return ⟨← Json.member? "data_type" DataType.ofJson? ms, ← Json.member? "nullable" Json.bool? ms⟩

end SqlType

namespace Value

def toJson : Value → Json
  | null => .string "Null"
  | boolean b => .object [("Boolean", .bool b)]
  | int32 n => .object [("Int32", .integer n.toInt)]
  | int64 n => .object [("Int64", .integer n.toInt)]
  | float32 x => .object [("Float32", if x.isFinite then .single x else .null)]
  | float64 x => .object [("Float64", if x.isFinite then .double x else .null)]
  | utf8 s => .object [("Utf8", .string s)]

def ofJson? (j : Json) : Option Value := do
  let (tag, content) ← j.tagged?
  match tag with
  | "Null" => if let .null := content then some null else none
  | "Boolean" => content.bool?.map boolean
  | "Int32" => content.int32?.map int32
  | "Int64" => content.int64?.map int64
  | "Float32" => content.float32?.map float32
  | "Float64" => content.float64?.map float64
  | "Utf8" => content.text?.map utf8
  | _ => none

end Value

namespace TableOccurrence

def toJson (t : TableOccurrence) : Json :=
  .object [("qualified_name", .string t.table), ("entity_number", .natural t.number)]

def ofJson? (j : Json) : Option TableOccurrence := do
  let ms ← j.members? ["qualified_name", "entity_number"]
  return ⟨← Json.member? "qualified_name" Json.text? ms,
    ← Json.member? "entity_number" Json.natural? ms⟩

end TableOccurrence

namespace Expr

mutual
def toJson : Expr → Json
  | literal v t => .object [("Literal", .object [("value", v.toJson), ("ty", t.toJson)])]
  | column i t => .object [("InputRef", .object [("index", .natural i), ("ty", t.toJson)])]
  | call op operands t =>
    .object [("Call", .object
      [("op", .string op.name), ("operands", .array (toJsons operands)), ("ty", t.toJson)])]
  | correlation id t => .object [("CorrelationRef", .object [("id", .natural id), ("ty", t.toJson)])]
  | tableColumn table c t =>
    .object [("TableInputRef", .object
      [("table", table.toJson), ("column", .natural c), ("ty", t.toJson)])]

def toJsons : List Expr → List Json
  | [] => []
  | e :: rest => e.toJson :: toJsons rest
end

private def leafOfJson? (tag : String) (content : Json) : Option Expr := do
  match tag with
  | "Literal" =>
    let ms ← content.members? ["value", "ty"]
    return .literal (← Json.member? "value" Value.ofJson? ms) (← Json.member? "ty" SqlType.ofJson? ms)
  | "InputRef" =>
    let ms ← content.members? ["index", "ty"]
    return .column (← Json.member? "index" Json.natural? ms) (← Json.member? "ty" SqlType.ofJson? ms)
  | "CorrelationRef" =>
    let ms ← content.members? ["id", "ty"]
    return .correlation (← Json.member? "id" Json.natural32? ms)
      (← Json.member? "ty" SqlType.ofJson? ms)
  | "TableInputRef" =>
    let ms ← content.members? ["table", "column", "ty"]
    return .tableColumn (← Json.member? "table" TableOccurrence.ofJson? ms)
      (← Json.member? "column" Json.natural? ms) (← Json.member? "ty" SqlType.ofJson? ms)
  | _ => none

mutual
def ofJson? : Json → Option Expr
  | .object [("Call", .object fields)] => do
    let _ ← Json.members? ["op", "operands", "ty"] (.object fields)
    let op ← Json.member? "op" (Json.named? Op.ofName?) fields
    let operands ← operandsOfFields? fields
    return .call op operands (← Json.member? "ty" SqlType.ofJson? fields)
  | .object [("Call", .array [op, .array operands, type])] => do
    let op ← Json.named? Op.ofName? op
    return .call op (← ofJsons? operands) (← SqlType.ofJson? type)
  | .object [(tag, content)] => leafOfJson? tag content
  | _ => none

def operandsOfFields? : List (String × Json) → Option (List Expr)
  | [] => none
  | (key, j) :: rest =>
    if key == "operands" then
      match j with
      | .array items => ofJsons? items
      | _ => none
    else operandsOfFields? rest

def ofJsons? : List Json → Option (List Expr)
  | [] => some []
  | j :: rest => do return (← ofJson? j) :: (← ofJsons? rest)
end

end Expr
end Relational
