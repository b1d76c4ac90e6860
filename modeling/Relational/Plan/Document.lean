import Relational.Expr.Document
import Relational.Json.Printer
import Relational.Json.Reader
import Relational.Plan.Check

/-!
# Documents of plans

`Plan.toJson` writes a plan. `Plan.parse` reads a text and checks every node as soon as its
document ends, so that of several faults the first in the text is the one reported.
-/
namespace Relational

namespace Field

def toJson (f : Field) : Json :=
  .object [("name", .string f.name), ("data_type", f.type.dataType.toJson),
    ("nullable", .bool f.type.nullable), ("dict_id", .integer f.annotation.dictionary.toInt),
    ("dict_is_ordered", .bool f.annotation.ordered), ("metadata", f.annotation.notes.toJson)]

def ofJson? (j : Json) : Option Field := do
  let ms ← j.members? ["name", "data_type", "nullable", "dict_id", "dict_is_ordered", "metadata"]
  let annotation := ⟨← Json.member? "dict_id" Json.int64? ms,
    ← Json.member? "dict_is_ordered" Json.bool? ms, ← Json.member? "metadata" Notes.ofJson? ms⟩
  let type := ⟨← Json.member? "data_type" DataType.ofJson? ms,
    ← Json.member? "nullable" Json.bool? ms⟩
  return { name := ← Json.member? "name" Json.text? ms, type, annotation }

end Field

namespace Schema

def toJson (s : Schema) (notes : Notes) : Json :=
  .object [("fields", .array (s.map Field.toJson)), ("metadata", notes.toJson)]

def ofJson? (j : Json) : Option (Schema × Notes) := do
  let ms ← j.members? ["fields", "metadata"]
  return (← Json.member? "fields" (Json.list? Field.ofJson?) ms,
    ← Json.member? "metadata" Notes.ofJson? ms)

end Schema

namespace TableRef

def toJson (t : TableRef) : Json :=
  .object [("id", .natural t.id), ("schema", .string t.schema), ("name", .string t.name)]

def ofJson? (j : Json) : Option TableRef := do
  let ms ← j.members? ["id", "schema", "name"]
  return ⟨← Json.member? "id" Json.natural? ms, ← Json.member? "schema" Json.text? ms,
    ← Json.member? "name" Json.text? ms⟩

end TableRef

namespace ColumnSet

def toJson (s : ColumnSet) : Json := .array (s.columns.map Json.natural)
def ofJson? (j : Json) : Option ColumnSet := (j.list? Json.natural?).map ofList

end ColumnSet

namespace AggregateFunction

def toJson : AggregateFunction → Json
  | count => .string "Count"
  | sum => .string "Sum"
  | sum0 => .string "Sum0"
  | min => .string "Min"
  | max => .string "Max"
  | avg => .string "Avg"
  | boolAnd => .string "BoolAnd"
  | boolOr => .string "BoolOr"
  | anyValue => .string "AnyValue"
  | user name => .object [("UserDefined", .string name)]

def ofJson? (j : Json) : Option AggregateFunction := do
  let (tag, content) ← j.tagged?
  match tag, content with
  | "Count", .null => some count
  | "Sum", .null => some sum
  | "Sum0", .null => some sum0
  | "Min", .null => some min
  | "Max", .null => some max
  | "Avg", .null => some avg
  | "BoolAnd", .null => some boolAnd
  | "BoolOr", .null => some boolOr
  | "AnyValue", .null => some anyValue
  | "UserDefined", .string name => some (user name)
  | _, _ => none

end AggregateFunction

private def optionalNatural (n : Option Nat) : Json := n.elim .null .natural

namespace AggregateCall

def toJson (c : AggregateCall) : Json :=
  .object [("function", c.function.toJson), ("args", .array (c.args.map Json.natural)),
    ("filter_arg", optionalNatural c.filter), ("name", .string c.name), ("ty", c.type.toJson)]

def ofJson? (j : Json) : Option AggregateCall := do
  let ms ← j.members? ["function", "args", "filter_arg", "name", "ty"]
  return {
    function := ← Json.member? "function" AggregateFunction.ofJson? ms
    args := ← Json.member? "args" (Json.list? Json.natural?) ms
    filter := ← Json.memberOr? "filter_arg" none (Json.optional? Json.natural?) ms
    name := ← Json.member? "name" Json.text? ms
    type := ← Json.member? "ty" SqlType.ofJson? ms }

end AggregateCall

namespace SortKey

def toJson (k : SortKey) : Json :=
  .object [("field", .natural k.column), ("direction", .string k.direction.name),
    ("nulls", .string k.nulls.name)]

private def direction? : String → Option Direction
  | "Ascending" => some .ascending
  | "Descending" => some .descending
  | _ => none

private def placement? : String → Option NullPlacement
  | "First" => some .first
  | "Last" => some .last
  | _ => none

def ofJson? (j : Json) : Option SortKey := do
  let ms ← j.members? ["field", "direction", "nulls"]
  return ⟨← Json.member? "field" Json.natural? ms,
    ← Json.member? "direction" (Json.named? direction?) ms,
    ← Json.member? "nulls" (Json.named? placement?) ms⟩

end SortKey

namespace Distribution

def toJson (d : Distribution) : Json :=
  .object [("kind", .string d.spread.name), ("keys", .array (d.keys.map Json.natural)),
    ("partitions", optionalNatural d.partitions)]

def ofJson? (j : Json) : Option Distribution := do
  let ms ← j.members? ["kind", "keys", "partitions"]
  return {
    spread := ← Json.member? "kind" (Json.named? Spread.ofName?) ms
    keys := ← Json.memberOr? "keys" [] (Json.list? Json.natural?) ms
    partitions := ← Json.memberOr? "partitions" none (Json.optional? Json.natural?) ms }

end Distribution

namespace Plan

private def nodeJson (id : Nat) (tag : String) (members : List (String × Json)) : Json :=
  .object [("id", .natural id), ("op", .object [(tag, .object members)])]

mutual
def toJson : Plan → Json
  | scan id table shape notes =>
    nodeJson id "Scan" [("table", table.toJson), ("row_shape", Schema.toJson shape notes)]
  | values id rows shape notes =>
    nodeJson id "Values" [("rows", .array (rows.map fun r => .array (r.map Value.toJson))),
      ("row_shape", Schema.toJson shape notes)]
  | filter id input e => nodeJson id "Filter" [("input", input.toJson), ("predicate", e.toJson)]
  | project id input columns =>
    nodeJson id "Project" [("input", input.toJson),
      ("exprs", .array (columns.map (·.expr.toJson))),
      ("names", .array (columns.map fun c => .string c.name))]
  | aggregate id input sets calls indicator =>
    nodeJson id "Aggregate" [("input", input.toJson),
      ("grouping_sets", .array (sets.map ColumnSet.toJson)),
      ("calls", .array (calls.map AggregateCall.toJson)), ("indicator", .bool indicator)]
  | join id left right e type =>
    nodeJson id "Join" [("left", left.toJson), ("right", right.toJson), ("condition", e.toJson),
      ("join_type", .string type.name)]
  | setOp id op inputs all =>
    nodeJson id op.kind.name [("inputs", .array (toJsons inputs)), ("all", .bool all)]
  | sort id input collation offset fetch =>
    nodeJson id "Sort" [("input", input.toJson), ("collation", .array (collation.map SortKey.toJson)),
      ("offset", optionalNatural offset), ("fetch", optionalNatural fetch)]
  | exchange id input distribution =>
    nodeJson id "Exchange" [("input", input.toJson), ("distribution", distribution.toJson)]
  | other id name inputs =>
    nodeJson id "Other" [("name", .string name), ("inputs", .array (toJsons inputs))]

def toJsons : List Plan → List Json
  | [] => []
  | p :: rest => p.toJson :: toJsons rest
end

inductive Slot
  | input
  | inputs
  | plain (isReadable : Json → Bool)

private def reads {α : Type} (read : Json → Option α) : Slot := .plain fun j => (read j).isSome

/-- The members of an operator, in the order in which a list gives them. -/
def slots : String → List (String × Slot)
  | "Scan" => [("table", reads TableRef.ofJson?), ("row_shape", reads Schema.ofJson?)]
  | "Values" =>
    [("rows", reads (Json.list? (Json.list? Value.ofJson?))), ("row_shape", reads Schema.ofJson?)]
  | "Filter" => [("input", .input), ("predicate", reads Expr.ofJson?)]
  | "Project" =>
    [("input", .input), ("exprs", reads (Json.list? Expr.ofJson?)),
      ("names", reads (Json.list? Json.text?))]
  | "Aggregate" =>
    [("input", .input), ("grouping_sets", reads (Json.list? ColumnSet.ofJson?)),
      ("calls", reads (Json.list? AggregateCall.ofJson?)), ("indicator", reads Json.bool?)]
  | "Join" =>
    [("left", .input), ("right", .input), ("condition", reads Expr.ofJson?),
      ("join_type", reads (Json.named? JoinType.ofName?))]
  | "Union" | "Intersect" | "Minus" => [("inputs", .inputs), ("all", reads Json.bool?)]
  | "Sort" =>
    [("input", .input), ("collation", reads (Json.list? SortKey.ofJson?)),
      ("offset", reads (Json.optional? Json.natural?)),
      ("fetch", reads (Json.optional? Json.natural?))]
  | "Exchange" => [("input", .input), ("distribution", reads Distribution.ofJson?)]
  | "Other" => [("name", reads Json.text?), ("inputs", .inputs)]
  | _ => []

structure Members where
  plans : List (String × Plan) := []
  lists : List (String × List Plan) := []
  plain : List (String × Json) := []

namespace Members

def has (m : Members) (key : String) : Bool :=
  (m.plans.lookup key).isSome || (m.lists.lookup key).isSome || (m.plain.lookup key).isSome

def take (m : Members) (tag key : String) (j : Json) (plan : Unit → Except ShapeFault Plan)
    (plans : Unit → Except ShapeFault (List Plan)) : Except ShapeFault Members := do
  if m.has key then throw .unreadable
  match (slots tag).lookup key with
  | some .input => return { m with plans := (key, ← plan ()) :: m.plans }
  | some .inputs => return { m with lists := (key, ← plans ()) :: m.lists }
  | some (.plain isReadable) =>
    if j.intact && isReadable j then return { m with plain := (key, j) :: m.plain }
    else throw .unreadable
  | none => if j.intact then return m else throw .unreadable

end Members

def Members.operator? (m : Members) (tag : String) : Option (Nat → Except ShapeFault Plan) := do
  let input (key : String) := m.plans.lookup key
  let inputs := m.lists.lookup "inputs"
  let all := Json.member? "all" Json.bool? m.plain
  match tag with
  | "Scan" =>
    let table ← Json.member? "table" TableRef.ofJson? m.plain
    let (shape, notes) ← Json.member? "row_shape" Schema.ofJson? m.plain
    return fun id => .ok (.scan id table shape notes)
  | "Values" =>
    let rows ← Json.member? "rows" (Json.list? (Json.list? Value.ofJson?)) m.plain
    let (shape, notes) ← Json.member? "row_shape" Schema.ofJson? m.plain
    return fun id => .ok (.values id rows shape notes)
  | "Filter" =>
    let child ← input "input"
    let predicate ← Json.member? "predicate" Expr.ofJson? m.plain
    return fun id => .ok (.filter id child predicate)
  | "Project" =>
    let child ← input "input"
    let exprs ← Json.member? "exprs" (Json.list? Expr.ofJson?) m.plain
    let names ← Json.member? "names" (Json.list? Json.text?) m.plain
    return fun id =>
      if exprs.length = names.length then .ok (.project id child (exprs.zipWith .mk names))
      else .error (.projectNames exprs.length names.length)
  | "Aggregate" =>
    let child ← input "input"
    let sets ← Json.member? "grouping_sets" (Json.list? ColumnSet.ofJson?) m.plain
    let calls ← Json.member? "calls" (Json.list? AggregateCall.ofJson?) m.plain
    let indicator ← Json.memberOr? "indicator" false Json.bool? m.plain
    return fun id => .ok (.aggregate id child sets calls indicator)
  | "Join" =>
    let left ← input "left"
    let right ← input "right"
    let condition ← Json.member? "condition" Expr.ofJson? m.plain
    let type ← Json.member? "join_type" (Json.named? JoinType.ofName?) m.plain
    return fun id => .ok (.join id left right condition type)
  | "Union" => return let (inputs, all) := (← inputs, ← all); fun id => .ok (.setOp id .union inputs all)
  | "Intersect" =>
    return let (inputs, all) := (← inputs, ← all); fun id => .ok (.setOp id .intersect inputs all)
  | "Minus" => return let (inputs, all) := (← inputs, ← all); fun id => .ok (.setOp id .minus inputs all)
  | "Sort" =>
    let child ← input "input"
    let collation ← Json.member? "collation" (Json.list? SortKey.ofJson?) m.plain
    let offset ← Json.memberOr? "offset" none (Json.optional? Json.natural?) m.plain
    let fetch ← Json.memberOr? "fetch" none (Json.optional? Json.natural?) m.plain
    return fun id => .ok (.sort id child collation offset fetch)
  | "Exchange" =>
    let child ← input "input"
    let distribution ← Json.member? "distribution" Distribution.ofJson? m.plain
    return fun id => .ok (.exchange id child distribution)
  | "Other" =>
    let name ← Json.member? "name" Json.text? m.plain
    let inputs ← inputs
    return fun id => .ok (.other id name inputs)
  | _ => none

def Members.operator (m : Members) (tag : String) (rest : List (String × Json)) :
    Except ShapeFault (Nat → Except ShapeFault Plan) :=
  match m.operator? tag, rest with
  | some operator, [] => .ok operator
  | _, _ => .error .unreadable

structure NodeMembers where
  id : Option Nat := none
  operator : Option (Nat → Except ShapeFault Plan) := none

def NodeMembers.plan (m : NodeMembers) : Except ShapeFault Plan :=
  match m.id, m.operator with
  | some id, some make => do
    let p ← (make id).mapError .rejected
    match p.check with
    | .ok () => return p
    | .error (.invalidShape fault) => throw (.rejected fault)
    | .error _ => throw .unreadable
  | _, _ => .error .unreadable

mutual
def ofJson : Json → Except ShapeFault Plan
  | .object fields => do (← nodeMembers {} fields).plan
  | .array (id :: op :: rest) => do
    let some id := id.natural? | throw .unreadable
    let operator ← operatorOfJson op
    if !rest.isEmpty then throw .unreadable
    NodeMembers.plan ⟨some id, some operator⟩
  | _ => .error .unreadable

def nodeMembers (m : NodeMembers) : List (String × Json) → Except ShapeFault NodeMembers
  | [] => .ok m
  | ("id", j) :: rest =>
    match j.natural?, m.id with
    | some id, none => nodeMembers { m with id := some id } rest
    | _, _ => .error .unreadable
  | ("op", j) :: rest => do
    if m.operator.isSome then throw .unreadable
    let operator ← operatorOfJson j
    nodeMembers { m with operator := some operator } rest
  | (_, j) :: rest => if j.intact then nodeMembers m rest else .error .unreadable

def operatorOfJson : Json → Except ShapeFault (Nat → Except ShapeFault Plan)
  | .object ((tag, .object fields) :: rest) => do
    (← operatorMembers tag {} fields).operator tag rest
  | .object ((tag, .array items) :: rest) => do
    (← operatorItems tag ((slots tag).map (·.1)) {} items).operator tag rest
  | _ => .error .unreadable

def operatorMembers (tag : String) (m : Members) :
    List (String × Json) → Except ShapeFault Members
  | [] => .ok m
  | (key, j) :: rest => do
    let m ← m.take tag key j (fun _ => ofJson j) (fun _ => listOfJson j)
    operatorMembers tag m rest

def operatorItems (tag : String) (names : List String) (m : Members) :
    List Json → Except ShapeFault Members
  | [] => .ok m
  | j :: rest =>
    match names with
    | [] => .error .unreadable
    | key :: names => do
      let m ← m.take tag key j (fun _ => ofJson j) (fun _ => listOfJson j)
      operatorItems tag names m rest

def listOfJson : Json → Except ShapeFault (List Plan)
  | .array items => ofJsons items
  | _ => .error .unreadable

def ofJsons : List Json → Except ShapeFault (List Plan)
  | [] => .ok []
  | j :: rest => do return (← ofJson j) :: (← ofJsons rest)
end

def ofSource (source : Json.Source) : Except Error Plan := do
  let p ← (ofJson source.document).mapError .invalidShape
  if !source.intact then throw (.invalidShape .unreadable)
  p.checkIds
  return p

def parse (text : String) : Except Error Plan := ofSource (Json.read text)

def print (p : Plan) : String := p.toJson.prettyText

end Plan
end Relational
