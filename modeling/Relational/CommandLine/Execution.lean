import Relational.CommandLine.Command
import Relational.Engine
import Relational.Text.Grid

/-!
# Executing commands

A command reads its configuration, its catalog and its plan, in this order, and answers with a
text or with the error that stopped it.
-/
namespace Relational

namespace PlanShape

def toJson (s : PlanShape) : Json :=
  let partitions := s.partitionValues.map fun (id, vs) => (toString id, Json.strings vs)
  Json.sorted <| .object [("query_name", .string s.queryName), ("tables", Json.strings s.tables),
    ("used_columns", Json.strings (s.used.map (·.2))), ("partition_values", .object partitions)]

end PlanShape

namespace Value

def toReport : Value → Json
  | .null => .null
  | .boolean b => .bool b
  | .int32 n => .integer n.toInt
  | .int64 n => .integer n.toInt
  | .float32 x => .double (x.convert _)
  | .float64 x => .double x
  | .utf8 s => .string s

def cellText : Value → String
  | .null => ""
  | .float32 x => (Decimal.tabular Binary.single).text x
  | .float64 x => (Decimal.tabular Binary.double).text x
  | v => v.text

end Value

namespace Batch

def grid (b : Batch) : Except Error String := do
  let rows ← b.toRows
  return Text.grid (b.schema.map (·.name)) (rows.map fun row => row.map Value.cellText)

def report (b : Batch) : Except Error Json := do
  return .array ((← b.toRows).map fun row => .array (row.map Value.toReport))

end Batch

namespace CommandLine

structure Surroundings where
  env : String → Option String
  file : String → Option String

def Surroundings.read (s : Surroundings) (path : String) : Except Error String :=
  match s.file path with
  | some text => .ok text
  | none => .error .missingFile

def Command.engine (c : Command) (s : Surroundings) : Except Error Engine := do
  let config ← match c.config with
    | some path => Config.parse s.env (← s.read path)
    | none => pure (Config.override s.env {})
  let engine ← Engine.ofConfig config
  match c.catalog with
  | some path =>
    let (loaded, engine) := engine.load (← s.read path)
    let _ ← loaded
    return engine
  | none => return engine

def Command.execute (c : Command) (s : Surroundings) : Except Error String := do
  let engine ← c.engine s
  let plan ← Plan.parse (← s.read c.plan)
  match c.verb, c.format with
  | .explain, _ => return plan.explain
  | .analyze, _ => return (engine.shape plan).toJson.prettyText ++ "\n"
  | .metadata, _ => engine.annotated plan
  | .run, .table => return (← (← (engine.collectBatch plan).1).grid) ++ "\n"
  | .run, .json => return (← (← (engine.collectBatch plan).1).report).prettyText ++ "\n"

inductive Outcome
  | printed (text : String)
  | refused (refusal : Refusal)
  | failed (error : Error)

namespace Outcome

def exitCode : Outcome → UInt8
  | printed _ | refused .help | refused .version => 0
  | failed _ => 1
  | refused .misuse => 2

def output : Outcome → String
  | printed text => text
  | refused .version => "quarry 0.1.0\n"
  | _ => ""

def complaint : Outcome → String
  | failed e => "Error: " ++ e.message ++ "\n"
  | refused .misuse | refused .help =>
    "Usage: [--config FILE] explain|analyze|metadata|run [--catalog FILE] --plan FILE\n"
  | _ => ""

end Outcome

def outcome (s : Surroundings) : Except Refusal Command → Outcome
  | .error refusal => .refused refusal
  | .ok command =>
    match command.execute s with
    | .ok text => .printed text
    | .error e => .failed e

def answer (s : Surroundings) (args : List String) : Outcome :=
  outcome s (Command.ofArguments (s.env configVariable) args)

end CommandLine
end Relational
