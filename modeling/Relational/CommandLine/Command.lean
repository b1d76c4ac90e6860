/-!
# Commands

The commands of the program and their options. Options are written `--name value` or
`--name=value`, each at most once; `--config` may also stand before the command. Arguments are
read from left to right, and the first one that cannot be understood decides. In a group of
single letters the first letter decides.
-/
namespace Relational.CommandLine

inductive OutputFormat
  | table | json
  deriving DecidableEq

def OutputFormat.ofName? : String → Option OutputFormat
  | "table" => some table
  | "json" => some json
  | _ => none

inductive Verb
  | explain | analyze | metadata | run
  deriving DecidableEq

def Verb.ofName? : String → Option Verb
  | "explain" => some explain
  | "analyze" => some analyze
  | "metadata" => some metadata
  | "run" => some run
  | _ => none

inductive Parameter
  | config | catalog | plan | format
  deriving DecidableEq

namespace Parameter

def ofName? (verb : Option Verb) (name : String) : Option Parameter :=
  match name, verb with
  | "config", _ => some config
  | "catalog", some _ => some catalog
  | "plan", some _ => some plan
  | "format", some .run => some format
  | _, _ => none

def accepts (p : Parameter) (value : String) : Bool :=
  match p with
  | format => (OutputFormat.ofName? value).isSome
  | _ => value != ""

end Parameter

inductive Refusal
  | misuse | help | version
  deriving DecidableEq

abbrev Values := List (Parameter × String)

structure Draft where
  verb : Option Verb := none
  leading : Values := []
  given : Values := []

namespace Draft

def set (d : Draft) (p : Parameter) (value : String) : Except Refusal Draft :=
  let known := if d.verb.isSome then d.given else d.leading
  if !p.accepts value || known.any (·.1 == p) then .error .misuse
  else if d.verb.isSome then .ok { d with given := (p, value) :: d.given }
  else .ok { d with leading := (p, value) :: d.leading }

def word (d : Draft) (arg : String) : Except Refusal Draft :=
  match d.verb, Verb.ofName? arg with
  | none, some verb => .ok { d with verb }
  | _, _ => .error .misuse

end Draft

def splitOption (option : String) : String × Option String :=
  match option.splitOn "=" with
  | [] | [_] => (option, none)
  | name :: rest => (name, some ("=".intercalate rest))

def isValue (arg : String) : Bool := !arg.startsWith "-" || arg = "-"

def isHelpTopic : List String → Bool
  | [] => true
  | [name] | ["help", name] => name = "help" || (Verb.ofName? name).isSome
  | _ => false

def readArguments (d : Draft) : List String → Except Refusal Draft
  | [] => .ok d
  | ["--"] => .ok d
  | "--" :: _ :: _ => .error .misuse
  | "--help" :: _ => .error .help
  | arg :: rest =>
    if arg = "help" && d.verb.isNone then .error (if isHelpTopic rest then .help else .misuse)
    else if isValue arg then do readArguments (← d.word arg) rest
    else if arg.startsWith "-h" then .error .help
    else if d.verb.isNone && (arg = "--version" || arg.startsWith "-V") then .error .version
    else if !arg.startsWith "--" then .error .misuse
    else
      let (name, value) := splitOption (String.ofList (arg.toList.drop 2))
      match Parameter.ofName? d.verb name, value, rest with
      | some p, some value, rest => do readArguments (← d.set p value) rest
      | some p, none, value :: rest =>
        if isValue value then do readArguments (← d.set p value) rest else .error .misuse
      | _, _, _ => .error .misuse

structure Command where
  verb : Verb
  plan : String
  catalog : Option String
  config : Option String
  format : OutputFormat

def Command.files (c : Command) : List String := c.config.toList ++ c.catalog.toList ++ [c.plan]

def configVariable : String := "QUARRY_CONFIG"

/-- The command that the arguments give; `config` is used where they name no configuration, before
the verb or after it, and must not be empty then. -/
def Command.ofArguments (config : Option String) (args : List String) :
    Except Refusal Command := do
  let d ← readArguments {} args
  let leading := d.leading.lookup .config
  let given := d.given.lookup .config
  if config = some "" && (leading.isNone || given.isNone) then throw .misuse
  match d.verb, d.given.lookup .plan with
  | some verb, some plan =>
    return {
      verb, plan
      catalog := d.given.lookup .catalog
      config := (given.or leading).or config
      format := ((d.given.lookup .format).bind OutputFormat.ofName?).getD .table }
  | _, _ => throw .misuse

end Relational.CommandLine
