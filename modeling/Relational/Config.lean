import Relational.Decimal.Reader
import Relational.Error
import Relational.Integer
import Relational.Json.Decode
import Relational.Json.Reader
import Relational.Text.Blank

/-!
# Configuration

Defaults, overridden first by a document and then by the environment.
-/
namespace Relational

structure Config where
  channelCapacity : Nat := 64
  scanRows : Binary64 := 100
  splits : Nat := 4
  cachesMetadata : Bool := true

namespace Config

def check (c : Config) : Except Error Unit := do
  if c.channelCapacity = 0 then throw (.invalidConfig .noCapacity)
  if !c.scanRows.isFinite || c.scanRows.lt 0 then throw (.invalidConfig (.scanRows c.scanRows))
  if c.splits = 0 then throw (.invalidConfig .noSplits)

def switch? (s : String) : Option Bool :=
  match Text.lower (Text.trim s) with
  | "1" | "true" | "yes" | "on" => some true
  | "0" | "false" | "no" | "off" => some false
  | _ => none

def variableNames : List String :=
  ["QUARRY_CHANNEL_CAPACITY", "QUARRY_DEFAULT_SCAN_ROWS", "QUARRY_DEFAULT_SPLIT_COUNT",
    "QUARRY_METADATA_CACHE"]

/-- A variable that cannot be read is ignored, one out of range is moved to its bound. -/
def override (env : String → Option String) (c : Config) : Config :=
  let positive (name : String) (default : Nat) : Nat :=
    (((env name).bind (Decimal.readNat? (Integer.wordCount - 1))).map (max 1)).getD default
  let rows := (env "QUARRY_DEFAULT_SCAN_ROWS").bind (Decimal.readWord? Binary.double)
  { channelCapacity := positive "QUARRY_CHANNEL_CAPACITY" c.channelCapacity
    scanRows := ((rows.filter (·.isFinite)).map (Binary.Word.greatest 0)).getD c.scanRows
    splits := positive "QUARRY_DEFAULT_SPLIT_COUNT" c.splits
    cachesMetadata := ((env "QUARRY_METADATA_CACHE").bind switch?).getD c.cachesMetadata }

def ofJson? (j : Json) : Option Config := do
  let ms ← j.members? ["channel_capacity", "default_scan_row_count", "default_split_count",
    "metadata_cache_enabled"]
  let d : Config := {}
  return ⟨← Json.memberOr? "channel_capacity" d.channelCapacity Json.natural? ms,
    ← Json.memberOr? "default_scan_row_count" d.scanRows Json.float64? ms,
    ← Json.memberOr? "default_split_count" d.splits Json.natural? ms,
    ← Json.memberOr? "metadata_cache_enabled" d.cachesMetadata Json.bool? ms⟩

def parse (env : String → Option String) (text : String) : Except Error Config := do
  let source := Json.read text
  match ofJson? source.document with
  | some c =>
    if !source.intact then throw (.invalidConfig .unreadable)
    let c := c.override env
    c.check
    return c
  | none => throw (.invalidConfig .unreadable)

end Config
end Relational
