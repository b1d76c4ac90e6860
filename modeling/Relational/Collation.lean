/-!
# Physical traits

The order in which a node emits its rows, and how it spreads them over partitions.
-/
namespace Relational

inductive Direction
  | ascending | descending
  deriving DecidableEq

inductive NullPlacement
  | first | last
  deriving DecidableEq

def Direction.name : Direction → String
  | ascending => "Ascending"
  | descending => "Descending"

def NullPlacement.name : NullPlacement → String
  | first => "First"
  | last => "Last"

structure SortKey where
  column : Nat
  direction : Direction
  nulls : NullPlacement
  deriving DecidableEq

abbrev Collation := List SortKey

namespace SortKey

def text (k : SortKey) : String :=
  let direction := match k.direction with | .ascending => "ASC" | .descending => "DESC"
  let nulls := match k.nulls with | .first => "NULLS FIRST" | .last => "NULLS LAST"
  s!"${k.column} {direction} {nulls}"

end SortKey

namespace Collation

/-- The collation in renumbered columns, up to the first column that has no new number. -/
def remap (f : Nat → Option Nat) : Collation → Collation
  | [] => []
  | k :: rest => match f k.column with
    | some column => { k with column } :: remap f rest
    | none => []

def text (c : Collation) : String := "[" ++ ", ".intercalate (c.map SortKey.text) ++ "]"

end Collation

inductive Spread
  | singleton | hash | range | random | roundRobin | broadcast | any
  deriving DecidableEq

namespace Spread

def all : List Spread := [singleton, hash, range, random, roundRobin, broadcast, any]

def name : Spread → String
  | singleton => "Singleton"
  | hash => "Hash"
  | range => "Range"
  | random => "Random"
  | roundRobin => "RoundRobin"
  | broadcast => "Broadcast"
  | any => "Any"

def shortName : Spread → String
  | singleton => "single"
  | hash => "hash"
  | range => "range"
  | random => "random"
  | roundRobin => "rr"
  | broadcast => "broadcast"
  | any => "any"

def ofName? (s : String) : Option Spread := all.find? (·.name == s)

theorem ofName?_name (k : Spread) : ofName? k.name = some k := by cases k <;> decide

end Spread

structure Distribution where
  spread : Spread
  keys : List Nat := []
  partitions : Option Nat := none
  deriving DecidableEq

namespace Distribution

def text (d : Distribution) : String :=
  let keys := ", ".intercalate (d.keys.map fun k => s!"${k}")
  d.spread.shortName ++ (if d.keys.isEmpty then "" else "[" ++ keys ++ "]")
    ++ (d.partitions.elim "" fun n => s!" x{n}")

end Distribution
end Relational
