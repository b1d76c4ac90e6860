import Relational.Error
import Relational.Text.Blank

/-!
# User-defined aggregates

An aggregate folds values into a state value; beside it an instance may keep values of its own.
A registry knows aggregates by name, without regard to case.
-/
namespace Relational

structure UserAggregate where
  init : Except Error Value
  add : List Value → Value → Value → Except Error (List Value × Value)
  result : List Value → Value → Except Error Value

namespace UserAggregate

def fold (init : Value) (add : Value → Value → Except Error Value) : UserAggregate where
  init := .ok init
  add kept state v := do return (kept, ← add state v)
  result _ state := .ok state

def run (a : UserAggregate) (values : List Value) : Except Error Value := do
  let start ← a.init
  let (kept, state) ← values.foldlM (fun (kept, state) v => a.add kept state v) ([], start)
  a.result kept state

structure Entry where
  aggregate : UserAggregate
  nullWhenEmpty : Bool

structure Registry where
  entries : List (String × Entry) := []

namespace Registry

def find? (r : Registry) (name : String) : Option Entry := r.entries.lookup (Text.lower name)

def remove (r : Registry) (name : String) : Registry :=
  ⟨r.entries.filter (·.1 != Text.lower name)⟩

def register (r : Registry) (name : String) (entry : Entry) : Registry :=
  ⟨(Text.lower name, entry) :: (r.remove name).entries⟩

def names (r : Registry) : List String :=
  (r.entries.map (·.1)).mergeSort fun a b => !(b < a)

end Registry
end UserAggregate
end Relational
