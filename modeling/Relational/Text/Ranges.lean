/-!
# Sets of characters

Sets given by ranges of code points, both ends included, in increasing order.
-/
namespace Relational.Text

def isBetween (low high : Nat) (c : Char) : Bool := low ≤ c.toNat && c.toNat ≤ high

abbrev Ranges := List (Nat × Nat)

def Ranges.contains : Ranges → Char → Bool
  | [], _ => false
  | (low, high) :: rest, c => low ≤ c.toNat && (c.toNat ≤ high || contains rest c)

end Relational.Text
