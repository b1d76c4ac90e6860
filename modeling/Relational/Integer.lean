/-!
# Machine integers

The bounds of machine integers, and the integers within them.
-/
namespace Relational.Integer

def least32 : Int := -2147483648
def greatest32 : Int := 2147483647
def least64 : Int := -9223372036854775808
def greatest64 : Int := 9223372036854775807

def wordCount : Nat := 18446744073709551616

def int8? (n : Int) : Option Int8 := if -128 ≤ n ∧ n ≤ 127 then some (.ofInt n) else none

def uint8? (n : Int) : Option UInt8 := if 0 ≤ n ∧ n ≤ 255 then some (.ofNat n.toNat) else none

def int32? (n : Int) : Option Int32 :=
  if least32 ≤ n ∧ n ≤ greatest32 then some (.ofInt n) else none

def int64? (n : Int) : Option Int64 :=
  if least64 ≤ n ∧ n ≤ greatest64 then some (.ofInt n) else none

def word? (n : Int) : Option Nat := if 0 ≤ n ∧ n < wordCount then some n.toNat else none

end Relational.Integer
