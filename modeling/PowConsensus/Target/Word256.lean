import PowConsensus.Power

/-! # Arithmetic on 256-bit words

Targets are natural numbers, and difficulty rules compute with them as a machine with unsigned
256-bit words would: sums, differences and products wrap modulo `2 ^ 256`.
-/
namespace PowConsensus

abbrev wordModulus : Nat := 2 ^ 256

def wrapAdd (a b : Nat) : Nat := (a + b) % wordModulus

/-- For operands below the modulus; a negative difference wraps once. -/
def wrapSub (a b : Nat) : Nat := if b ≤ a then a - b else wordModulus - (b - a)

def wrapMul (a m : Nat) : Nat := (a * m) % wordModulus

theorem wrapAdd_lt (a b : Nat) : wrapAdd a b < wordModulus := Nat.mod_lt _ (by decide)

end PowConsensus
