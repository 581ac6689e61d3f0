import PowConsensus.Target.Word256
import PowConsensus.Text.Hex

/-! # Compact targets

Thirty-two bits stand for a target: the top byte is a size in bytes, the low twenty-three bits are
the leading digits in base 256, and the bit between them is a sign. `magnitude` is the number
denoted, of any size; `decode` keeps it modulo `2 ^ 256` and says whether it is negative or too
large. `encode` keeps the three leading bytes of a target.
-/
namespace PowConsensus

structure CompactTarget where
  bits : UInt32
  deriving DecidableEq, Repr, Inhabited

namespace CompactTarget

def size (c : CompactTarget) : Nat := c.bits.toNat / 2 ^ 24

def mantissa (c : CompactTarget) : Nat := c.bits.toNat % 2 ^ 23

def signBit (c : CompactTarget) : Bool := c.bits.toNat / 2 ^ 23 % 2 == 1

/-- The exact number denoted, without its sign. -/
def magnitude (c : CompactTarget) : Nat := c.mantissa * 256 ^ c.size / 256 ^ 3

structure Decoded where
  value : Nat
  negative : Bool
  overflow : Bool
  deriving DecidableEq, Repr

def decode (c : CompactTarget) : Decoded where
  value :=
    if c.size ≤ 3 then c.mantissa / 256 ^ (3 - c.size)
    else c.mantissa * 256 ^ (c.size - 3) % wordModulus
  negative := c.mantissa ≠ 0 ∧ c.signBit
  overflow := c.mantissa ≠ 0 ∧
    (c.size > 34 ∨ (c.mantissa > 0xff ∧ c.size > 33) ∨ (c.mantissa > 0xffff ∧ c.size > 32))

def target (c : CompactTarget) : Nat := c.decode.value

theorem mantissa_lt (c : CompactTarget) : c.mantissa < 2 ^ 23 := Nat.mod_lt _ (by decide)

theorem target_lt (c : CompactTarget) : c.target < wordModulus := by
  show c.decode.value < wordModulus
  simp only [decode]
  split
  · have h := c.mantissa_lt
    have := Nat.div_le_self c.mantissa (256 ^ (3 - c.size))
    simp only [wordModulus]
    omega
  · exact Nat.mod_lt _ (by decide)

/-- How many bytes a positive number takes. -/
def byteLength (n : Nat) : Nat := (Nat.log2 n + 8) / 8

/-- Leading three bytes of a positive target, with zeros below if it has fewer. -/
def leadingWord (target : Nat) : Nat :=
  let size := byteLength target
  if size ≤ 3 then target * 256 ^ (3 - size) else target / 256 ^ (size - 3)

/-- A leading byte that would set the sign bit moves one byte into the size. The size byte keeps
its low eight bits. -/
def encode (target : Nat) : CompactTarget :=
  if target = 0 then ⟨0⟩
  else
    let word := leadingWord target
    let size := byteLength target
    if word < 2 ^ 23 then ⟨UInt32.ofNat (word + size * 2 ^ 24)⟩
    else ⟨UInt32.ofNat (word / 256 + (size + 1) * 2 ^ 24)⟩

/-- Eight hexadecimal digits. -/
def text (c : CompactTarget) : String := Text.hexPadded 8 c.bits.toNat

end CompactTarget
end PowConsensus
