import PowConsensus.Bytes

/-! # Script numbers

Integers inside scripts are written by magnitude, low byte first, in as few bytes as leave the top
bit of the last byte free for the sign; zero takes no bytes.
-/
namespace PowConsensus.ScriptNumber

/-- The bytes of a magnitude, without leading zeros; none for zero. -/
def magnitudeBytes (n : Nat) : List UInt8 :=
  if n = 0 then [] else UInt8.ofNat (n % 256) :: magnitudeBytes (n / 256)
termination_by n
decreasing_by omega

/-- Marks the sign in the last byte, or in one more byte if the last one has no room. -/
def signed (negative : Bool) : List UInt8 → List UInt8
  | [] => []
  | [b] =>
    if b < 0x80 then [if negative then b ||| 0x80 else b]
    else [b, if negative then 0x80 else 0]
  | b :: rest => b :: signed negative rest

def bytes (n : Int) : List UInt8 := signed (n < 0) (magnitudeBytes n.natAbs)

/-- The number that bytes denote: the top bit of the last byte is the sign. -/
def denoted : List UInt8 → Int
  | [] => 0
  | [b] => if b < 0x80 then b.toNat else -((b.toNat : Int) - 0x80)
  | b :: rest =>
    let high := denoted rest
    let negative := (rest.getLastD 0) ≥ 0x80
    if negative then 256 * high - b.toNat else 256 * high + b.toNat

end PowConsensus.ScriptNumber
