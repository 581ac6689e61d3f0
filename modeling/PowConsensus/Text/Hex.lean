import PowConsensus.Bytes

/-! # Hexadecimal text

Bytes are written as two lower-case digits each. Reading takes the bytes of a text, accepts
digits of either case, and names what is wrong: an odd count of digits before anything else, and
otherwise the first byte that is no digit, with its position.
-/
namespace PowConsensus.Text

def hexDigit (n : Nat) : Char := Nat.digitChar (n % 16)

def hexByte (b : UInt8) : List Char := [hexDigit (b.toNat / 16), hexDigit b.toNat]

def hexChars (bytes : List UInt8) : List Char := bytes.flatMap hexByte

def hex (bytes : List UInt8) : String := String.ofList (hexChars bytes)

/-- Without leading zeros, and `0` for zero. -/
def hexNumber (n : Nat) : String := String.ofList (Nat.toDigits 16 n)

/-- Leading zeros fill up to `width` digits. -/
def hexPadded (width n : Nat) : String :=
  let digits := Nat.toDigits 16 n
  String.ofList (List.replicate (width - digits.length) '0' ++ digits)

/-- The value of an ASCII digit. -/
def hexValue? (b : UInt8) : Option UInt8 :=
  if 0x30 ≤ b ∧ b ≤ 0x39 then some (b - 0x30)
  else if 0x61 ≤ b ∧ b ≤ 0x66 then some (b - 0x57)
  else if 0x41 ≤ b ∧ b ≤ 0x46 then some (b - 0x37)
  else none

inductive HexFault where
  | oddLength
  | badDigit (byte : UInt8) (position : Nat)
  deriving DecidableEq, Repr

/-- Reads pairs of digits; `position` is where the first of them stands. -/
def hexPairs (position : Nat) : List UInt8 → Except HexFault (List UInt8)
  | [] => .ok []
  | [_] => .error .oddLength
  | a :: b :: rest =>
    match hexValue? a, hexValue? b with
    | none, _ => .error (.badDigit a position)
    | some _, none => .error (.badDigit b (position + 1))
    | some x, some y => (hexPairs (position + 2) rest).map ((16 * x + y) :: ·)

def unhex (text : List UInt8) : Except HexFault (List UInt8) :=
  if text.length % 2 = 1 then .error .oddLength else hexPairs 0 text

/-- The bytes of a text in UTF-8. -/
def utf8 (cs : List Char) : List UInt8 := cs.flatMap String.utf8EncodeChar

end PowConsensus.Text
