import PowConsensus.Text.Blank
import PowConsensus.Text.Hex
import PowConsensus.Text.Quoted

/-! # Digests

A digest is thirty-two bytes. As a number its first byte is the least significant; as text it
is the bytes in reverse order, so that the text reads like the number. `Digest.parse` accepts
surrounding white space and one leading `0x` or `0X`.
-/
namespace PowConsensus

structure Digest where
  bytes : List UInt8
  length_bytes : bytes.length = 32
  deriving DecidableEq

namespace Digest

@[ext] theorem ext {a b : Digest} (h : a.bytes = b.bytes) : a = b := by
  cases a; cases b; simp_all

def zero : Digest := ⟨List.replicate 32 0, by simp⟩

instance : Inhabited Digest := ⟨zero⟩

def toNat (d : Digest) : Nat := ofLittleEndian d.bytes

/-- The order of the bytes, first byte first; it is not the order of the numbers. -/
instance : Ord Digest := ⟨fun a b => compare a.bytes b.bytes⟩

def chars (d : Digest) : List Char := Text.hexChars d.bytes.reverse

def text (d : Digest) : String := String.ofList d.chars

inductive Fault where
  | badHex (text : String) (fault : Text.HexFault)
  | badLength (length : Nat)
  deriving DecidableEq, Repr

/-- Without one leading `0x` or `0X`. -/
def bare : List Char → List Char
  | '0' :: 'x' :: rest => rest
  | '0' :: 'X' :: rest => rest
  | cs => cs

def parse (text : String) : Except Fault Digest :=
  match Text.unhex (Text.utf8 (bare (Text.trim text.toList))) with
  | .error fault => .error (.badHex text fault)
  | .ok bytes =>
    if h : bytes.length = 32 then .ok ⟨bytes.reverse, by simpa using h⟩
    else .error (.badLength bytes.length)

def Fault.message : Fault → String
  | .badHex text .oddLength => s!"invalid hash hex '{text}': Odd number of digits"
  | .badHex text (.badDigit byte position) =>
    let character := Text.quotedChar (Char.ofNat byte.toNat)
    s!"invalid hash hex '{text}': Invalid character {character} at position {position}"
  | .badLength length => s!"hash must be 32 bytes, got {length}"

/-- The digest that reads as the number, modulo `2 ^ 256`. -/
def ofNat (n : Nat) : Digest := ⟨littleEndian 32 n, by simp⟩

theorem toNat_ofNat (n : Nat) : (ofNat n).toNat = n % 2 ^ 256 :=
  ofLittleEndian_littleEndian 32 n

end Digest

abbrev HashFunction := List UInt8 → Digest

end PowConsensus
