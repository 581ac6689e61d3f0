import PowConsensus.Text.Hex
import PowConsensus.Text.Quoted

/-! # Text that is safe to show in a terminal

Characters that begin a command to a terminal are written by their code, so that a text of unknown
origin can be shown. Other characters, line breaks among them, stand for themselves.
-/
namespace PowConsensus.Text

/-- Bell, backspace, form feed, escape and delete. -/
def commandCodes : List Nat := [0x07, 0x08, 0x0c, 0x1b, 0x7f]

/-- The commands of one byte above ASCII. -/
def isHighCommand (c : Char) : Bool := 0x80 ≤ c.toNat && c.toNat ≤ 0x9f

def inert (c : Char) : List Char :=
  if c.toNat ∈ commandCodes then '\\' :: 'x' :: hexByte (UInt8.ofNat c.toNat)
  else if isHighCommand c then codePoint c
  else [c]

def terminalSafe (text : String) : String := String.ofList (text.toList.flatMap inert)

end PowConsensus.Text
