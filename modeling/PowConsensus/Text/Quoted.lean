import PowConsensus.Text.Hidden

/-! # Quoted text

A text between quotes in which every character can be seen: the quote and the backslash stand
after a backslash, four control characters have a letter, and a hidden character is written by
its code point.
-/
namespace PowConsensus.Text

def codePoint (c : Char) : List Char :=
  ['\\', 'u', '\x7b'] ++ Nat.toDigits 16 c.toNat ++ ['\x7d']

/-- One character of a text in the given quotes. -/
def escaped (quote c : Char) : List Char :=
  if c = '\x00' then ['\\', '0']
  else if c = '\t' then ['\\', 't']
  else if c = '\r' then ['\\', 'r']
  else if c = '\n' then ['\\', 'n']
  else if c = '\\' ∨ c = quote then ['\\', c]
  else if isHidden c then codePoint c
  else [c]

def quotedChar (c : Char) : String := String.ofList ('\'' :: (escaped '\'' c ++ ['\'']))

def quoted (text : String) : String :=
  String.ofList ('"' :: (text.toList.flatMap (escaped '"') ++ ['"']))

end PowConsensus.Text
