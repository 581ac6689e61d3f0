/-! # JSON tokens

A text is cut into tokens: punctuation, the three names, number literals as written, and strings
as lists of parts. A part is a character or a 16-bit unit written as an escape; whether the units
make sense together is asked only of strings that are read.
-/
namespace PowConsensus.Json

inductive Part where
  | char (c : Char)
  | unit (n : Nat)
  deriving DecidableEq, Repr

inductive Token where
  | openBrace
  | closeBrace
  | openBracket
  | closeBracket
  | comma
  | colon
  | null
  | bool (b : Bool)
  | number (literal : List Char)
  | text (parts : List Part)
  deriving DecidableEq, Repr

def isBlank (c : Char) : Bool := c = ' ' ∨ c = '\n' ∨ c = '\t' ∨ c = '\r'

def hexUnit? (c : Char) : Option Nat :=
  if c.isDigit then some (c.toNat - '0'.toNat)
  else if 'a' ≤ c ∧ c ≤ 'f' then some (c.toNat - 'a'.toNat + 10)
  else if 'A' ≤ c ∧ c ≤ 'F' then some (c.toNat - 'A'.toNat + 10)
  else none

/-- The number that hexadecimal digits spell. -/
def hexUnits? (cs : List Char) : Option Nat :=
  cs.foldlM (fun n c => (hexUnit? c).map (16 * n + ·)) 0

/-- The character that a backslash and a letter stand for. -/
def escape? : Char → Option Char
  | '"' => some '"'
  | '\\' => some '\\'
  | '/' => some '/'
  | 'b' => some '\x08'
  | 'f' => some '\x0c'
  | 'n' => some '\n'
  | 'r' => some '\r'
  | 't' => some '\t'
  | _ => none

/-- The parts of a string up to its closing quote, and what follows. -/
def scanString : List Char → Option (List Part × List Char)
  | [] => none
  | '"' :: rest => some ([], rest)
  | '\\' :: 'u' :: a :: b :: c :: d :: rest => do
    let n ← hexUnits? [a, b, c, d]
    let (parts, rest) ← scanString rest
    some (.unit n :: parts, rest)
  | '\\' :: e :: rest => do
    let c ← escape? e
    let (parts, rest) ← scanString rest
    some (.char c :: parts, rest)
  | c :: rest =>
    if c.toNat < 0x20 then none
    else do
      let (parts, rest) ← scanString rest
      some (.char c :: parts, rest)

/-- A run of at least one digit. -/
def scanDigits (cs : List Char) : Option (List Char × List Char) :=
  let digits := cs.takeWhile Char.isDigit
  if digits = [] then none else some (digits, cs.dropWhile Char.isDigit)

/-- Digits without a leading zero. -/
def scanWhole (cs : List Char) : Option (List Char × List Char) := do
  let (digits, rest) ← scanDigits cs
  if digits.head? = some '0' ∧ digits ≠ ['0'] then none else some (digits, rest)

def scanFraction : List Char → Option (List Char × List Char)
  | '.' :: rest => do
    let (digits, rest) ← scanDigits rest
    some ('.' :: digits, rest)
  | cs => some ([], cs)

def scanSign : List Char → List Char × List Char
  | '+' :: rest => (['+'], rest)
  | '-' :: rest => (['-'], rest)
  | cs => ([], cs)

def scanExponent : List Char → Option (List Char × List Char)
  | c :: rest =>
    if c = 'e' ∨ c = 'E' then do
      let (sign, rest) := scanSign rest
      let (digits, rest) ← scanDigits rest
      some (c :: (sign ++ digits), rest)
    else some ([], c :: rest)
  | [] => some ([], [])

def scanMinus : List Char → List Char × List Char
  | '-' :: rest => (['-'], rest)
  | cs => ([], cs)

def scanNumber (cs : List Char) : Option (List Char × List Char) := do
  let (sign, cs) := scanMinus cs
  let (whole, cs) ← scanWhole cs
  let (fraction, cs) ← scanFraction cs
  let (exponent, cs) ← scanExponent cs
  some (sign ++ whole ++ fraction ++ exponent, cs)

namespace Token

/-- The token at the start of a text, and what follows. -/
def scan : List Char → Option (Token × List Char)
  | '\x7b' :: rest => some (.openBrace, rest)
  | '\x7d' :: rest => some (.closeBrace, rest)
  | '[' :: rest => some (.openBracket, rest)
  | ']' :: rest => some (.closeBracket, rest)
  | ',' :: rest => some (.comma, rest)
  | ':' :: rest => some (.colon, rest)
  | 'n' :: 'u' :: 'l' :: 'l' :: rest => some (.null, rest)
  | 't' :: 'r' :: 'u' :: 'e' :: rest => some (.bool true, rest)
  | 'f' :: 'a' :: 'l' :: 's' :: 'e' :: rest => some (.bool false, rest)
  | '"' :: rest => (scanString rest).map fun s => (.text s.1, s.2)
  | cs => (scanNumber cs).map fun s => (.number s.1, s.2)

/-- All tokens; every token takes at least one character, so the length is fuel enough. -/
def scanAll : Nat → List Char → Option (List Token)
  | fuel, cs =>
    match fuel, cs.dropWhile isBlank with
    | _, [] => some []
    | 0, _ => none
    | fuel + 1, cs => do
      let (token, rest) ← scan cs
      let tokens ← scanAll fuel rest
      some (token :: tokens)

def ofText? (cs : List Char) : Option (List Token) := scanAll cs.length cs

end Token
end PowConsensus.Json
