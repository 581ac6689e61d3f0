/-! # Blanks, comments and strings of TOML

A reader takes the characters from where it stands and gives what it read and the characters after
it, or nothing if the text is malformed. There are four kinds of strings: basic ones have escapes,
literal ones do not, and either may run over several lines between three quotes.
-/
namespace PowConsensus.Toml

def isBlank (c : Char) : Bool := c = ' ' ∨ c = '\t'

def skipBlanks (cs : List Char) : List Char := cs.dropWhile isBlank

/-- Characters of comments: no control character but the tabulator. -/
def isPlain (c : Char) : Bool := c = '\t' ∨ (0x20 ≤ c.toNat ∧ c.toNat ≠ 0x7f)

def isBasicChar (c : Char) : Bool := isPlain c && c ≠ '"' && c ≠ '\\'
def isLiteralChar (c : Char) : Bool := isPlain c && c ≠ '\''

/-- The text after a line ending. -/
def newline? : List Char → Option (List Char)
  | '\n' :: rest => some rest
  | '\r' :: '\n' :: rest => some rest
  | _ => none

/-- The next line, if only blanks and a comment stand before it or before the end. -/
def endLine? (cs : List Char) : Option (List Char) :=
  let cs := match skipBlanks cs with
    | '#' :: rest => rest.dropWhile isPlain
    | rest => rest
  match cs with
  | [] => some []
  | _ => newline? cs

/-- Skips blanks, line endings and comments between the values of an array. -/
def skipGap (inComment : Bool) : List Char → Option (List Char)
  | [] => some []
  | '\n' :: rest => skipGap false rest
  | '\r' :: '\n' :: rest => skipGap false rest
  | c :: rest =>
    if inComment then if isPlain c then skipGap true rest else none
    else if isBlank c then skipGap false rest
    else if c = '#' then skipGap true rest
    else some (c :: rest)

/-! ## Escapes -/

def digitBelow? (base : Nat) (c : Char) : Option Nat :=
  let n :=
    if c.isDigit then c.toNat - '0'.toNat
    else if 'a' ≤ c ∧ c ≤ 'f' then c.toNat - 'a'.toNat + 10
    else if 'A' ≤ c ∧ c ≤ 'F' then c.toNat - 'A'.toNat + 10
    else base
  if n < base then some n else none

def number? (base : Nat) (cs : List Char) : Option Nat :=
  cs.foldlM (fun n c => (digitBelow? base c).map (base * n + ·)) 0

/-- The character with a code point in hexadecimal; surrogates are none. -/
def scalar? (digits : List Char) : Option Char := do
  let n ← number? 16 digits
  if n < 0xd800 ∨ (0xdfff < n ∧ n < 0x110000) then some (Char.ofNat n) else none

def escape? : Char → Option Char
  | 'b' => some '\x08'
  | 't' => some '\t'
  | 'n' => some '\n'
  | 'f' => some '\x0c'
  | 'r' => some '\r'
  | '"' => some '"'
  | '\\' => some '\\'
  | _ => none

/-- One more character in front of what was read, if there is one. -/
def prepend (c : Option Char) (r : Option (List Char × List Char)) :
    Option (List Char × List Char) := do
  let c ← c
  let (cs, rest) ← r
  some (c :: cs, rest)

/-! ## Strings, after the opening quotes -/

def readBasic : List Char → Option (List Char × List Char)
  | [] => none
  | '"' :: rest => some ([], rest)
  | '\\' :: 'u' :: a :: b :: c :: d :: rest => prepend (scalar? [a, b, c, d]) (readBasic rest)
  | '\\' :: 'U' :: a :: b :: c :: d :: e :: f :: g :: h :: rest =>
    prepend (scalar? [a, b, c, d, e, f, g, h]) (readBasic rest)
  | '\\' :: e :: rest => prepend (escape? e) (readBasic rest)
  | c :: rest => if isBasicChar c then prepend (some c) (readBasic rest) else none

def readLiteral (cs : List Char) : Option (List Char × List Char) :=
  match cs.dropWhile isLiteralChar with
  | '\'' :: rest => some (cs.takeWhile isLiteralChar, rest)
  | _ => none

/-- Up to two quotes may stand just before the three closing ones. A backslash at the end of a line
skips white space up to the next character; `trimming` says that this is going on. -/
def readMultiBasic (trimming : Bool) : List Char → Option (List Char × List Char)
  | [] => none
  | '"' :: '"' :: '"' :: '"' :: '"' :: rest => some (['"', '"'], rest)
  | '"' :: '"' :: '"' :: '"' :: rest => some (['"'], rest)
  | '"' :: '"' :: '"' :: rest => some ([], rest)
  | '"' :: rest => prepend (some '"') (readMultiBasic false rest)
  | '\r' :: '\n' :: rest =>
    if trimming then readMultiBasic true rest else prepend (some '\n') (readMultiBasic false rest)
  | '\n' :: rest =>
    if trimming then readMultiBasic true rest else prepend (some '\n') (readMultiBasic false rest)
  | '\\' :: 'u' :: a :: b :: c :: d :: rest =>
    prepend (scalar? [a, b, c, d]) (readMultiBasic false rest)
  | '\\' :: 'U' :: a :: b :: c :: d :: e :: f :: g :: h :: rest =>
    prepend (scalar? [a, b, c, d, e, f, g, h]) (readMultiBasic false rest)
  | '\\' :: e :: rest =>
    if (newline? (skipBlanks (e :: rest))).isSome then readMultiBasic true (e :: rest)
    else prepend (escape? e) (readMultiBasic false rest)
  | c :: rest =>
    if trimming && isBlank c then readMultiBasic true rest
    else if isBasicChar c then prepend (some c) (readMultiBasic false rest)
    else none

def readMultiLiteral : List Char → Option (List Char × List Char)
  | [] => none
  | '\'' :: '\'' :: '\'' :: '\'' :: '\'' :: rest => some (['\'', '\''], rest)
  | '\'' :: '\'' :: '\'' :: '\'' :: rest => some (['\''], rest)
  | '\'' :: '\'' :: '\'' :: rest => some ([], rest)
  | '\'' :: rest => prepend '\'' (readMultiLiteral rest)
  | '\r' :: '\n' :: rest => prepend (some '\n') (readMultiLiteral rest)
  | '\n' :: rest => prepend (some '\n') (readMultiLiteral rest)
  | c :: rest => if isLiteralChar c then prepend (some c) (readMultiLiteral rest) else none

/-- A line ending right after three opening quotes is no part of the string. -/
def dropNewline (cs : List Char) : List Char := (newline? cs).getD cs

def readString : List Char → Option (List Char × List Char)
  | '"' :: '"' :: '"' :: rest => readMultiBasic false (dropNewline rest)
  | '"' :: rest => readBasic rest
  | '\'' :: '\'' :: '\'' :: rest => readMultiLiteral (dropNewline rest)
  | '\'' :: rest => readLiteral rest
  | _ => none

end PowConsensus.Toml
