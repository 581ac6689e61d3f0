import PowConsensus.Json.Token

/-! # JSON documents

A document is read from tokens and written back without blanks. Number literals and the parts of
strings are kept as written; `readText?` and `readNatural?` say what they mean.
-/
namespace PowConsensus.Json

inductive Document where
  | null
  | bool (b : Bool)
  | number (literal : List Char)
  | text (parts : List Part)
  | array (items : List Document)
  | object (members : List (List Part × Document))

namespace Document

mutual

/-- A document at the start of the tokens, and the tokens after it. -/
def value? : Nat → List Token → Option (Document × List Token)
  | 0, _ => none
  | _ + 1, .null :: rest => some (.null, rest)
  | _ + 1, .bool b :: rest => some (.bool b, rest)
  | _ + 1, .number literal :: rest => some (.number literal, rest)
  | _ + 1, .text parts :: rest => some (.text parts, rest)
  | _ + 1, .openBracket :: .closeBracket :: rest => some (.array [], rest)
  | fuel + 1, .openBracket :: rest => do
    let (items, rest) ← items? fuel rest
    some (.array items, rest)
  | _ + 1, .openBrace :: .closeBrace :: rest => some (.object [], rest)
  | fuel + 1, .openBrace :: rest => do
    let (members, rest) ← members? fuel rest
    some (.object members, rest)
  | _ + 1, _ => none

/-- At least one item, up to the closing bracket. -/
def items? : Nat → List Token → Option (List Document × List Token)
  | 0, _ => none
  | fuel + 1, tokens => do
    match ← value? fuel tokens with
    | (item, .closeBracket :: rest) => some ([item], rest)
    | (item, .comma :: rest) => do
      let (items, rest) ← items? fuel rest
      some (item :: items, rest)
    | _ => none

/-- At least one member, up to the closing brace. -/
def members? : Nat → List Token → Option (List (List Part × Document) × List Token)
  | fuel + 1, .text key :: .colon :: tokens => do
    match ← value? fuel tokens with
    | (item, .closeBrace :: rest) => some ([(key, item)], rest)
    | (item, .comma :: rest) => do
      let (members, rest) ← members? fuel rest
      some ((key, item) :: members, rest)
    | _ => none
  | _, _ => none

end

/-- Every nesting takes a token and every list one more call, so twice the count of tokens bounds
the depth of the calls. -/
def ofTokens? (tokens : List Token) : Option Document :=
  match value? (2 * tokens.length + 1) tokens with
  | some (d, []) => some d
  | _ => none

def ofText? (text : String) : Option Document := do
  ofTokens? (← Token.ofText? text.toList)

/-! ## Writing -/

def renderPart : Part → List Char
  | .char '"' => ['\\', '"']
  | .char '\\' => ['\\', '\\']
  | .char c => [c]
  | .unit n =>
    let digits := Nat.toDigits 16 n
    ['\\', 'u'] ++ List.replicate (4 - digits.length) '0' ++ digits

def renderParts (parts : List Part) : List Char := '"' :: (parts.flatMap renderPart ++ ['"'])

mutual

def render : Document → List Char
  | .null => "null".toList
  | .bool b => (if b then "true" else "false").toList
  | .number literal => literal
  | .text parts => renderParts parts
  | .array items => '[' :: renderItems items
  | .object members => '\x7b' :: renderMembers members

/-- The items and the closing bracket. -/
def renderItems : List Document → List Char
  | [] => [']']
  | [item] => render item ++ [']']
  | item :: rest => render item ++ ',' :: renderItems rest

/-- The members and the closing brace. -/
def renderMembers : List (List Part × Document) → List Char
  | [] => ['\x7d']
  | [(key, item)] => renderParts key ++ ':' :: render item ++ ['\x7d']
  | (key, item) :: rest => renderParts key ++ ':' :: render item ++ ',' :: renderMembers rest

end

/-! ## Meaning -/

def isHighSurrogate (n : Nat) : Bool := 0xd800 ≤ n ∧ n < 0xdc00
def isLowSurrogate (n : Nat) : Bool := 0xdc00 ≤ n ∧ n < 0xe000

/-- The characters of a string; a surrogate counts only as half of a pair. -/
def characters? : List Part → Option (List Char)
  | [] => some []
  | .char c :: rest => (characters? rest).map (c :: ·)
  | .unit high :: .unit low :: rest =>
    if isHighSurrogate high then
      if isLowSurrogate low then
        (characters? rest).map
          (Char.ofNat (0x10000 + (high - 0xd800) * 0x400 + (low - 0xdc00)) :: ·)
      else none
    else if isLowSurrogate high then none
    else (characters? (.unit low :: rest)).map (Char.ofNat high :: ·)
  | .unit n :: rest =>
    if isHighSurrogate n ∨ isLowSurrogate n then none
    else (characters? rest).map (Char.ofNat n :: ·)

def partsOf (text : String) : List Part := text.toList.map .char

def readText? : Document → Option String
  | .text parts => (characters? parts).map String.ofList
  | _ => none

/-- A number without sign, fraction and exponent. -/
def readNatural? : Document → Option Nat
  | .number literal =>
    if literal.all Char.isDigit then
      some (literal.foldl (fun n c => 10 * n + (c.toNat - '0'.toNat)) 0)
    else none
  | _ => none

def natural (n : Nat) : Document := .number (Nat.toDigits 10 n)

def ofString (text : String) : Document := .text (partsOf text)

/-- Members with their names read, if all names can be read. -/
def named? (members : List (List Part × Document)) : Option (List (String × Document)) :=
  members.mapM fun m => (characters? m.1).map fun name => (String.ofList name, m.2)

/-- What stands under a name: nothing or one document; twice the same name is refused. -/
def unique? (name : String) (members : List (String × Document)) : Option (Option Document) :=
  match members.filter (·.1 == name) with
  | [] => some none
  | [m] => some (some m.2)
  | _ => none

end Document
end PowConsensus.Json
