import PowConsensus.Toml.Item
import PowConsensus.Toml.Scalar

/-! # TOML documents

A document is a list of lines: blank lines and comments, headers that open a table, and keys with
values for the table that is open. `ofText?` gives the entries of the root table.
-/
namespace PowConsensus.Toml

/-- Arrays and inline tables nested as deep as this, and keys of as many parts, are refused. -/
def nestingLimit : Nat := 80

def isBareKeyChar (c : Char) : Bool := c.isAlphanum || c = '_' || c = '-'

def readSimpleKey : List Char → Option (List Char × List Char)
  | '"' :: rest => readBasic rest
  | '\'' :: rest => readLiteral rest
  | cs =>
    let key := cs.takeWhile isBareKeyChar
    if key = [] then none else some (key, cs.dropWhile isBareKeyChar)

/-- Simple keys with dots between them, for as much fuel as parts are allowed; blanks around the
parts are skipped. -/
def readKeyParts : Nat → List Char → Option (List (List Char) × List Char)
  | 0, _ => none
  | fuel + 1, cs => do
    let (key, cs) ← readSimpleKey (skipBlanks cs)
    match skipBlanks cs with
    | '.' :: rest => do
      let (keys, rest) ← readKeyParts fuel rest
      some (key :: keys, rest)
    | rest => some ([key], rest)

structure Key where
  path : List (List Char)
  last : List Char

def readKey (cs : List Char) : Option (Key × List Char) := do
  let (parts, rest) ← readKeyParts (nestingLimit - 1) cs
  some (⟨parts.dropLast, parts.getLastD []⟩, rest)

mutual

/-- A value; `depth` counts the arrays and inline tables around it. -/
def readValue (fuel depth : Nat) (cs : List Char) : Option (Item × List Char) :=
  match fuel, cs with
  | 0, _ => none
  | _ + 1, '"' :: rest => (readString ('"' :: rest)).map fun r => (.text r.1, r.2)
  | _ + 1, '\'' :: rest => (readString ('\'' :: rest)).map fun r => (.text r.1, r.2)
  | fuel + 1, '[' :: rest =>
    if nestingLimit ≤ depth + 1 then none
    else do
      let rest ← readItems fuel (depth + 1) rest
      some (.other, rest)
  | fuel + 1, '\x7b' :: rest =>
    if nestingLimit ≤ depth + 1 then none
    else match skipBlanks rest with
      | '\x7d' :: rest => some (.other, rest)
      | _ => do
        let (_, rest) ← readMembers fuel (depth + 1) [] rest
        some (.other, rest)
  | _ + 1, cs => (skipScalar cs).map (.other, ·)

/-- The values of an array up to its closing bracket; a comma may stand after the last. -/
def readItems (fuel depth : Nat) (cs : List Char) : Option (List Char) :=
  match fuel with
  | 0 => none
  | fuel + 1 => do
    match ← skipGap false cs with
    | ']' :: rest => some rest
    | cs => do
      let (_, cs) ← readValue fuel depth cs
      match ← skipGap false cs with
      | ',' :: rest => readItems fuel depth rest
      | ']' :: rest => some rest
      | _ => none

/-- At least one key with a value, up to the closing brace of an inline table. -/
def readMembers (fuel depth : Nat) (es : Entries) (cs : List Char) : Option (Entries × List Char) :=
  match fuel with
  | 0 => none
  | fuel + 1 => do
    let (key, cs) ← readKey cs
    let cs ← mark? '=' cs
    let (item, cs) ← readValue fuel depth (skipBlanks cs)
    let es ← es.define key.path key.last item
    match skipBlanks cs with
    | ',' :: rest => readMembers fuel depth es rest
    | '\x7d' :: rest => some (es, rest)
    | _ => none

end

structure State where
  root : Entries
  /-- Path of the table that is open. -/
  table : List (List Char)

def readHeader (s : State) (cs : List Char) : Option (State × List Char) := do
  let (key, cs) ← readKey cs
  let rest ← endLine? (← mark? ']' cs)
  some (⟨← s.root.openTable key.path key.last, key.path ++ [key.last]⟩, rest)

def readElementHeader (s : State) (cs : List Char) : Option (State × List Char) := do
  let (key, cs) ← readKey cs
  let rest ← endLine? (← mark? ']' (← mark? ']' cs))
  some (⟨← s.root.openElement key.path key.last, key.path ++ [key.last]⟩, rest)

def readAssignment (s : State) (cs : List Char) : Option (State × List Char) := do
  let (key, cs) ← readKey cs
  let cs ← mark? '=' cs
  let (item, cs) ← readValue (2 * cs.length + 1) 0 (skipBlanks cs)
  let rest ← endLine? cs
  some ({ s with root := ← s.root.defineIn s.table key.path key.last item }, rest)

/-- One line, after its leading blanks. -/
def readLine (s : State) : List Char → Option (State × List Char)
  | '#' :: rest => (endLine? ('#' :: rest)).map (s, ·)
  | '\n' :: rest => some (s, rest)
  | '\r' :: rest => (newline? ('\r' :: rest)).map (s, ·)
  | '[' :: '[' :: rest => readElementHeader s rest
  | '[' :: rest => readHeader s rest
  | cs => readAssignment s cs

/-- Every line takes at least one character, so the length is fuel enough. -/
def readLines (fuel : Nat) (s : State) (cs : List Char) : Option State :=
  match fuel, skipBlanks cs with
  | _, [] => some s
  | 0, _ => none
  | fuel + 1, cs => do
    let (s, rest) ← readLine s cs
    readLines fuel s rest

/-- A byte order mark at the start is skipped. -/
def dropMark : List Char → List Char
  | '\ufeff' :: rest => rest
  | cs => cs

def ofText? (text : String) : Option Entries :=
  let cs := dropMark text.toList
  (readLines cs.length ⟨[], []⟩ cs).map (·.root)

end PowConsensus.Toml
