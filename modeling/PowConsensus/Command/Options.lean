/-! # Options on a command line

Options are scanned from left to right. A long option takes its value after an equals sign or as the
next argument, a short one also right after its letter; an argument that starts with a dash is no
value, unless it is a dash alone. No option may be given twice. Two dashes end the options.
-/
namespace PowConsensus.Command

structure OptionSpec where
  name : String
  letter : Option Char
  takesValue : Bool
  deriving DecidableEq, Repr

inductive UsageFault where
  | unknown (argument : String)
  | missingValue (option : String)
  | unneededValue (option : String)
  | repeated (option : String)
  | badValue (option value : String)
  | required (option : String)
  deriving DecidableEq, Repr

def UsageFault.message : UsageFault → String
  | .unknown argument => s!"unexpected argument '{argument}' found"
  | .missingValue option => s!"a value is required for '--{option}' but none was supplied"
  | .unneededValue option => s!"unexpected value for '--{option}' found; no more were expected"
  | .repeated option => s!"the argument '--{option}' cannot be used multiple times"
  | .badValue option value => s!"invalid value '{value}' for '--{option}'"
  | .required option => s!"the required argument '--{option}' was not provided"

/-- An option that was found, with its value or the empty text. -/
structure Found where
  name : String
  value : String
  deriving DecidableEq, Repr

/-- An argument split at its first equals sign. -/
def splitAtEquals (cs : List Char) : List Char × Option (List Char) :=
  let name := cs.takeWhile (· ≠ '=')
  match cs.dropWhile (· ≠ '=') with
  | _ :: value => (name, some value)
  | [] => (name, none)

/-- Whether an argument can be the value of the option before it. -/
def isValue (argument : String) : Bool :=
  match argument.toList with
  | '-' :: _ :: _ => false
  | _ => true

inductive Piece where
  /-- An option that is complete. -/
  | option (found : Found)
  /-- An option whose value is the next argument. -/
  | awaiting (name : String)
  | fault (fault : UsageFault)
  deriving DecidableEq, Repr

/-- A long option, without its dashes. -/
def readLong (specs : List OptionSpec) (cs : List Char) : Piece :=
  let (name, value) := splitAtEquals cs
  match specs.find? (·.name.toList == name), value with
  | none, _ => .fault (.unknown (String.ofList ('-' :: '-' :: name)))
  | some s, some v =>
    if s.takesValue then .option ⟨s.name, String.ofList v⟩ else .fault (.unneededValue s.name)
  | some s, none => if s.takesValue then .awaiting s.name else .option ⟨s.name, ""⟩

/-- Short options after one dash: flags, and then perhaps one with a value. -/
def readShort (specs : List OptionSpec) : List Char → List Piece
  | [] => []
  | c :: rest =>
    match specs.find? (·.letter == some c) with
    | none => [.fault (.unknown (String.ofList ['-', c]))]
    | some s =>
      if s.takesValue then
        match rest with
        | [] => [.awaiting s.name]
        | '=' :: value => [.option ⟨s.name, String.ofList value⟩]
        | value => [.option ⟨s.name, String.ofList value⟩]
      else .option ⟨s.name, ""⟩ :: readShort specs rest

inductive Argument where
  | options (pieces : List Piece)
  | endOfOptions
  | word (text : String)
  deriving DecidableEq, Repr

def readArgument (specs : List OptionSpec) (argument : String) : Argument :=
  match argument.toList with
  | ['-', '-'] => .endOfOptions
  | '-' :: '-' :: cs => .options [readLong specs cs]
  | ['-'] => .word argument
  | '-' :: cs => .options (readShort specs cs)
  | _ => .word argument

/-- What a scan found: options, an option that ends it at once, or the first word with the arguments
after it. -/
structure Scan where
  options : List Found
  final : Option String
  word : Option (String × List String)
  deriving DecidableEq, Repr

/-- Checks values as they come and tells which options end the scan. -/
structure Grammar where
  specs : List OptionSpec
  check : Found → Option UsageFault
  isFinal : String → Bool

namespace Grammar

/-- Takes one more option in; the second component says that it ends the scan. -/
def accept (g : Grammar) (seen : List Found) (f : Found) : Except UsageFault (List Found × Bool) :=
  if g.isFinal f.name then .ok (seen ++ [f], true)
  else if seen.any (·.name == f.name) then .error (.repeated f.name)
  else match g.check f with
    | some fault => .error fault
    | none => .ok (seen ++ [f], false)

inductive Progress where
  | going (seen : List Found)
  | awaiting (seen : List Found) (name : String)
  | ended (seen : List Found) (name : String)

def acceptPieces (g : Grammar) (seen : List Found) : List Piece → Except UsageFault Progress
  | [] => .ok (.going seen)
  | .fault fault :: _ => .error fault
  | .awaiting name :: _ => .ok (.awaiting seen name)
  | .option f :: rest =>
    match g.accept seen f with
    | .error fault => .error fault
    | .ok (seen, true) => .ok (.ended seen f.name)
    | .ok (seen, false) => g.acceptPieces seen rest

def scan (g : Grammar) (seen : List Found) (waiting : Option String) :
    List String → Except UsageFault Scan
  | [] =>
    match waiting with
    | some name => .error (.missingValue name)
    | none => .ok ⟨seen, none, none⟩
  | a :: rest =>
    match waiting with
    | some name =>
      if isValue a then
        match g.accept seen ⟨name, a⟩ with
        | .error fault => .error fault
        | .ok (seen, true) => .ok ⟨seen, some name, none⟩
        | .ok (seen, false) => g.scan seen none rest
      else .error (.missingValue name)
    | none =>
      match readArgument g.specs a with
      | .endOfOptions =>
        match rest with
        | [] => .ok ⟨seen, none, none⟩
        | extra :: _ => .error (.unknown extra)
      | .word text => .ok ⟨seen, none, some (text, rest)⟩
      | .options pieces =>
        match g.acceptPieces seen pieces with
        | .error fault => .error fault
        | .ok (.ended seen name) => .ok ⟨seen, some name, none⟩
        | .ok (.going seen) => g.scan seen none rest
        | .ok (.awaiting seen name) => g.scan seen (some name) rest

end Grammar

/-- A number below `2 ^ 32` in decimal digits after an optional sign; minus zero is zero. -/
def word32? (text : String) : Option UInt32 :=
  let (negative, digits) := match text.toList with
    | '+' :: rest => (false, rest)
    | '-' :: rest => (true, rest)
    | cs => (false, cs)
  if digits ≠ [] ∧ digits.all Char.isDigit then
    let n := digits.foldl (fun n c => 10 * n + (c.toNat - '0'.toNat)) 0
    if n < UInt32.size ∧ (negative → n = 0) then some (UInt32.ofNat n) else none
  else none

end PowConsensus.Command
