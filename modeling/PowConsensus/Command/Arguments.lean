import PowConsensus.Command.Options

/-! # Arguments of the node

Options for all commands stand before the command, and options of one command after it. Version and
help are answered as soon as they are met, before anything else is checked.
-/
namespace PowConsensus.Command

/-- What a run is to report. -/
inductive Query where
  /-- Verify the profile and print a summary. -/
  | check
  /-- Show the rules in force at a height. -/
  | rules (height : UInt32)
  /-- Print the genesis block. -/
  | genesis
  /-- Compute the bits required after the last entry of a headers file. -/
  | nextWork (headers : String) (time : UInt32)
  deriving DecidableEq, Repr

structure Arguments where
  configPath : String
  network : Option String
  logLevel : Option String
  versionInfo : Bool
  /-- The summary, if no command is given. -/
  query : Option Query
  deriving DecidableEq, Repr

inductive Request where
  | run (arguments : Arguments)
  | version
  | help
  deriving DecidableEq, Repr

def helpSpec : OptionSpec := ⟨"help", some 'h', false⟩

/-- A path is not empty. -/
def checkPath (f : Found) : Option UsageFault :=
  if f.value.isEmpty then some (.badValue f.name f.value) else none

def checkNumber (f : Found) : Option UsageFault :=
  if (word32? f.value).isNone then some (.badValue f.name f.value) else none

def mainGrammar : Grammar where
  specs :=
    [⟨"config", some 'c', true⟩, ⟨"network", some 'n', true⟩, ⟨"log-level", none, true⟩,
     ⟨"version-info", none, false⟩, helpSpec, ⟨"version", some 'V', false⟩]
  check f := if f.name == "config" then checkPath f else none
  isFinal name := name == "help" || name == "version"

def commandGrammar (specs : List OptionSpec) (check : Found → Option UsageFault) : Grammar where
  specs := specs ++ [helpSpec]
  check := check
  isFinal name := name == "help"

def value? (found : List Found) (name : String) : Option String :=
  (found.find? (·.name == name)).map (·.value)

def required (found : List Found) (name : String) : Except UsageFault String :=
  match value? found name with
  | some value => .ok value
  | none => .error (.required name)

def requiredNumber (found : List Found) (name : String) : Except UsageFault UInt32 := do
  let value ← required found name
  match word32? value with
  | some n => .ok n
  | none => .error (.badValue name value)

/-- Scans the options of one command, which takes no words; nothing is left if help is asked for. -/
def commandOptions (g : Grammar) (arguments : List String) :
    Except UsageFault (Option (List Found)) :=
  match g.scan [] none arguments with
  | .error fault => .error fault
  | .ok ⟨_, some _, _⟩ => .ok none
  | .ok ⟨_, none, some (text, _)⟩ => .error (.unknown text)
  | .ok ⟨found, none, none⟩ => .ok (some found)

def commandNames : List String := ["check", "rules", "genesis", "next-work", "help"]

/-- Help can be asked for all commands or for one of them. -/
def checkHelp : List String → Except UsageFault Unit
  | [] => .ok ()
  | name :: rest =>
    if name ∉ commandNames then .error (.unknown name)
    else match rest with
      | [] => .ok ()
      | extra :: _ => .error (.unknown extra)

/-- The command with a name; nothing if its help is asked for. -/
def readCommand (name : String) (arguments : List String) :
    Except UsageFault (Option Query) := do
  match name with
  | "check" =>
    let found ← commandOptions (commandGrammar [] fun _ => none) arguments
    return found.map fun _ => .check
  | "genesis" =>
    let found ← commandOptions (commandGrammar [] fun _ => none) arguments
    return found.map fun _ => .genesis
  | "rules" =>
    match ← commandOptions (commandGrammar [⟨"height", none, true⟩] checkNumber) arguments with
    | none => return none
    | some found => return some (.rules (← requiredNumber found "height"))
  | "next-work" =>
    let check (f : Found) := if f.name == "headers" then checkPath f else checkNumber f
    match ← commandOptions
      (commandGrammar [⟨"headers", none, true⟩, ⟨"time", none, true⟩] check) arguments with
    | none => return none
    | some found =>
      return some (.nextWork (← required found "headers") (← requiredNumber found "time"))
  | "help" =>
    checkHelp arguments
    return none
  | _ => throw (.unknown name)

def defaultConfigPath : String := "smartcoin-node.toml"

def Arguments.ofFound (found : List Found) (query : Option Query) : Arguments where
  configPath := (value? found "config").getD defaultConfigPath
  network := value? found "network"
  logLevel := value? found "log-level"
  versionInfo := (value? found "version-info").isSome
  query := query

def Request.ofArguments (arguments : List String) : Except UsageFault Request := do
  match ← mainGrammar.scan [] none arguments with
  | ⟨_, some name, _⟩ => return if name == "version" then .version else .help
  | ⟨found, none, none⟩ => return .run (.ofFound found none)
  | ⟨found, none, some (name, rest)⟩ =>
    match ← readCommand name rest with
    | none => return .help
    | some query => return .run (.ofFound found (some query))

end PowConsensus.Command
