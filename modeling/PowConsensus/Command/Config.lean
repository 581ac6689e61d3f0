import PowConsensus.Command.Arguments
import PowConsensus.Toml.Document

/-! # Configuration of the node

A configuration file may name the network and the log level; arguments take precedence over it and
both have defaults. Other keys of the file are ignored.
-/
namespace PowConsensus.Command

/-- What stands at a path. -/
inductive FileContent where
  | missing
  /-- Not a file, or one that cannot be read. -/
  | unreadable
  | bytes (content : List UInt8)

/-- The content as text, if it is well-formed UTF-8. -/
def FileContent.text? : FileContent → Option String
  | .bytes content => String.fromUTF8? ⟨content.toArray⟩
  | _ => none

inductive LogLevel where
  | trace
  | debug
  | info
  | warn
  | error
  deriving DecidableEq, Repr

namespace LogLevel

def name : LogLevel → String
  | .trace => "TRACE"
  | .debug => "DEBUG"
  | .info => "INFO"
  | .warn => "WARN"
  | .error => "ERROR"

def severity : LogLevel → Nat
  | .trace => 0
  | .debug => 1
  | .info => 2
  | .warn => 3
  | .error => 4

/-- The level with a name, in letters of either case; any other text means `info`. No letter beyond
ASCII becomes one of these letters in lower case. -/
def ofText (text : String) : LogLevel :=
  let wanted := text.toList.map Char.toUpper
  ([trace, debug, info, warn, error].find? (·.name.toList == wanted)).getD info

end LogLevel

structure Config where
  network : String
  logLevel : String
  deriving DecidableEq, Repr

namespace Config

def standard : Config := ⟨"main", "info"⟩

/-- The text under a key, or the default; a value that is no text is refused. -/
def textOr (d : String) (key : String) (entries : Toml.Entries) : Option String :=
  match entries.get? key.toList with
  | none => some d
  | some (.text cs) => some (String.ofList cs)
  | some _ => none

def ofText? (text : String) : Option Config := do
  let entries ← Toml.ofText? text
  let network ← textOr standard.network "network" entries
  let logLevel ← textOr standard.logLevel "log_level" entries
  some ⟨network, logLevel⟩

def override (c : Config) (a : Arguments) : Config :=
  ⟨a.network.getD c.network, a.logLevel.getD c.logLevel⟩

end Config
end PowConsensus.Command
