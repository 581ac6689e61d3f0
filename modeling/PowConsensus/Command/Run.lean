import PowConsensus.Command.Config
import PowConsensus.Command.NextWork
import PowConsensus.Error
import PowConsensus.Text.Terminal

/-! # Running a command

A run takes the arguments and what stands at the two paths that may be read, and gives an exit code,
the lines of the report, the error if there is one, and what was logged. Nothing is logged before
the configuration is known.
-/
namespace PowConsensus.Command

structure LogEvent where
  level : LogLevel
  text : String
  deriving DecidableEq, Repr

/-- The lines an event takes in the log. A text may hold line breaks; the level stands before the
first line only. -/
def LogEvent.lines (e : LogEvent) : List String :=
  (e.level.name ++ " " ++ Text.terminalSafe e.text).splitOn "\n"

inductive RunFault where
  | configUnreadable (path : String)
  | configMalformed
  | network (name : String)
  | headersUnreadable (path : String)
  | headers (fault : HeadersFault)
  deriving DecidableEq, Repr

def RunFault.message : RunFault → String
  | .configUnreadable path => "Failed to read config file " ++ path
  | .configMalformed => "Failed to parse config file"
  | .network name => "Cannot select network " ++ Text.quoted name
  | .headersUnreadable path => "Failed to read headers file " ++ path
  | .headers fault => fault.message

structure Outcome where
  result : Except RunFault (List String)
  /-- Events at or above the level of the configuration, in order. -/
  events : List LogEvent

namespace Outcome

def report (o : Outcome) : List String :=
  match o.result with
  | .ok lines => lines
  | .error _ => []

/-- Everything printed, the log before the report. -/
def lines (o : Outcome) : List String := o.events.flatMap LogEvent.lines ++ o.report

/-- The lines printed that do not start with a level. -/
def unmarked (o : Outcome) : List String :=
  (o.events.flatMap fun e => e.lines.drop 1) ++ o.report

end Outcome

def loadConfig (a : Arguments) (file : FileContent) : Except RunFault Config :=
  match file with
  | .missing => .ok (Config.standard.override a)
  | file =>
    match file.text? with
    | none => .error (.configUnreadable a.configPath)
    | some text =>
      match Config.ofText? text with
      | none => .error .configMalformed
      | some c => .ok (c.override a)

/-- A result together with what was logged on the way to it. -/
abbrev Logged := Except RunFault (List String) × List LogEvent

def runCheck (p : NetworkProfile) : Logged :=
  let verdict := genesisVerdict p
  let rejected : List LogEvent :=
    if verdict = .valid then [] else [⟨.debug, "Proof of work rejected: " ++ verdict.text⟩]
  (.ok (checkReport p), rejected ++ [⟨.info, "Profile ready"⟩])

/-- What the difficulty algorithm has to say. -/
def remarkEvents : RetargetRemark → List LogEvent
  | .shortHistory => [⟨.warn, "Retarget window runs past the available chain history"⟩]
  | .scaled => [⟨.trace, "Target scaled by elapsed time"⟩]
  | .copied => []
  | .atLimit => []

def runNextWork (p : NetworkProfile) (path : String) (time : UInt32) (file : FileContent) :
    Logged :=
  match file.text? with
  | none => (.error (.headersUnreadable path), [])
  | some text =>
    match entriesOfText? text with
    | none => (.error (.headers .malformed), [])
    | some entries =>
      let loaded : LogEvent := ⟨.debug, s!"Loaded {entries.length} chain entries"⟩
      match NextWork.ofEntries p Kimoto.standardEnvelope entries time with
      | .error fault => (.error (.headers fault), [loaded])
      | .ok (n, c) =>
        let remark := retargetRemark c.predecessor n.tip (p.rules.get n.height)
        (.ok n.report,
          loaded :: remarkEvents remark ++
            [⟨.debug, "Required difficulty " ++ n.bits.text⟩, ⟨.info, "Computed next work"⟩])

def runQuery (p : NetworkProfile) (headers : FileContent) : Query → Logged
  | .check => runCheck p
  | .rules height => (.ok (rulesReport p height), [])
  | .genesis => (.ok (genesisReport p), [])
  | .nextWork path time => runNextWork p path time headers

def runConfigured (c : Config) (query : Query) (headers : FileContent) : Logged :=
  let started : List LogEvent :=
    [⟨.info, "Starting Smartcoin Node v0.1.0"⟩, ⟨.info, "Network: " ++ c.network⟩]
  match NetworkProfile.select doubleSha256 c.network with
  | .error _ => (.error (.network c.network), started)
  | .ok p =>
    let r := runQuery p headers query
    (r.1, started ++ [⟨.debug, "Genesis block verified"⟩, ⟨.info, "Network profile ready"⟩] ++ r.2)

/-- `config` stands at the path of the configuration, `headers` at that of the headers file. -/
def run (a : Arguments) (config headers : FileContent) : Outcome :=
  if a.versionInfo then ⟨.ok versionReport, []⟩
  else
    match loadConfig a config with
    | .error fault => ⟨.error fault, []⟩
    | .ok c =>
      let r := runConfigured c (a.query.getD .check) headers
      let level := LogLevel.ofText c.logLevel
      ⟨r.1, r.2.filter (level.severity ≤ ·.level.severity)⟩

end PowConsensus.Command
