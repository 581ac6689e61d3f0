import PowConsensus.Command.Run

/-! # The command line

Reads the arguments and at most two files, prints the log and the report, and exits with 2 for
arguments that were refused and with 1 for an error.
-/
namespace PowConsensus.Command

def usage : String :=
  "Usage: smartcoin-node [OPTIONS] [check | rules --height N | genesis | "
  ++ "next-work --headers FILE --time N]"

def readContent (path : String) : IO FileContent := do
  try
    return .bytes (← IO.FS.readBinFile path).toList
  catch e =>
    match e with
    | .noFileOrDirectory _ _ _ => return .missing
    | _ => return .unreadable

def readHeaders (a : Arguments) : IO FileContent := do
  match a.query with
  | some (.nextWork path _) => readContent path
  | _ => return .missing

def perform (a : Arguments) : IO UInt32 := do
  let outcome := run a (← readContent a.configPath) (← readHeaders a)
  for line in outcome.lines do
    IO.println line
  match outcome.result with
  | .ok _ => return 0
  | .error fault =>
    IO.eprintln ("Error: " ++ fault.message)
    return 1

end PowConsensus.Command

open PowConsensus.Command in
def main (arguments : List String) : IO UInt32 := do
  match Request.ofArguments arguments with
  | .error fault =>
    IO.eprintln ("error: " ++ fault.message)
    return 2
  | .ok .version =>
    IO.println versionLine
    return 0
  | .ok .help =>
    IO.println usage
    return 0
  | .ok (.run a) => perform a
