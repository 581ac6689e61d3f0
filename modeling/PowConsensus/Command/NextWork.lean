import PowConsensus.Chain.Segment
import PowConsensus.Command.Report
import PowConsensus.Json.Entry

/-! # The next block after a headers file

A headers file is a JSON array of chain entries at consecutive heights, the last one the tip.
-/
namespace PowConsensus.Command

inductive HeadersFault where
  | malformed
  | notContiguous
  | empty
  deriving DecidableEq, Repr

def HeadersFault.message : HeadersFault → String
  | .malformed => "Failed to parse headers file"
  | .notContiguous => "Header heights are not contiguous"
  | .empty => "Headers file holds no entries"

def textOfEntries (entries : List ChainEntry) : String :=
  String.ofList (ChainEntry.listDocument entries).render

def entriesOfText? (text : String) : Option (List ChainEntry) := do
  ChainEntry.listOfDocument? (← Json.Document.ofText? text)

namespace NextWork

/-- For a candidate at the given time on top of the last entry of a segment. -/
def onTip (p : NetworkProfile) (envelope : Kimoto.Envelope) (c : Segment) (tip : ChainEntry)
    (time : UInt32) : NextWork where
  tip := tip
  height := tip.nextHeight
  algorithm := .select (p.rules.get tip.nextHeight) tip.nextHeight
  bits := p.requiredBits envelope c.predecessor tip (.candidate tip time)

def ofEntries (p : NetworkProfile) (envelope : Kimoto.Envelope) (entries : List ChainEntry)
    (time : UInt32) : Except HeadersFault (NextWork × Segment) :=
  match Segment.ofEntries? entries with
  | none => .error .notContiguous
  | some c =>
    match c.tip? with
    | none => .error .empty
    | some tip => .ok (onTip p envelope c tip time, c)

end NextWork
end PowConsensus.Command
