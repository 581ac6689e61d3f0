import PowConsensus.Network.Profile

/-! # Errors

What can be wrong with the configuration or the input of the consensus rules, and its wording. A
block that fails proof of work is a rejection, not an error.
-/
namespace PowConsensus

inductive ConsensusError where
  | unknownNetwork (name : String)
  /-- The network is named as its caller wrote it. -/
  | genesisMismatch (network : String) (mismatch : GenesisBlock.Mismatch)
  | ruleTable (fault : RuleSet.TableFault)
  | digest (fault : Digest.Fault)
  | header (fault : Header.Fault)

namespace ConsensusError

def message : ConsensusError → String
  | .unknownNetwork name => "Unknown network: " ++ name
  | .genesisMismatch network m =>
    s!"Genesis mismatch on {network}: {m.field.name} is {m.found.text}, expected {m.expected.text}"
  | .ruleTable fault => "Invalid rule store: " ++ fault.message
  | .digest fault => "Invalid block header: " ++ fault.message
  | .header fault => "Invalid block header: " ++ fault.message

def ofProfileFault : NetworkProfile.Fault → ConsensusError
  | .unknownNetwork name => .unknownNetwork name
  | .genesis network mismatch => .genesisMismatch network.name mismatch

end ConsensusError
end PowConsensus
