import PowConsensus.Header
import PowConsensus.Retarget.Algorithm
import PowConsensus.Retarget.DarkGravity
import PowConsensus.Retarget.DigiShield
import PowConsensus.Retarget.Kimoto
import PowConsensus.Retarget.Legacy

/-! # Required bits

The bits that a candidate block must carry, given its parent and the history behind it. Missing
history gives the limit of the rules.
-/
namespace PowConsensus

/-- The rules are those in force at the height of the candidate. -/
def requiredBits (envelope : Kimoto.Envelope) (index : ChainIndex) (tip : ChainEntry)
    (candidate : Header) (rules : RuleSet) : CompactTarget :=
  match RetargetAlgorithm.select rules tip.nextHeight with
  | .noRetarget => tip.bits
  | .fork2Pause => tip.bits
  | .darkGravityWave => DarkGravity.requiredBits index tip rules
  | .digiShield => DigiShield.requiredBits index tip rules
  | .kimotoGravityWell => Kimoto.requiredBits envelope index tip rules
  | .legacy => Legacy.requiredBits index tip candidate.time rules

/-- What is worth reporting about how the bits came about. -/
inductive RetargetRemark where
  | copied
  | atLimit
  | shortHistory
  | scaled
  deriving DecidableEq, Repr

def retargetRemark (index : ChainIndex) (tip : ChainEntry) (rules : RuleSet) : RetargetRemark :=
  let ofWindow (start : Option ChainEntry) : RetargetRemark :=
    if start.isSome then .scaled else .shortHistory
  match RetargetAlgorithm.select rules tip.nextHeight with
  | .noRetarget => .copied
  | .fork2Pause => .copied
  | .darkGravityWave => if DarkGravity.applies tip then .scaled else .atLimit
  | .digiShield =>
    if DigiShield.isDue tip rules then ofWindow (DigiShield.windowStart? index tip rules)
    else .copied
  | .kimotoGravityWell => if Kimoto.applies tip rules then .scaled else .atLimit
  | .legacy =>
    if Legacy.isDue tip rules then ofWindow (Legacy.windowStart? index tip rules) else .copied

/-- A header on top of `tip` with the given time; nothing else of it is known yet. -/
def Header.candidate (tip : ChainEntry) (time : UInt32) : Header where
  version := 1
  parent := tip.hash
  merkleRoot := .zero
  time := time
  bits := tip.bits
  nonce := 0

end PowConsensus
