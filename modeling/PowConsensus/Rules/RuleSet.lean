import PowConsensus.Hash.Digest
import PowConsensus.Target.Compact

/-! # Rule sets

All consensus parameters in force from one height on. The difficulty rules read the first group;
the others are parameters of the network that go with it.
-/
namespace PowConsensus

structure RuleSet where
  effectiveHeight : UInt32
  /-- The largest target that is ever allowed. -/
  workLimit : Nat
  /-- Seconds between blocks, and seconds between retargets. -/
  spacing : Int
  timespan : Int
  adjustmentForkHeight : UInt32
  fork1Height : UInt32
  fork2Height : UInt32
  x11ForkHeight : UInt32
  fork3Height : UInt32
  fork4Height : UInt32
  noRetargeting : Bool
  allowMinDifficulty : Bool
  allowDigiShieldMinDifficulty : Bool
  digiShieldDifficulty : Bool
  allowLegacyBlocks : Bool
  auxiliaryChainId : Int32
  strictChainId : Bool
  coinbaseMaturity : UInt32
  subsidyHalvingInterval : UInt32
  majorityEnforceUpgrade : UInt32
  majorityRejectOutdated : UInt32
  majorityWindow : UInt32
  heightInCoinbaseHeight : UInt32
  heightInCoinbaseHash : Digest
  activationThreshold : UInt32
  confirmationWindow : UInt32
  minimumChainWork : Nat
  assumedValid : Digest
  deriving DecidableEq

namespace RuleSet

/-- Blocks between retargets. -/
def interval (r : RuleSet) : Int := r.timespan.tdiv r.spacing

def workLimitBits (r : RuleSet) : CompactTarget := .encode r.workLimit

end RuleSet
end PowConsensus
