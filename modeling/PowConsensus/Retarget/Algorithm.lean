import PowConsensus.Rules.RuleSet

/-! # Difficulty algorithms and their eras

The height of the next block, against the fork heights of the rules, decides which algorithm
gives its bits.
-/
namespace PowConsensus

inductive RetargetAlgorithm where
  /-- Every block keeps the bits of its parent. -/
  | noRetarget
  | darkGravityWave
  | digiShield
  /-- One block, at the second fork, keeps the bits of its parent. -/
  | fork2Pause
  | kimotoGravityWell
  | legacy
  deriving DecidableEq, Repr

namespace RetargetAlgorithm

def select (rules : RuleSet) (next : UInt32) : RetargetAlgorithm :=
  if rules.noRetargeting then .noRetarget
  else if rules.fork4Height ≤ next then .darkGravityWave
  else if rules.fork2Height.toNat + 1 ≤ next.toNat then .digiShield
  else if next = rules.fork2Height then .fork2Pause
  else if rules.fork1Height ≤ next then .kimotoGravityWell
  else .legacy

def name : RetargetAlgorithm → String
  | .noRetarget => "no-retarget"
  | .darkGravityWave => "dark-gravity-wave"
  | .digiShield => "digishield"
  | .fork2Pause => "fork2-pause"
  | .kimotoGravityWell => "kimoto-gravity-well"
  | .legacy => "legacy"

end RetargetAlgorithm
end PowConsensus
