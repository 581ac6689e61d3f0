import PowConsensus.Rules.RuleSet

/-! # Checking proof of work

A digest meets compact bits if the bits denote a positive target within the limit of the rules
and the digest, read as a number, is not above it. A rejection names its first reason.
-/
namespace PowConsensus

inductive WorkVerdict where
  | valid
  | negativeTarget
  | zeroTarget
  | overflowTarget
  | aboveLimit
  | hashAboveTarget
  deriving DecidableEq, Repr

namespace WorkVerdict

def text : WorkVerdict → String
  | .valid => "valid"
  | .negativeTarget => "negative target"
  | .zeroTarget => "zero target"
  | .overflowTarget => "target overflows 256 bits"
  | .aboveLimit => "target above proof-of-work limit"
  | .hashAboveTarget => "hash above target"

def of (digest : Digest) (bits : CompactTarget) (rules : RuleSet) : WorkVerdict :=
  let decoded := bits.decode
  if decoded.negative then .negativeTarget
  else if decoded.overflow then .overflowTarget
  else if decoded.value = 0 then .zeroTarget
  else if rules.workLimit < decoded.value then .aboveLimit
  else if decoded.value < digest.toNat then .hashAboveTarget
  else .valid

end WorkVerdict

def meetsTarget (digest : Digest) (bits : CompactTarget) (rules : RuleSet) : Bool :=
  WorkVerdict.of digest bits rules = .valid

/-- Height of the tip from which a stalled chain may continue at the limit. -/
def minDifficultyHeight : UInt32 := 157500

/-- Whether a block at this time may be mined at the limit because the chain has stalled: more
than two spacings have passed since the tip, and the rules and the height allow it. -/
def RuleSet.allowsMinDifficulty (rules : RuleSet) (tipHeight tipTime time : UInt32) : Bool :=
  rules.allowMinDifficulty && minDifficultyHeight ≤ tipHeight
    && (tipTime.toNat : Int) + rules.spacing * 2 < time.toNat

end PowConsensus
