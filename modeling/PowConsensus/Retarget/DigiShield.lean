import PowConsensus.Retarget.Window

/-! # DigiShield

Every block is retargeted by the time its parent took, and the time counts for at least three
quarters and at most one and a half of the spacing aimed at.
-/
namespace PowConsensus.DigiShield

def forkSpacing : Int := 30
def x11Spacing : Int := 120

/-- Seconds between blocks that the algorithm aims at. -/
def spacing (rules : RuleSet) (next : UInt32) : Int :=
  if rules.x11ForkHeight ≤ next then x11Spacing
  else if rules.fork2Height ≤ next then forkSpacing
  else rules.spacing

/-- The timespan is one spacing, so the interval is one block. -/
def interval (rules : RuleSet) (next : UInt32) : Int :=
  (spacing rules next).tdiv (spacing rules next)

def isDue (tip : ChainEntry) (rules : RuleSet) : Bool :=
  (tip.nextHeight.toNat : Int).tmod (interval rules tip.nextHeight) == 0

def lookback (tip : ChainEntry) (rules : RuleSet) : Int :=
  let interval := interval rules tip.nextHeight
  if tip.nextHeight.toNat = interval then interval - 1 else interval

def windowStart? (index : ChainIndex) (tip : ChainEntry) (rules : RuleSet) : Option ChainEntry :=
  PowConsensus.windowStart? index tip (lookback tip rules)

def elapsed (tip first : ChainEntry) (timespan : Int) : Int :=
  clamp (timespan - timespan.tdiv 4) (timespan + timespan.tdiv 2)
    ((tip.time.toNat : Int) - first.time.toNat)

def requiredBits (index : ChainIndex) (tip : ChainEntry) (rules : RuleSet) : CompactTarget :=
  let timespan := spacing rules tip.nextHeight
  if isDue tip rules then
    match windowStart? index tip rules with
    | some first => rules.scaled tip.bits.target (elapsed tip first timespan) timespan
    | none => rules.workLimitBits
  else
    lastOrdinaryBits index tip (interval rules tip.nextHeight) rules.workLimitBits

end PowConsensus.DigiShield
