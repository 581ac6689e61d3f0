import PowConsensus.Retarget.Window

/-! # The periodic retarget

Bits change once in an interval of blocks, by the time the last window took. From the adjustment
fork on the window is four intervals long and its time is quartered.
-/
namespace PowConsensus.Legacy

/-- A candidate this many spacings after the tip may take the limit, where the rules allow it. -/
def stallSpacings : Int := 90

/-- Seconds since the start of the window, quartered after the adjustment fork, and at least a
quarter and at most four times the timespan. -/
def elapsed (tip : ChainEntry) (firstTime : Int) (rules : RuleSet) : Int :=
  let seconds := (tip.time.toNat : Int) - firstTime
  let seconds := if rules.adjustmentForkHeight ≤ tip.height then seconds.tdiv 4 else seconds
  clamp (rules.timespan.tdiv 4) (rules.timespan * 4) seconds

def nextBits (tip : ChainEntry) (firstTime : Int) (rules : RuleSet) : CompactTarget :=
  if rules.noRetargeting then tip.bits
  else rules.scaled tip.bits.target (elapsed tip firstTime rules) rules.timespan

def isDue (tip : ChainEntry) (rules : RuleSet) : Bool :=
  (tip.nextHeight.toNat : Int).tmod rules.interval == 0

/-- How many blocks a window spans. The first one can only reach back to block zero. -/
def lookback (tip : ChainEntry) (rules : RuleSet) : Int :=
  if tip.nextHeight.toNat = rules.interval then rules.interval - 1
  else if rules.adjustmentForkHeight ≤ tip.height then 4 * rules.interval
  else rules.interval

def windowStart? (index : ChainIndex) (tip : ChainEntry) (rules : RuleSet) : Option ChainEntry :=
  PowConsensus.windowStart? index tip (lookback tip rules)

/-- Between retargets a block keeps the bits of its parent, but where stalled chains are helped, a
late block gets the limit and the next timely one returns to the bits before it. -/
def bitsBetween (index : ChainIndex) (tip : ChainEntry) (time : UInt32) (rules : RuleSet) :
    CompactTarget :=
  if !rules.allowMinDifficulty then tip.bits
  else if (tip.time.toNat : Int) + rules.spacing * stallSpacings < time.toNat then
    rules.workLimitBits
  else lastOrdinaryBits index tip rules.interval rules.workLimitBits

def requiredBits (index : ChainIndex) (tip : ChainEntry) (time : UInt32) (rules : RuleSet) :
    CompactTarget :=
  if isDue tip rules then
    match windowStart? index tip rules with
    | some first => nextBits tip first.time.toNat rules
    | none => rules.workLimitBits
  else bitsBetween index tip time rules

end PowConsensus.Legacy
