import PowConsensus.Retarget.Required
import PowConsensus.Rules.Checked
import PowConsensus.Work.Verdict

/-! # Required bits in checked arithmetic

The difficulty algorithms as a machine runs them: every sum, product, quotient and range of seconds
and of counts of blocks is checked. Targets are 256-bit words that wrap, and only their divisors are
checked. Where no operation is at fault the bits are those of `requiredBits`.
-/
namespace PowConsensus.Checked

/-- `x` moved into the range from `low` to `high`. -/
def within (low high x : Int) : Checked Int :=
  if low ≤ high then .ok (clamp low high x) else .error .emptyRange

def scaled (rules : RuleSet) (target : Nat) (elapsed expected : Int) : Checked CompactTarget :=
  if expected = 0 then .error .zeroDivisor else .ok (rules.scaled target elapsed expected)

/-- The place of every block in its interval is checked. -/
def ordinaryBits (index : ChainIndex) (interval : Int) (ceiling : CompactTarget) :
    Nat → ChainEntry → Checked CompactTarget
  | 0, e => do
    let _ ← remainder e.height.toNat interval
    return e.bits
  | fuel + 1, e => do
    let place ← remainder e.height.toNat interval
    if place ≠ 0 ∧ e.bits = ceiling then
      match index e with
      | none => return e.bits
      | some parent => ordinaryBits index interval ceiling fuel parent
    else return e.bits

namespace Legacy
open PowConsensus.Legacy (stallSpacings)

/-- Quartered after the adjustment fork. -/
def damped (tip : ChainEntry) (rules : RuleSet) (seconds : Int) : Checked Int :=
  if rules.adjustmentForkHeight ≤ tip.height then quotient seconds 4 else return seconds

def elapsed (tip : ChainEntry) (firstTime : Int) (rules : RuleSet) : Checked Int := do
  let seconds ← difference tip.time.toNat firstTime
  let seconds ← damped tip rules seconds
  let least ← quotient rules.timespan 4
  let most ← product rules.timespan 4
  within least most seconds

def nextBits (tip : ChainEntry) (firstTime : Int) (rules : RuleSet) : Checked CompactTarget :=
  if rules.noRetargeting then return tip.bits
  else do
    let seconds ← elapsed tip firstTime rules
    scaled rules tip.bits.target seconds rules.timespan

def lookback (tip : ChainEntry) (rules : RuleSet) (interval : Int) : Checked Int :=
  if tip.nextHeight.toNat = interval then difference interval 1
  else if rules.adjustmentForkHeight ≤ tip.height then product 4 interval
  else return interval

def bitsBetween (index : ChainIndex) (tip : ChainEntry) (time : UInt32) (rules : RuleSet)
    (interval : Int) : Checked CompactTarget :=
  if !rules.allowMinDifficulty then return tip.bits
  else do
    let stall ← product rules.spacing stallSpacings
    let latest ← sum tip.time.toNat stall
    if latest < time.toNat then return rules.workLimitBits
    else ordinaryBits index interval rules.workLimitBits tip.height.toNat tip

def requiredBits (index : ChainIndex) (tip : ChainEntry) (time : UInt32) (rules : RuleSet) :
    Checked CompactTarget := do
  let interval ← interval rules
  let place ← remainder tip.nextHeight.toNat interval
  if place ≠ 0 then bitsBetween index tip time rules interval
  else
    let blocks ← lookback tip rules interval
    match windowStart? index tip blocks with
    | some first => nextBits tip first.time.toNat rules
    | none => return rules.workLimitBits

end Legacy

namespace DigiShield
open PowConsensus.DigiShield (spacing)

def lookback (tip : ChainEntry) (interval : Int) : Checked Int :=
  if tip.nextHeight.toNat = interval then difference interval 1 else return interval

def elapsed (tip first : ChainEntry) (timespan : Int) : Checked Int := do
  let seconds ← difference tip.time.toNat first.time.toNat
  let quarter ← quotient timespan 4
  let least ← difference timespan quarter
  let half ← quotient timespan 2
  let most ← sum timespan half
  within least most seconds

def requiredBits (index : ChainIndex) (tip : ChainEntry) (rules : RuleSet) :
    Checked CompactTarget := do
  let timespan := spacing rules tip.nextHeight
  let interval ← quotient timespan timespan
  let place ← remainder tip.nextHeight.toNat interval
  if place ≠ 0 then ordinaryBits index interval rules.workLimitBits tip.height.toNat tip
  else
    let blocks ← lookback tip interval
    match windowStart? index tip blocks with
    | some first =>
      let seconds ← elapsed tip first timespan
      scaled rules tip.bits.target seconds timespan
    | none => return rules.workLimitBits

end DigiShield

namespace DarkGravity
open PowConsensus.DarkGravity (Sample window spacing applies)

/-- Seconds between the blocks read so far and one more. -/
def seconds (s : Sample) (e : ChainEntry) : Checked Int :=
  if 0 < s.lastTime then do
    let gap ← difference s.lastTime e.time.toNat
    sum s.actual gap
  else return s.actual

def add (s : Sample) (e : ChainEntry) : Checked Sample := do
  let actual ← seconds s e
  return { s.add e with actual := actual }

def gather (index : ChainIndex) : Nat → ChainEntry → Sample → Checked Sample
  | 0, _, s => return s
  | more + 1, e, s =>
    if e.height = 0 then return s
    else do
      let next ← add s e
      match index e with
      | .none => return next
      | some parent => gather index more parent next

def bitsOfSample (s : Sample) (rules : RuleSet) : Checked CompactTarget := do
  let expected ← product s.count spacing
  let least ← quotient expected 3
  let most ← product expected 3
  let seconds ← within least most s.actual
  scaled rules s.average seconds expected

def requiredBits (index : ChainIndex) (tip : ChainEntry) (rules : RuleSet) :
    Checked CompactTarget :=
  if applies tip then do
    let s ← gather index window tip .none
    bitsOfSample s rules
  else return rules.workLimitBits

end DarkGravity

namespace Kimoto
open PowConsensus.Kimoto (Envelope Sample shortSeconds longSeconds)

def add (s : Sample) (tip e : ChainEntry) (spacing : Int) : Checked Sample := do
  let past ← difference tip.time.toNat e.time.toNat
  let expected ← product spacing (s.mass + 1)
  return { s.add tip e spacing with actual := max past 0, expected := expected }

/-- The short and the long window are given as counts of blocks. -/
def gather (envelope : Envelope) (index : ChainIndex) (tip : ChainEntry) (rules : RuleSet)
    (least most : Nat) : Nat → ChainEntry → Sample → Checked Sample
  | 0, _, s => return s
  | fuel + 1, e, s =>
    if e.height = 0 then return s
    else if 0 < most ∧ most < s.mass + 1 then return s
    else do
      let next ← add s tip e rules.spacing
      if least ≤ next.mass ∧ envelope next.mass next.actual next.expected then return next
      else
        match index e with
        | .none => return next
        | some parent => gather envelope index tip rules least most fuel parent next

def bitsOfSample (s : Sample) (rules : RuleSet) : Checked CompactTarget :=
  if s.actual ≠ 0 ∧ s.expected ≠ 0 then scaled rules s.average s.actual s.expected
  else return rules.cap s.average

def requiredBits (envelope : Envelope) (index : ChainIndex) (tip : ChainEntry) (rules : RuleSet) :
    Checked CompactTarget := do
  let least ← quotient shortSeconds rules.spacing
  let most ← quotient longSeconds rules.spacing
  if tip.height = 0 ∨ tip.height.toNat < least.toNat then return rules.workLimitBits
  else
    let s ← gather envelope index tip rules least.toNat most.toNat tip.height.toNat tip .none
    bitsOfSample s rules

end Kimoto

def requiredBits (envelope : PowConsensus.Kimoto.Envelope) (index : ChainIndex)
    (tip : ChainEntry) (candidate : Header) (rules : RuleSet) : Checked CompactTarget :=
  match RetargetAlgorithm.select rules tip.nextHeight with
  | .noRetarget => return tip.bits
  | .fork2Pause => return tip.bits
  | .darkGravityWave => DarkGravity.requiredBits index tip rules
  | .digiShield => DigiShield.requiredBits index tip rules
  | .kimotoGravityWell => Kimoto.requiredBits envelope index tip rules
  | .legacy => Legacy.requiredBits index tip candidate.time rules

def allowsMinDifficulty (rules : RuleSet) (tipHeight tipTime time : UInt32) : Checked Bool :=
  if !rules.allowMinDifficulty then return false
  else if tipHeight < minDifficultyHeight then return false
  else do
    let stall ← product rules.spacing 2
    let latest ← sum tipTime.toNat stall
    return latest < time.toNat

end PowConsensus.Checked
