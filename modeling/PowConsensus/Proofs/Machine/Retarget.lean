import PowConsensus.Proofs.Machine.Word
import PowConsensus.Retarget.Required

/-! # Retargeting on machine words

The difficulty algorithms once more, with every target and every running average a word of 256
bits. Counts, times and what the envelope decides on are as they were, and so is the part of the
algorithms that does not compute with targets.
-/
namespace PowConsensus.Machine

namespace Kimoto
open PowConsensus.Kimoto (Envelope minBlocks maxBlocks applies)

structure Sample where
  mass : Nat
  actual : Int
  expected : Int
  average : Word

namespace Sample

def none : Sample := ⟨0, 0, 0, 0⟩

def nextAverage (s : Sample) (target : Word) : Word :=
  if s.mass = 0 then target
  else (target - s.average) / divisor (s.mass + 1) + s.average

def add (s : Sample) (tip e : ChainEntry) (spacing : Int) : Sample where
  mass := s.mass + 1
  actual := max ((tip.time.toNat : Int) - e.time.toNat) 0
  expected := spacing * (s.mass + 1)
  average := s.nextAverage (target e.bits)

/-- The sample with its average as a number. -/
abbrev numeric (s : Sample) : PowConsensus.Kimoto.Sample :=
  ⟨s.mass, s.actual, s.expected, s.average.toNat⟩

end Sample

def gather (envelope : Envelope) (index : ChainIndex) (tip : ChainEntry) (rules : RuleSet) :
    Nat → ChainEntry → Sample → Sample
  | 0, _, s => s
  | fuel + 1, e, s =>
    if e.height = 0 then s
    else if 0 < maxBlocks rules ∧ maxBlocks rules < s.mass + 1 then s
    else
      let next := s.add tip e rules.spacing
      if minBlocks rules ≤ next.mass ∧ envelope next.mass next.actual next.expected then next
      else
        match index e with
        | .none => next
        | some parent => gather envelope index tip rules fuel parent next

def sample (envelope : Envelope) (index : ChainIndex) (tip : ChainEntry) (rules : RuleSet) :
    Sample :=
  gather envelope index tip rules tip.height.toNat tip .none

def bitsOfSample (s : Sample) (rules : RuleSet) : CompactTarget :=
  if s.actual ≠ 0 ∧ s.expected ≠ 0 then scaled rules s.average s.actual s.expected
  else cap rules s.average

def requiredBits (envelope : Envelope) (index : ChainIndex) (tip : ChainEntry) (rules : RuleSet) :
    CompactTarget :=
  if applies tip rules then bitsOfSample (sample envelope index tip rules) rules
  else encode (limit rules)

end Kimoto

namespace DarkGravity
open PowConsensus.DarkGravity (window spacing applies)

structure Sample where
  count : Nat
  actual : Int
  lastTime : Int
  average : Word

namespace Sample

def none : Sample := ⟨0, 0, 0, 0⟩

def nextAverage (s : Sample) (target : Word) : Word :=
  if s.count = 0 then target
  else (s.average * multiplier (s.count + 1) + target) / divisor (s.count + 2)

def add (s : Sample) (e : ChainEntry) : Sample where
  count := s.count + 1
  actual := if 0 < s.lastTime then s.actual + (s.lastTime - e.time.toNat) else s.actual
  lastTime := e.time.toNat
  average := s.nextAverage (target e.bits)

/-- The sample with its average as a number. -/
abbrev numeric (s : Sample) : PowConsensus.DarkGravity.Sample :=
  ⟨s.count, s.actual, s.lastTime, s.average.toNat⟩

end Sample

def gather (index : ChainIndex) : Nat → ChainEntry → Sample → Sample
  | 0, _, s => s
  | more + 1, e, s =>
    if e.height = 0 then s
    else
      match index e with
      | .none => s.add e
      | some parent => gather index more parent (s.add e)

def sample (index : ChainIndex) (tip : ChainEntry) : Sample := gather index window tip .none

def bitsOfSample (s : Sample) (rules : RuleSet) : CompactTarget :=
  let expected := s.count * spacing
  scaled rules s.average (clamp (expected.tdiv 3) (expected * 3) s.actual) expected

def requiredBits (index : ChainIndex) (tip : ChainEntry) (rules : RuleSet) : CompactTarget :=
  if applies tip then bitsOfSample (sample index tip) rules else encode (limit rules)

end DarkGravity

namespace DigiShield
open PowConsensus.DigiShield (spacing interval isDue elapsed)

def requiredBits (index : ChainIndex) (tip : ChainEntry) (rules : RuleSet) : CompactTarget :=
  let timespan := spacing rules tip.nextHeight
  if isDue tip rules then
    match PowConsensus.DigiShield.windowStart? index tip rules with
    | some first => scaled rules (target tip.bits) (elapsed tip first timespan) timespan
    | none => encode (limit rules)
  else
    lastOrdinaryBits index tip (interval rules tip.nextHeight) (encode (limit rules))

end DigiShield

namespace Legacy
open PowConsensus.Legacy (stallSpacings elapsed isDue)

def nextBits (tip : ChainEntry) (firstTime : Int) (rules : RuleSet) : CompactTarget :=
  if rules.noRetargeting then tip.bits
  else scaled rules (target tip.bits) (elapsed tip firstTime rules) rules.timespan

def bitsBetween (index : ChainIndex) (tip : ChainEntry) (time : UInt32) (rules : RuleSet) :
    CompactTarget :=
  if !rules.allowMinDifficulty then tip.bits
  else if (tip.time.toNat : Int) + rules.spacing * stallSpacings < time.toNat then
    encode (limit rules)
  else lastOrdinaryBits index tip rules.interval (encode (limit rules))

def requiredBits (index : ChainIndex) (tip : ChainEntry) (time : UInt32) (rules : RuleSet) :
    CompactTarget :=
  if isDue tip rules then
    match PowConsensus.Legacy.windowStart? index tip rules with
    | some first => nextBits tip first.time.toNat rules
    | none => encode (limit rules)
  else bitsBetween index tip time rules

end Legacy

def requiredBits (envelope : PowConsensus.Kimoto.Envelope) (index : ChainIndex)
    (tip : ChainEntry) (candidate : Header) (rules : RuleSet) : CompactTarget :=
  match RetargetAlgorithm.select rules tip.nextHeight with
  | .noRetarget => tip.bits
  | .fork2Pause => tip.bits
  | .darkGravityWave => DarkGravity.requiredBits index tip rules
  | .digiShield => DigiShield.requiredBits index tip rules
  | .kimotoGravityWell => Kimoto.requiredBits envelope index tip rules
  | .legacy => Legacy.requiredBits index tip candidate.time rules

end PowConsensus.Machine
