import PowConsensus.Retarget.Window

/-! # Kimoto Gravity Well

Blocks are sampled from the tip backwards until the rate at which they came leaves an envelope
around the expected rate that narrows as the sample grows, but never fewer than a short window
and never more than a long one. The average target is scaled by the time the sample took.

Whether the envelope is left is a parameter, `Envelope`: nothing else rests on floating-point
numbers, and `standardEnvelope` is the one in use.
-/
namespace PowConsensus.Kimoto

def shortSeconds : Int := 1598
def longSeconds : Int := 19980

/-- From the count of blocks, and the actual and expected seconds, whether sampling stops. -/
abbrev Envelope := Nat → Int → Int → Bool

structure Sample where
  mass : Nat
  actual : Int
  expected : Int
  average : Nat
  deriving DecidableEq

namespace Sample

def none : Sample := ⟨0, 0, 0, 0⟩

/-- The running average after one more target: it moves by the share of the newest block. -/
def nextAverage (s : Sample) (target : Nat) : Nat :=
  if s.mass = 0 then target
  else wrapAdd (wrapSub target s.average / (s.mass + 1)) s.average

def add (s : Sample) (tip e : ChainEntry) (spacing : Int) : Sample where
  mass := s.mass + 1
  actual := max ((tip.time.toNat : Int) - e.time.toNat) 0
  expected := spacing * (s.mass + 1)
  average := s.nextAverage e.bits.target

end Sample

def minBlocks (rules : RuleSet) : Nat := (shortSeconds.tdiv rules.spacing).toNat
def maxBlocks (rules : RuleSet) : Nat := (longSeconds.tdiv rules.spacing).toNat

/-- Reads blocks from `e` backwards; the block at height zero is not read. A long window of no
blocks is no bound. -/
def gather (envelope : Envelope) (index : ChainIndex) (tip : ChainEntry) (rules : RuleSet) :
    Nat → ChainEntry → Sample → Sample
  | 0, _, s => s
  | fuel + 1, e, s =>
    if e.height = 0 then s
    else if 0 < maxBlocks rules ∧ maxBlocks rules < s.mass + 1 then s
    else
      let next := s.add tip e rules.spacing
      if minBlocks rules ≤ next.mass ∧ envelope next.mass next.actual next.expected then next
      else
        match index e with
        | .none => next
        | some parent => gather envelope index tip rules fuel parent next

/-- Predecessors in a chain get lower by one, so the height of the tip bounds the sample. -/
def sample (envelope : Envelope) (index : ChainIndex) (tip : ChainEntry) (rules : RuleSet) :
    Sample :=
  gather envelope index tip rules tip.height.toNat tip .none

def applies (tip : ChainEntry) (rules : RuleSet) : Bool :=
  tip.height ≠ 0 ∧ minBlocks rules ≤ tip.height.toNat

def bitsOfSample (s : Sample) (rules : RuleSet) : CompactTarget :=
  if s.actual ≠ 0 ∧ s.expected ≠ 0 then rules.scaled s.average s.actual s.expected
  else rules.cap s.average

def requiredBits (envelope : Envelope) (index : ChainIndex) (tip : ChainEntry) (rules : RuleSet) :
    CompactTarget :=
  if applies tip rules then bitsOfSample (sample envelope index tip rules) rules
  else rules.workLimitBits

/-- How far the rate of a sample of this many blocks may differ from the expected one. -/
def eventHorizon (mass : Nat) : Float :=
  1.0 + 0.7084 * Float.pow (Float.ofNat mass / 39.96) (-1.228)

/-- Expected over actual seconds, or one while either is zero. -/
def rateRatio (actual expected : Int) : Float :=
  if actual ≠ 0 ∧ expected ≠ 0 then Float.ofInt expected / Float.ofInt actual else 1.0

def standardEnvelope : Envelope := fun mass actual expected =>
  let fast := eventHorizon mass
  let ratio := rateRatio actual expected
  ratio ≤ 1.0 / fast || fast ≤ ratio

end PowConsensus.Kimoto
