import PowConsensus.Retarget.Window

/-! # Dark Gravity Wave

The targets of the last twenty-four blocks are averaged, with the newest counting twice, and the
average is scaled by the time those blocks took, within a third and three times of two minutes each.
-/
namespace PowConsensus.DarkGravity

def window : Nat := 24
def spacing : Int := 120

structure Sample where
  count : Nat
  /-- Seconds between the blocks read so far. -/
  actual : Int
  /-- Time of the block read last, or zero before the first. -/
  lastTime : Int
  average : Nat
  deriving DecidableEq

namespace Sample

def none : Sample := ⟨0, 0, 0, 0⟩

/-- The running average after one more target. -/
def nextAverage (s : Sample) (target : Nat) : Nat :=
  if s.count = 0 then target
  else wrapAdd (wrapMul s.average (s.count + 1)) target / (s.count + 2)

def add (s : Sample) (e : ChainEntry) : Sample where
  count := s.count + 1
  actual := if 0 < s.lastTime then s.actual + (s.lastTime - e.time.toNat) else s.actual
  lastTime := e.time.toNat
  average := s.nextAverage e.bits.target

end Sample

/-- Reads at most `more` blocks from `e` backwards; the block at height zero is not read. -/
def gather (index : ChainIndex) : Nat → ChainEntry → Sample → Sample
  | 0, _, s => s
  | more + 1, e, s =>
    if e.height = 0 then s
    else
      match index e with
      | .none => s.add e
      | some parent => gather index more parent (s.add e)

def sample (index : ChainIndex) (tip : ChainEntry) : Sample := gather index window tip .none

def applies (tip : ChainEntry) : Bool := tip.height ≠ 0 ∧ window ≤ tip.height.toNat

def bitsOfSample (s : Sample) (rules : RuleSet) : CompactTarget :=
  let expected := s.count * spacing
  rules.scaled s.average (clamp (expected.tdiv 3) (expected * 3) s.actual) expected

def requiredBits (index : ChainIndex) (tip : ChainEntry) (rules : RuleSet) : CompactTarget :=
  if applies tip then bitsOfSample (sample index tip) rules else rules.workLimitBits

end PowConsensus.DarkGravity
