import PowConsensus.Chain.Index
import PowConsensus.Rules.RuleSet

/-! # Windows of history and scaled targets

What the difficulty algorithms share: the block some way behind the tip, the last bits that were
not an allowance for a stalled chain, and a target scaled by elapsed time over expected time.
-/
namespace PowConsensus

/-- `x` moved into the range from `low` to `high`. -/
def clamp (low high x : Int) : Int := if x < low then low else if high < x then high else x

/-- A target under the limit of the rules, encoded. -/
def RuleSet.cap (rules : RuleSet) (target : Nat) : CompactTarget :=
  if rules.workLimit < target then .encode rules.workLimit else .encode target

/-- `target * elapsed / expected` as 256-bit words with a 32-bit multiplier, capped. -/
def RuleSet.scaled (rules : RuleSet) (target : Nat) (elapsed expected : Int) : CompactTarget :=
  rules.cap (wrapMul target (elapsed % 2 ^ 32).toNat / expected.toNat)

/-- The block that many steps behind the tip, if the history reaches so far. A step count is a
32-bit number. -/
def windowStart? (index : ChainIndex) (tip : ChainEntry) (blocks : Int) : Option ChainEntry :=
  let steps := min blocks.toNat (UInt32.size - 1)
  let reached := tip.ancestor index steps
  if reached.2 = steps then some reached.1 else none

/-- Walks back over blocks that carry the ceiling and are not at a multiple of the interval, while
their predecessors are known; at most `fuel` steps. -/
def ordinaryBits (index : ChainIndex) (interval : Int) (ceiling : CompactTarget) :
    Nat → ChainEntry → CompactTarget
  | 0, e => e.bits
  | fuel + 1, e =>
    if (e.height.toNat : Int).tmod interval ≠ 0 ∧ e.bits = ceiling then
      match index e with
      | none => e.bits
      | some parent => ordinaryBits index interval ceiling fuel parent
    else e.bits

/-- Bits of the last block not mined under the allowance for a stalled chain. Predecessors in a
chain get lower by one, so the height of the tip bounds the walk. -/
def lastOrdinaryBits (index : ChainIndex) (tip : ChainEntry) (interval : Int)
    (ceiling : CompactTarget) : CompactTarget :=
  ordinaryBits index interval ceiling tip.height.toNat tip

end PowConsensus
