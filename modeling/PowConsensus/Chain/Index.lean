import PowConsensus.Hash.Digest
import PowConsensus.Target.Compact

/-! # Chain entries and their ancestors

Difficulty rules see a chain through one function, from an entry to its predecessor, which is
missing at the first block and where the known history ends.
-/
namespace PowConsensus

structure ChainEntry where
  hash : Digest
  height : UInt32
  time : UInt32
  bits : CompactTarget
  deriving DecidableEq

abbrev ChainIndex := ChainEntry → Option ChainEntry

namespace ChainEntry

def unhashed (height time : UInt32) (bits : CompactTarget) : ChainEntry :=
  ⟨.zero, height, time, bits⟩

/-- Height of a block on top of this entry; the largest height has no successor. -/
def nextHeight (e : ChainEntry) : UInt32 :=
  if e.height.toNat + 1 < UInt32.size then e.height + 1 else e.height

/-- Walks back as many steps as given or as there is history, and counts the steps taken. -/
def ancestor (index : ChainIndex) (e : ChainEntry) : Nat → ChainEntry × Nat
  | 0 => (e, 0)
  | steps + 1 =>
    match index e with
    | none => (e, 0)
    | some parent =>
      let reached := ancestor index parent steps
      (reached.1, reached.2 + 1)

end ChainEntry
end PowConsensus
