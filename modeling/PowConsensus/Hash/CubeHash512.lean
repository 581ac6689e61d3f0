import PowConsensus.Hash.Words

/-! # CubeHash with sixteen rounds per 32-byte block and a 512-bit output

Thirty-two words are updated by additions, rotations, exclusive ors and swaps of halves whose
indices differ in one bit.
-/
namespace PowConsensus.CubeHash512

abbrev Half := Vector UInt32 16
structure State where
  low : Half
  high : Half

/-- Exchanges the words whose indices differ in the bit of weight `2 ^ k`. -/
def swap (k : Nat) (v : Half) : Half := Vector.ofFn fun i => nth v (i.val ^^^ 2 ^ k)

def round (s : State) : State :=
  let high := Vector.zipWith (· + ·) s.high s.low
  let low := Vector.zipWith (· ^^^ ·) (swap 3 (s.low.map (rotateLeft32 · 7))) high
  let high := Vector.zipWith (· + ·) (swap 1 high) low
  let low := Vector.zipWith (· ^^^ ·) (swap 2 (low.map (rotateLeft32 · 11))) high
  ⟨low, swap 0 high⟩

def rounds (n : Nat) (s : State) : State := n.fold (fun _ _ s => round s) s

def initial : State :=
  rounds 160 ⟨vectorOf 16 [64, 32, 16], Vector.replicate 16 0⟩

def absorb (s : State) (block : List UInt8) : State :=
  rounds 16 { s with low := Vector.zipWith (· ^^^ ·) s.low (words32LE 16 block) }

def hash (message : List UInt8) : List UInt8 :=
  let s := (groups 32 (endMarked 32 0 message)).foldl absorb initial
  bytes32LE (rounds 160 { s with high := s.high.setIfInBounds 15 (nth s.high 15 ^^^ 1) }).low.toList

end PowConsensus.CubeHash512
