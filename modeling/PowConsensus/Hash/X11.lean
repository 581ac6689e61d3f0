import PowConsensus.Hash.Blake512
import PowConsensus.Hash.Bmw512
import PowConsensus.Hash.Groestl512
import PowConsensus.Hash.Skein512
import PowConsensus.Hash.Jh512
import PowConsensus.Hash.Keccak512
import PowConsensus.Hash.Luffa512
import PowConsensus.Hash.CubeHash512
import PowConsensus.Hash.Shavite512
import PowConsensus.Hash.Simd512
import PowConsensus.Hash.Echo512

/-! # X11

Eleven 512-bit hash functions, each applied to the result of the one before.
-/
namespace PowConsensus.X11

def chained : List (List UInt8 → List UInt8) :=
  [Blake512.hash, Bmw512.hash, Groestl512.hash, Skein512.hash, Jh512.hash, Keccak512.hash,
   Luffa512.hash, CubeHash512.hash, Shavite512.hash, Simd512.hash, Echo512.hash]

def hash (message : List UInt8) : List UInt8 := chained.foldl (fun data h => h data) message

theorem hash_eq (message : List UInt8) :
    hash message = Echo512.hash (chained.dropLast.foldl (fun data h => h data) message) := rfl

@[simp] theorem length_hash (message : List UInt8) : (hash message).length = 64 := by
  rw [hash_eq, Echo512.length_hash]

end PowConsensus.X11
