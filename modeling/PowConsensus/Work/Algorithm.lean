import PowConsensus.Header
import PowConsensus.Hash.Standard

/-! # Which hash function proves work

The time in a header alone decides: X11 inside one window of time, scrypt before and after it.
The hash functions themselves are parameters, so that nothing here depends on how they work.
-/
namespace PowConsensus

inductive WorkAlgorithm where
  | scrypt
  | x11
  deriving DecidableEq, Repr

namespace WorkAlgorithm

def windowStart : UInt32 := 1406160001
def windowEnd : UInt32 := 1721779200

def ofTime (time : UInt32) : WorkAlgorithm :=
  if windowStart ≤ time ∧ time < windowEnd then .x11 else .scrypt

def name : WorkAlgorithm → String
  | .scrypt => "scrypt"
  | .x11 => "x11"

def standard : WorkAlgorithm → HashFunction
  | .scrypt => scryptDigest
  | .x11 => x11Digest

end WorkAlgorithm

namespace Header

/-- The digest that is measured against the target. -/
def workDigest (hash : WorkAlgorithm → HashFunction) (h : Header) : Digest :=
  hash (WorkAlgorithm.ofTime h.time) h.bytes

end Header
end PowConsensus
