import PowConsensus.Hash.Digest
import PowConsensus.Hash.Scrypt
import PowConsensus.Hash.X11

/-! # The hash functions of blocks

Double SHA-256 identifies headers and transactions. Proof of work uses scrypt with a cost of
1024 and the data as its own salt, or X11 cut to its first thirty-two bytes.
-/
namespace PowConsensus

def doubleSha256 : HashFunction := fun data => ⟨Sha256.hash (Sha256.hash data), by simp⟩

def scryptDigest : HashFunction := fun data => ⟨Scrypt.key 1024 data data, by simp⟩

def x11Digest : HashFunction := fun data => ⟨(X11.hash data).take 32, by simp⟩

end PowConsensus
