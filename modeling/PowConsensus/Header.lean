import PowConsensus.Hash.Digest
import PowConsensus.Target.Compact

/-! # Block headers

A header is eighty bytes: version, hash of the parent, Merkle root, time, compact target and
nonce, each number low byte first. `parse` reads exactly what `bytes` writes.
-/
namespace PowConsensus

structure Header where
  version : Int32
  parent : Digest
  merkleRoot : Digest
  time : UInt32
  bits : CompactTarget
  nonce : UInt32
  deriving DecidableEq

namespace Header

def bytes (h : Header) : List UInt8 :=
  littleEndian 4 h.version.toUInt32.toNat ++ h.parent.bytes ++ h.merkleRoot.bytes
    ++ littleEndian 4 h.time.toNat ++ littleEndian 4 h.bits.bits.toNat
    ++ littleEndian 4 h.nonce.toNat

@[simp] theorem length_bytes (h : Header) : h.bytes.length = 80 := by
  simp [bytes, h.parent.length_bytes, h.merkleRoot.length_bytes]

/-- The digest that identifies a header, under the hash function given. -/
def identity (hash : HashFunction) (h : Header) : Digest := hash h.bytes

structure Fault where
  length : Nat
  deriving DecidableEq, Repr

def Fault.message (f : Fault) : String := s!"header must be 80 bytes, got {f.length}"

def wordAt (data : List UInt8) (offset : Nat) : UInt32 :=
  UInt32.ofNat (ofLittleEndian ((data.drop offset).take 4))

def digestAt (data : List UInt8) (offset : Nat) (h : offset + 32 ≤ data.length) : Digest :=
  ⟨(data.drop offset).take 32, by simp; omega⟩

def parse (data : List UInt8) : Except Fault Header :=
  if h : data.length = 80 then
    .ok
      { version := (wordAt data 0).toInt32
        parent := digestAt data 4 (by omega)
        merkleRoot := digestAt data 36 (by omega)
        time := wordAt data 68
        bits := ⟨wordAt data 72⟩
        nonce := wordAt data 76 }
  else .error ⟨data.length⟩

end Header
end PowConsensus
