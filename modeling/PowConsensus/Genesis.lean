import PowConsensus.Header
import PowConsensus.Text.Hex
import PowConsensus.Transaction.Basic

/-! # Genesis blocks

The first block of a network is built from a few parameters: a coinbase that carries a message, and
a header over it. A network states the hash and the Merkle root that the block must have, and
`verify` compares them. The hash function is a parameter.
-/
namespace PowConsensus

structure GenesisBlock where
  header : Header
  coinbase : Transaction
  deriving DecidableEq

structure GenesisParams where
  time : UInt32
  nonce : UInt32
  bits : CompactTarget
  version : Int32
  /-- Value of the coinbase output. -/
  reward : Int64
  expectedHash : Digest
  expectedMerkleRoot : Digest
  deriving DecidableEq

namespace GenesisBlock

/-- The two numbers pushed before the message. -/
def bitsNumber : Int := 486604799
def extraNumber : Int := 4

def coinbaseOf (message : List UInt8) (output : Script) (reward : Int64) : Transaction where
  version := 1
  inputs :=
    [{ previous := .null
       script := .ofPushes [.integer bitsNumber, .number extraNumber, .data message]
       sequence := 0xffffffff }]
  outputs := [{ value := reward, script := output }]
  lockTime := 0

/-- With a single transaction the Merkle root is its identifier. -/
def build (hash : HashFunction) (message : List UInt8) (output : Script) (time nonce : UInt32)
    (bits : CompactTarget) (version : Int32) (reward : Int64) : GenesisBlock :=
  let coinbase := coinbaseOf message output reward
  { header :=
      { version := version
        parent := .zero
        merkleRoot := coinbase.identifier hash
        time := time
        bits := bits
        nonce := nonce }
    coinbase := coinbase }

def networkMessage : String := "5 reasons Big Block of Cheese Day Part IV could be a very bad idea"

def networkOutput : Script := .ofPushes [.opcode 0, .opcode Script.checkSignature]

def ofParams (hash : HashFunction) (p : GenesisParams) : GenesisBlock :=
  build hash (Text.utf8 networkMessage.toList) networkOutput p.time p.nonce p.bits p.version
    p.reward

inductive Field where
  | merkleRoot
  | hash
  deriving DecidableEq, Repr

def Field.name : Field → String
  | .merkleRoot => "merkle root"
  | .hash => "hash"

structure Mismatch where
  field : Field
  found : Digest
  expected : Digest
  deriving DecidableEq

/-- The Merkle root is compared first. -/
def verify (hash : HashFunction) (p : GenesisParams) : Except Mismatch GenesisBlock :=
  let block := ofParams hash p
  let root := block.header.merkleRoot
  let identity := block.header.identity hash
  if root ≠ p.expectedMerkleRoot then .error ⟨.merkleRoot, root, p.expectedMerkleRoot⟩
  else if identity ≠ p.expectedHash then .error ⟨.hash, identity, p.expectedHash⟩
  else .ok block

end GenesisBlock
end PowConsensus
