import PowConsensus.Genesis
import PowConsensus.Network.Rules
import PowConsensus.Retarget.Required
import PowConsensus.Work.Verdict

/-! # Network profiles

All that differs between the networks: message bytes, port, genesis block, checkpoints, address
versions, seeds, policy flags and the rule table. `select` builds a profile by name and verifies
its genesis block.
-/
namespace PowConsensus

structure Checkpoint where
  height : UInt32
  hash : Digest
  deriving DecidableEq

structure ChainActivity where
  /-- Time of the last known block. -/
  time : Int64
  transactions : UInt64
  /-- Expected transactions per second after it. -/
  rate : Float

/-- Version bytes of the base-58 encodings. -/
structure AddressVersions where
  publicKey : List UInt8
  script : List UInt8
  secretKey : List UInt8
  extendedPublicKey : List UInt8
  extendedSecretKey : List UInt8

structure Seed where
  name : String
  host : String

/-- What is fixed for a network before its genesis block is built. -/
structure NetworkConstants where
  messageStart : List UInt8
  defaultPort : UInt16
  pruneAfterHeight : UInt64
  genesisParams : GenesisParams
  /-- In order of height. -/
  checkpoints : List Checkpoint
  activity : ChainActivity
  addresses : AddressVersions
  seeds : List Seed
  miningRequiresPeers : Bool
  consistencyChecks : Bool
  requireStandard : Bool
  mineOnDemand : Bool

namespace Network

def coin : Int64 := 100000000

def mainConstants : NetworkConstants where
  messageStart := [0xde, 0xfa, 0xce, 0xd0]
  defaultPort := 58585
  pruneAfterHeight := 100000
  genesisParams :=
    { time := 1390694380
      nonce := 134632
      bits := ⟨0x1e0ffff0⟩
      version := 1
      reward := 0
      expectedHash := .ofNat 0x142d2acd2480363e89fad37be56ff3b8993dd8da2be2525d75b02e202b0467a7
      expectedMerkleRoot :=
        .ofNat 0xbc7cd78fd30e1ec47e66da50b6eedbaec8d95d01e68f58cb0b2c5e83e9cb8dd3 }
  checkpoints :=
    [⟨100, .ofNat 0x51e6152ac01691360850108d3acbfdb6bc72312a6d50e551424a745a7ddc28ec⟩,
     ⟨1000, .ofNat 0xd8d586d8e99ecdff7d9bcc412e1b8f301e2c5641768b537801e9a7f0619297d6⟩,
     ⟨10000, .ofNat 0x12b0fee6a4a6324a1c3a0f94bfc4cdc3c373a90d680209042dbb612b4349616a⟩,
     ⟨100000, .ofNat 0x0c0628dc3b5df07c22fff9ace256b83e9b6c8c7c664b49b2ab5d3b2e485efb7e⟩,
     ⟨500000, .ofNat 0x50bb03ea8bc032d627c4e2b24e913b822915c2a622ce4a4ae48d531fb2f746ff⟩,
     ⟨1000000, .ofNat 0x3bcf5c1125fd5b01ed7106d064dc02c5a5662b16f37f8d29bf9259a722a8c6ba⟩,
     ⟨1500000, .ofNat 0xb49e622f7a25b8281d1d5285fff910f260417dad864a1f4344eac675563d3743⟩,
     ⟨2000000, .ofNat 0xe189dbd6d907239010d1153b4eba5592f32ef65d8898006ab5b6b9e114e0d7f3⟩,
     ⟨2500000, .ofNat 0xb343373a54c719686ac59c3f004ad8c5cbe1e7b9bbb3e2bafc404a697530d2bb⟩]
  activity := ⟨1585966963, 2800000, 0.0083⟩
  addresses :=
    { publicKey := [63]
      script := [5]
      secretKey := [176]
      extendedPublicKey := [0x02, 0xfa, 0xca, 0xfd]
      extendedSecretKey := [0x02, 0xfa, 0xc3, 0x98] }
  seeds := []
  miningRequiresPeers := true
  consistencyChecks := false
  requireStandard := true
  mineOnDemand := false

/-- The test networks share the versions of extended keys. -/
def testAddresses (publicKey script secretKey : UInt8) : AddressVersions where
  publicKey := [publicKey]
  script := [script]
  secretKey := [secretKey]
  extendedPublicKey := [0x04, 0x35, 0x87, 0xcf]
  extendedSecretKey := [0x04, 0x35, 0x83, 0x94]

def testMerkleRoot : Digest :=
  .ofNat 0x401c7be7b6c88a32fb1563165b3aa729e44e447cd3d19cb5ced56719e4495de5

def testConstants : NetworkConstants where
  messageStart := [0xfc, 0xc1, 0xb7, 0xdc]
  defaultPort := 44556
  pruneAfterHeight := 1000
  genesisParams :=
    { time := 1391503289
      nonce := 997879
      bits := ⟨0x1e0ffff0⟩
      version := 1
      reward := 88 * coin
      expectedHash := .ofNat 0x93587a681030071b0485acfe14923d6eb9fd695ecec3bd2c59e43312a3f3fcf3
      expectedMerkleRoot := testMerkleRoot }
  checkpoints :=
    [⟨483173, .ofNat 0xa804201ca0aceb7e937ef7a3c613a9b7589245b10cc095148c4ce4965b0b73b5⟩,
     ⟨591117, .ofNat 0x5f6b93b2c28cedf32467d900369b8be6700f0649388a7dbfd3ebd4a01b1ffad8⟩,
     ⟨658924, .ofNat 0xed6c8324d9a77195ee080f225a0fca6346495e08ded99bcda47a8eea5a8a620b⟩,
     ⟨703635, .ofNat 0x839fa54617adcd582d53030a37455c14a87a806f6615aa8213f13e196230ff7f⟩,
     ⟨1000000, .ofNat 0x1fe4d44ea4d1edb031f52f0d7c635db8190dc871a190654c41d2450086b8ef0e⟩,
     ⟨1202214, .ofNat 0xa2179767a87ee4e95944703976fee63578ec04fa3ac2fc1c9c2c83587d096977⟩]
  activity := ⟨1514565123, 2005610, 1000.0⟩
  addresses := testAddresses 113 196 241
  seeds := [⟨"jrn.me.uk", "testseed.jrn.me.uk"⟩]
  miningRequiresPeers := true
  consistencyChecks := false
  requireStandard := false
  mineOnDemand := false

def regtestConstants : NetworkConstants where
  messageStart := [0xfa, 0xbf, 0xb5, 0xda]
  defaultPort := 18444
  pruneAfterHeight := 1000
  genesisParams :=
    { time := 1296688602
      nonce := 2
      bits := ⟨0x207fffff⟩
      version := 1
      reward := 88 * coin
      expectedHash := .ofNat 0x5ca593d746c54e989a7f242d90152e5abeb9bc668b79a1ff99d1381cd4a64a71
      expectedMerkleRoot := testMerkleRoot }
  checkpoints := []
  activity := ⟨0, 0, 0.0⟩
  addresses := testAddresses 111 196 239
  seeds := []
  miningRequiresPeers := false
  consistencyChecks := true
  requireStandard := false
  mineOnDemand := true

def constants : Network → NetworkConstants
  | .main => mainConstants
  | .test => testConstants
  | .regtest => regtestConstants

end Network

structure NetworkProfile where
  network : Network
  constants : NetworkConstants
  genesis : GenesisBlock
  rules : RuleStore

namespace NetworkProfile

inductive Fault where
  | unknownNetwork (name : String)
  | genesis (network : Network) (mismatch : GenesisBlock.Mismatch)

def ofNetwork (hash : HashFunction) (n : Network) : Except Fault NetworkProfile :=
  match GenesisBlock.verify hash n.constants.genesisParams with
  | .error mismatch => .error (.genesis n mismatch)
  | .ok block => .ok ⟨n, n.constants, block, n.rules⟩

def select (hash : HashFunction) (name : String) : Except Fault NetworkProfile :=
  match Network.ofName? name with
  | none => .error (.unknownNetwork name)
  | some n => ofNetwork hash n

def requiredBits (p : NetworkProfile) (envelope : Kimoto.Envelope) (index : ChainIndex)
    (tip : ChainEntry) (candidate : Header) : CompactTarget :=
  PowConsensus.requiredBits envelope index tip candidate (p.rules.get tip.nextHeight)

def meetsTarget (p : NetworkProfile) (digest : Digest) (bits : CompactTarget) (height : UInt32) :
    Bool :=
  PowConsensus.meetsTarget digest bits (p.rules.get height)

def checkpoint? (p : NetworkProfile) (height : UInt32) : Option Digest :=
  (p.constants.checkpoints.find? (·.height == height)).map (·.hash)

def lastCheckpoint? (p : NetworkProfile) : Option Checkpoint := p.constants.checkpoints.getLast?

end NetworkProfile
end PowConsensus
