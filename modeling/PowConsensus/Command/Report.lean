import PowConsensus.Hash.Standard
import PowConsensus.Network.Profile
import PowConsensus.Text.Hex
import PowConsensus.Work.Algorithm

/-! # Reports of the node

Each command prints lines about the selected network. They are given here as lists of lines.
-/
namespace PowConsensus.Command

def yesNo (b : Bool) : String := if b then "true" else "false"

def versionLine : String := "smartcoin-node 0.1.0"

def versionReport : List String :=
  ["Smartcoin Node",
   "Version: 0.1.0",
   "",
   "Built with:",
   "  scrypt and X11 proof of work",
   "  Dark Gravity Wave / DigiShield / Kimoto Gravity Well retargeting"]

def genesisWork (p : NetworkProfile) : Digest :=
  p.genesis.header.workDigest WorkAlgorithm.standard

def genesisVerdict (p : NetworkProfile) : WorkVerdict :=
  .of (genesisWork p) p.genesis.header.bits (p.rules.get 0)

def genesisHash (p : NetworkProfile) : Digest := p.genesis.header.identity doubleSha256

def lastCheckpointLines (p : NetworkProfile) : List String :=
  match p.lastCheckpoint? with
  | some last => [s!"Last checkpoint:  {last.hash.text} at {last.height}"]
  | none => []

def checkReport (p : NetworkProfile) : List String :=
  [s!"Network:          {p.network.name}",
   s!"Message start:    {Text.hex p.constants.messageStart}",
   s!"Default port:     {p.constants.defaultPort}",
   s!"Genesis hash:     {(genesisHash p).text}",
   s!"Genesis PoW:      {(genesisWork p).text} ({(genesisVerdict p).text})",
   s!"Rule-sets:        {p.rules.ruleSets.length}",
   s!"Checkpoints:      {p.constants.checkpoints.length}"]
  ++ lastCheckpointLines p
  ++ [s!"DNS seeds:        {p.constants.seeds.length}"]

def forksLine (r : RuleSet) : String :=
  s!"Forks:               interval={r.adjustmentForkHeight} fork1={r.fork1Height} "
  ++ s!"fork2={r.fork2Height} x11={r.x11ForkHeight} fork3={r.fork3Height} fork4={r.fork4Height}"

def rulesReport (p : NetworkProfile) (height : UInt32) : List String :=
  let r := p.rules.get height
  [s!"Height:              {height}",
   s!"Effective from:      {r.effectiveHeight}",
   s!"Retarget algorithm:  {(RetargetAlgorithm.select r height).name}",
   s!"PoW limit:           {r.workLimitBits.text}",
   s!"Target spacing:      {r.spacing}s",
   s!"Target timespan:     {r.timespan}s",
   forksLine r,
   s!"No retargeting:      {yesNo r.noRetargeting}",
   s!"Min-difficulty:      {yesNo r.allowMinDifficulty}",
   s!"AuxPoW chain id:     0x{Text.hexNumber r.auxiliaryChainId.toUInt32.toNat}",
   s!"Coinbase maturity:   {r.coinbaseMaturity}"]

def genesisReport (p : NetworkProfile) : List String :=
  let h := p.genesis.header
  [s!"Hash:         {(genesisHash p).text}",
   s!"Merkle root:  {h.merkleRoot.text}",
   s!"Time:         {h.time}",
   s!"Nonce:        {h.nonce}",
   s!"Bits:         {h.bits.text}",
   s!"Version:      {h.version}",
   s!"PoW algorithm: {(WorkAlgorithm.ofTime h.time).name}",
   s!"Header:       {Text.hex h.bytes}",
   s!"Coinbase:     {Text.hex p.genesis.coinbase.bytes}"]

/-- What is required of the block after a tip. -/
structure NextWork where
  tip : ChainEntry
  height : UInt32
  algorithm : RetargetAlgorithm
  bits : CompactTarget
  deriving DecidableEq

def NextWork.report (n : NextWork) : List String :=
  [s!"Tip:        {n.tip.height} (bits {n.tip.bits.text})",
   s!"Height:     {n.height}",
   s!"Algorithm:  {n.algorithm.name}",
   s!"Bits:       {n.bits.text}"]

end PowConsensus.Command
