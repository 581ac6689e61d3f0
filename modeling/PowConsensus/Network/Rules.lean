import PowConsensus.Network.Basic
import PowConsensus.Rules.RuleStore

/-! # Rule tables of the networks

The main network has one rule set and expresses every fork by fork heights. On the test networks
later sets amend the first one.
-/
namespace PowConsensus.Network

def limitOfBits (n : Nat) : Nat := 2 ^ n - 1

def mainRules : List RuleSet :=
  [{ effectiveHeight := 0
     workLimit := limitOfBits 236
     spacing := 40
     timespan := 2400
     adjustmentForkHeight := 15001
     fork1Height := 35000
     fork2Height := 200000
     x11ForkHeight := 289872
     fork3Height := 300000
     fork4Height := 385000
     noRetargeting := false
     allowMinDifficulty := false
     allowDigiShieldMinDifficulty := false
     digiShieldDifficulty := false
     allowLegacyBlocks := true
     auxiliaryChainId := 0x62
     strictChainId := false
     coinbaseMaturity := 15
     subsidyHalvingInterval := 647800
     majorityEnforceUpgrade := 1500
     majorityRejectOutdated := 1900
     majorityWindow := 2000
     heightInCoinbaseHeight := 1000000
     heightInCoinbaseHash :=
       .ofNat 0x3bcf5c1125fd5b01ed7106d064dc02c5a5662b16f37f8d29bf9259a722a8c6ba
     activationThreshold := 9576
     confirmationWindow := 10080
     minimumChainWork := 0x141a39e783aad4f660f
     assumedValid := .ofNat 0xb343373a54c719686ac59c3f004ad8c5cbe1e7b9bbb3e2bafc404a697530d2bb }]

def testBase : RuleSet where
  effectiveHeight := 0
  workLimit := limitOfBits 236
  spacing := 60
  timespan := 14400
  adjustmentForkHeight := 0
  fork1Height := 0
  fork2Height := 0
  x11ForkHeight := 0
  fork3Height := 0
  fork4Height := 0
  noRetargeting := false
  allowMinDifficulty := true
  allowDigiShieldMinDifficulty := false
  digiShieldDifficulty := false
  allowLegacyBlocks := true
  auxiliaryChainId := 0x62
  strictChainId := false
  coinbaseMaturity := 30
  subsidyHalvingInterval := 100000
  majorityEnforceUpgrade := 501
  majorityRejectOutdated := 750
  majorityWindow := 1000
  heightInCoinbaseHeight := 708658
  heightInCoinbaseHash :=
    .ofNat 0x21b8b97dcdb94caa67c7f8f6dbf22e61e0cfe0e46e1fff3528b22864659e9b38
  activationThreshold := 2880
  confirmationWindow := 10080
  minimumChainWork := 0x1030d1382ade
  assumedValid := .ofNat 0x6943eaeaba98dc7d09f7e73398daccb4abcabb18b66c8c875e52b07638d93951

def testDigiShield : RuleSet :=
  { testBase with
    effectiveHeight := 145000
    timespan := 60
    digiShieldDifficulty := true
    allowMinDifficulty := false
    coinbaseMaturity := 240 }

def testMinDifficulty : RuleSet :=
  { testDigiShield with
    effectiveHeight := 157500
    allowDigiShieldMinDifficulty := true
    allowMinDifficulty := true }

def testRules : List RuleSet :=
  [testBase, testDigiShield, testMinDifficulty,
   { testMinDifficulty with effectiveHeight := 158100, allowLegacyBlocks := false }]

def regtestBase : RuleSet where
  effectiveHeight := 0
  workLimit := limitOfBits 255
  spacing := 1
  timespan := 14400
  adjustmentForkHeight := 0
  fork1Height := 0
  fork2Height := 0
  x11ForkHeight := 0
  fork3Height := 0
  fork4Height := 0
  noRetargeting := true
  allowMinDifficulty := true
  allowDigiShieldMinDifficulty := false
  digiShieldDifficulty := false
  allowLegacyBlocks := true
  auxiliaryChainId := 0x62
  strictChainId := true
  coinbaseMaturity := 60
  subsidyHalvingInterval := 150
  majorityEnforceUpgrade := 750
  majorityRejectOutdated := 950
  majorityWindow := 1000
  heightInCoinbaseHeight := 100000000
  heightInCoinbaseHash := .zero
  activationThreshold := 540
  confirmationWindow := 720
  minimumChainWork := 0
  assumedValid := .zero

def regtestDigiShield : RuleSet :=
  { regtestBase with
    effectiveHeight := 10
    timespan := 1
    digiShieldDifficulty := true }

def regtestRules : List RuleSet :=
  [regtestBase, regtestDigiShield,
   { regtestDigiShield with effectiveHeight := 20, allowLegacyBlocks := false }]

def ruleSets : Network → List RuleSet
  | .main => mainRules
  | .test => testRules
  | .regtest => regtestRules

theorem ruleSets_faultless (n : Network) : RuleSet.tableFault? n.ruleSets = none := by
  cases n <;> decide

def rules (n : Network) : RuleStore := ⟨n.ruleSets, n.ruleSets_faultless⟩

end PowConsensus.Network
