import PowConsensus.Proofs.Retarget.Blocks
import PowConsensus.Proofs.Retarget.Windows
import PowConsensus.Proofs.Rules.Lookup

/-! # What missing history gives

Without the start of its window a retarget by time gives the limit. The algorithms that sample
blocks give it only to a tip that is too low for a sample. Where the history is cut off below a
higher tip they make do with the blocks that are left, and what comes out is the limit only if the
partial sample comes to it.
-/
namespace PowConsensus
open Segment

section Lacking
variable {c : Segment} {tip : ChainEntry} {rules : RuleSet} (hheld : c.Holds tip)
include hheld

theorem Legacy.requiredBits_of_lacks (hheight : tip.height.toNat < UInt32.size - 1)
    (hdue : isDue tip rules = true) (hlacks : c.LacksBelow tip (lookback tip rules).toNat)
    (time : UInt32) : requiredBits c.predecessor tip time rules = rules.workLimitBits := by
  have hshort := hheld.lacksBelow_iff.mp hlacks
  exact requiredBits_of_no_start hdue (hheld.windowStart?_eq_none hheight hshort) time

theorem DigiShield.requiredBits_of_lacks (hheight : tip.height.toNat < UInt32.size - 1)
    (hspacing : 0 < spacing rules tip.nextHeight) (hne : tip.height ≠ 0)
    (hlacks : c.LacksBelow tip 1) :
    requiredBits c.predecessor tip rules = rules.workLimitBits := by
  have hshort := hheld.lacksBelow_iff.mp hlacks
  have hlookback : lookback tip rules = 1 := lookback_of_spacing hspacing hne
  apply requiredBits_of_no_start hspacing
  apply hheld.windowStart?_eq_none hheight
  rw [hlookback]
  exact hshort

/-- All blocks that are held from the tip downwards, when they are fewer than a full window. -/
structure Remainder (c : Segment) (tip : ChainEntry) (window : Nat) (blocks : List ChainEntry) :
    Prop where
  descends : c.Descends tip blocks
  length_eq : blocks.length = tip.height.toNat - c.base.toNat + 1
  length_lt : blocks.length < window

/-- The trail of a tip, read to either depth, is what remains if less than a window is held. -/
theorem remainder_trail {window depth : Nat} (hdepth : window ≤ depth)
    (hheight : window ≤ tip.height.toNat) (hlacks : c.LacksBelow tip (window - 1)) :
    Remainder c tip window (tip.trail c.predecessor depth) := by
  have hshort := hheld.lacksBelow_iff.mp hlacks
  have hlength := hheld.length_trail depth
  exact ⟨hheld.descends_trail depth, by omega, by omega⟩

theorem DarkGravity.requiredBits_of_lacks (hheight : 24 ≤ tip.height.toNat)
    (hlacks : c.LacksBelow tip 23) : ∃ blocks, Remainder c tip 24 blocks ∧
      requiredBits c.predecessor tip rules = bitsOfSample (.ofBlocks blocks) rules :=
  ⟨_, remainder_trail hheld (Nat.le_refl 24) hheight hlacks, requiredBits_of_height hheight⟩

/-- A sample shorter than a short window is all there was, whatever the envelope decides. -/
theorem Kimoto.requiredBits_of_lacks (hspacing : 0 < rules.spacing) (hmin : 1 ≤ minBlocks rules)
    (hheight : minBlocks rules ≤ tip.height.toNat)
    (hlacks : c.LacksBelow tip (minBlocks rules - 1)) (envelope : Envelope) :
    ∃ blocks, Remainder c tip (minBlocks rules) blocks ∧
      requiredBits envelope c.predecessor tip rules =
        bitsOfSample (.ofBlocks tip rules.spacing blocks) rules := by
  have hremainder := remainder_trail hheld hheight hheight hlacks
  have hne : tip.height ≠ 0 := toNat_ne_zero_iff.mp (by omega)
  have happlies : applies tip rules = true := decide_eq_true ⟨hne, hheight⟩
  obtain ⟨blocks, htaken, hsample⟩ : ∃ blocks,
      Taken rules 0 (tip.trail c.predecessor tip.height.toNat) blocks ∧
      sample envelope c.predecessor tip rules = .ofBlocks tip rules.spacing blocks :=
    sample_eq hspacing tip
  have hall : blocks = tip.trail c.predecessor tip.height.toNat := by
    rcases htaken.short with hall | hfull
    · exact hall
    · obtain ⟨n, rfl⟩ := htaken.isTake
      have hle := List.length_take_le' n (tip.trail c.predecessor tip.height.toNat)
      have hlt := hremainder.length_lt
      omega
  rw [requiredBits, if_pos happlies, hsample, hall]
  exact ⟨_, hremainder, rfl⟩

end Lacking

/-- A tip with less history than the selected algorithm needs: the bits are those of the limit for
a due periodic retarget and for DigiShield, but those of the sample of all blocks that remain for
Dark Gravity Wave and Kimoto Gravity Well. -/
theorem bits_required_on_missing_history (store : RuleStore) (rules : RuleSet)
    (hrules : rules ∈ store.ruleSets) (c : Segment) (tip : ChainEntry) (hheld : c.Holds tip)
    (hheight : tip.height.toNat < UInt32.size - 1) (envelope : Kimoto.Envelope)
    (candidate : Header) :
    let bits := requiredBits envelope c.predecessor tip candidate rules
    let algorithm := RetargetAlgorithm.select rules tip.nextHeight
    (algorithm = .legacy → Legacy.isDue tip rules = true →
      c.LacksBelow tip (Legacy.lookback tip rules).toNat → bits = rules.workLimitBits) ∧
    (algorithm = .digiShield → 1 ≤ tip.height.toNat → c.LacksBelow tip 1 →
      bits = rules.workLimitBits) ∧
    (algorithm = .darkGravityWave → 24 ≤ tip.height.toNat → c.LacksBelow tip 23 →
      ∃ blocks, Remainder c tip 24 blocks ∧
        bits = DarkGravity.bitsOfSample (.ofBlocks blocks) rules ∧
        (rules.workLimit < 2 ^ 256 → (bits = rules.workLimitBits ↔
          rules.workLimitBits.target ≤ (DarkGravity.Sample.ofBlocks blocks).uncapped))) ∧
    (algorithm = .kimotoGravityWell → 1 ≤ Kimoto.minBlocks rules →
      Kimoto.minBlocks rules ≤ tip.height.toNat →
      c.LacksBelow tip (Kimoto.minBlocks rules - 1) →
      ∃ blocks, Remainder c tip (Kimoto.minBlocks rules) blocks ∧
        bits = Kimoto.bitsOfSample (.ofBlocks tip rules.spacing blocks) rules ∧
        (rules.workLimit < 2 ^ 256 → (bits = rules.workLimitBits ↔ rules.workLimitBits.target ≤
          (Kimoto.Sample.ofBlocks tip rules.spacing blocks).uncapped))) := by
  intro bits algorithm
  refine ⟨fun hera hdue hlacks => ?_, fun hera hpos hlacks => ?_, fun hera hlow hlacks => ?_,
    fun hera hmin hlow hlacks => ?_⟩
  · have hbits : bits = Legacy.requiredBits c.predecessor tip candidate.time rules :=
      requiredBits_of_select hera
    rw [hbits]
    exact Legacy.requiredBits_of_lacks hheld hheight hdue hlacks _
  · have hbits : bits = DigiShield.requiredBits c.predecessor tip rules :=
      requiredBits_of_select hera
    rw [hbits]
    exact DigiShield.requiredBits_of_lacks hheld hheight
      (DigiShield.spacing_bounds_of_select hera).1 (toNat_ne_zero_iff.mp (by omega)) hlacks
  · have hbits : bits = DarkGravity.requiredBits c.predecessor tip rules :=
      requiredBits_of_select hera
    obtain ⟨blocks, hremainder, heq⟩ := DarkGravity.requiredBits_of_lacks hheld hlow hlacks
    refine ⟨blocks, hremainder, hbits.trans heq, fun hlimit => ?_⟩
    rw [hbits, heq, DarkGravity.bitsOfSample_eq_cap]
    exact RuleSet.cap_eq_workLimitBits_iff hlimit
  · have hbits : bits = Kimoto.requiredBits envelope c.predecessor tip rules :=
      requiredBits_of_select hera
    have hspacing := store.spacing_pos hrules
    obtain ⟨blocks, hremainder, heq⟩ :=
      Kimoto.requiredBits_of_lacks hheld hspacing hmin hlow hlacks envelope
    refine ⟨blocks, hremainder, hbits.trans heq, fun hlimit => ?_⟩
    rw [hbits, heq, Kimoto.bitsOfSample_eq_cap]
    exact RuleSet.cap_eq_workLimitBits_iff hlimit

/-- A single known block of the main network, after the fourth fork or after the first. Either is
held, and lacks blocks that its algorithm needs, yet the limit is not required of the next one but
a third of its target, or its own bits. -/
theorem limit_is_not_required_on_missing_history :
    let rules := Network.mainRules[0]
    let alone (tip : ChainEntry) : Segment := (Segment.startingAt tip.height).push tip.time tip.bits
    let demand (tip : ChainEntry) : CompactTarget := requiredBits Kimoto.standardEnvelope
      (alone tip).predecessor tip (.candidate tip 0) rules
    let wave := ChainEntry.unhashed 400000 1500000000 ⟨0x1b0404cb⟩
    let well := ChainEntry.unhashed 100000 1400000000 ⟨0x1c1a1206⟩
    ((alone wave).Holds wave ∧ (alone wave).LacksBelow wave 23 ∧
      RetargetAlgorithm.select rules wave.nextHeight = .darkGravityWave ∧
      demand wave = ⟨0x1b0156ee⟩) ∧
    ((alone well).Holds well ∧ (alone well).LacksBelow well (Kimoto.minBlocks rules - 1) ∧
      RetargetAlgorithm.select rules well.nextHeight = .kimotoGravityWell ∧
      demand well = ⟨0x1c1a1206⟩) ∧
    rules.workLimitBits = ⟨0x1e0fffff⟩ := by
  intro rules alone demand wave well
  have hwave : (alone wave).Holds wave := by decide
  have hwell : (alone well).Holds well := by decide
  have hwaveLacks : (alone wave).LacksBelow wave 23 := hwave.lacksBelow_iff.mpr (by decide)
  have hwellLacks : (alone well).LacksBelow well (Kimoto.minBlocks rules - 1) :=
    hwell.lacksBelow_iff.mpr (by decide)
  refine ⟨⟨hwave, hwaveLacks, rfl, ?_⟩, ⟨hwell, hwellLacks, rfl, ?_⟩, ?_⟩
  · decide
  · decide
  · decide

/-- Two blocks of the main network a minute apart are what remains of a window of twenty-four. -/
theorem bits_required_on_missing_history_after_fork4 :
    let rules := Network.mainRules[0]
    let c := ((Segment.startingAt 399999).push 1500000000 ⟨0x1b0404cb⟩).push 1500000060 ⟨0x1b0500a0⟩
    let tip := ChainEntry.unhashed 400000 1500000060 ⟨0x1b0500a0⟩
    rules ∈ Network.main.rules.ruleSets ∧ c.Holds tip ∧ tip.height.toNat < UInt32.size - 1 ∧
    ∃ blocks, Remainder c tip 24 blocks ∧
      requiredBits Kimoto.standardEnvelope c.predecessor tip (.candidate tip 0) rules =
        DarkGravity.bitsOfSample (.ofBlocks blocks) rules := by
  intro rules c tip
  have hrules : rules ∈ Network.main.rules.ruleSets := by decide
  have hheld : c.Holds tip := by decide
  have hheight : tip.height.toNat < UInt32.size - 1 := by decide
  have hlacks : c.LacksBelow tip 23 := hheld.lacksBelow_iff.mpr (by decide)
  obtain ⟨blocks, hremainder, hbits, -⟩ := (bits_required_on_missing_history Network.main.rules
    rules hrules c tip hheld hheight Kimoto.standardEnvelope (.candidate tip 0)).2.2.1 rfl
    (by decide) hlacks
  exact ⟨hrules, hheld, hheight, blocks, hremainder, hbits⟩

end PowConsensus
