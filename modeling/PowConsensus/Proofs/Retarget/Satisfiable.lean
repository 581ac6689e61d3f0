import PowConsensus.Proofs.Retarget.Averages
import PowConsensus.Proofs.Retarget.Ceiling
import PowConsensus.Proofs.Retarget.Windows
import PowConsensus.Proofs.Work.Acceptance

/-! # When some digest meets the required bits

The all-zero digest meets bits of the main network unless their target is zero. If no block has a
tiny target, scaling by a clamped time keeps targets away from zero. Kimoto Gravity Well scales by
a time that is not clamped: the product is reduced to a word, and what is left of it may be less
than the expected time, so that the target is zero and no digest meets it.
-/
namespace PowConsensus
open Segment

/-- Targets that leave room for a clamped time, and are no less than any expected one. -/
def Ample (t : Nat) : Prop := 2 ^ 32 ≤ t ∧ t < 2 ^ 236

section Main
variable {index : ChainIndex} {tip : ChainEntry}

theorem main_workLimit_lt : Network.mainRules[0].workLimit < wordModulus := by decide

theorem main_workLimit_pos : 0 < Network.mainRules[0].workLimit := by decide

theorem Ample.scaled_pos {t : Nat} (ht : Ample t) {elapsed expected : Int} (hpos : 0 < elapsed)
    (hle : elapsed ≤ 2 ^ 20) (hexpected : 0 < expected) (hshort : expected ≤ 2 ^ 32) :
    0 < (Network.mainRules[0].scaled t elapsed expected).target := by
  obtain ⟨hlow, hhigh⟩ := ht
  have hword : t * elapsed.toNat < 2 ^ 256 :=
    calc t * elapsed.toNat ≤ t * 2 ^ 20 := Nat.mul_le_mul_left t (by omega)
      _ < 2 ^ 256 := by omega
  have hproduct : t ≤ t * elapsed.toNat := Nat.le_mul_of_pos_right t (by omega)
  rw [RuleSet.scaled_target_pos_iff main_workLimit_lt main_workLimit_pos (Int.le_of_lt hpos)
    (by omega) hexpected, Nat.mod_eq_of_lt hword]
  omega

theorem Legacy.target_pos_main (htip : Ample tip.bits.target)
    (hera : RetargetAlgorithm.select Network.mainRules[0] tip.nextHeight = .legacy)
    (time : UInt32) : 0 < (requiredBits index tip time Network.mainRules[0]).target := by
  by_cases hdue : isDue tip Network.mainRules[0] = true
  · cases hstart : windowStart? index tip Network.mainRules[0] with
    | none =>
      rw [requiredBits_of_no_start hdue hstart]
      decide
    | some first =>
      have htimespan : Network.mainRules[0].timespan = 2400 := rfl
      obtain ⟨hlow, hhigh⟩ :=
        elapsed_bounds (show 0 ≤ Network.mainRules[0].timespan by decide) tip first.time.toNat
      rw [htimespan] at hlow hhigh
      have hquarter : Int.tdiv 2400 4 = 600 := rfl
      rw [requiredBits_of_start hera hdue hstart, htimespan]
      exact htip.scaled_pos (by omega) (by omega) (by decide) (by decide)
  · have hbits : requiredBits index tip time Network.mainRules[0] = tip.bits := if_neg hdue
    rw [hbits]
    exact Nat.lt_of_lt_of_le (by decide) htip.1

theorem DigiShield.target_pos_main (htip : Ample tip.bits.target)
    (hera : RetargetAlgorithm.select Network.mainRules[0] tip.nextHeight = .digiShield) :
    0 < (requiredBits index tip Network.mainRules[0]).target := by
  obtain ⟨hpos, hle⟩ := spacing_bounds_of_select hera
  cases hstart : windowStart? index tip Network.mainRules[0] with
  | none =>
    rw [requiredBits_of_no_start hpos hstart]
    decide
  | some first =>
    obtain ⟨hlow, hhigh⟩ := elapsed_bounds (Int.le_of_lt hpos) tip first
    rw [Int.tdiv_eq_ediv_of_nonneg (Int.le_of_lt hpos)] at hlow hhigh
    rw [requiredBits_of_start hpos hstart]
    exact htip.scaled_pos (by omega) (by omega) hpos (by omega)

/-- A sample that is scaled by a time within a third and three times of at most an hour. -/
theorem DarkGravity.target_pos_of_average {s : Sample} (haverage : Ample s.average)
    (hpos : 0 < s.count) (hle : s.count ≤ 24) :
    0 < (bitsOfSample s Network.mainRules[0]).target := by
  obtain ⟨expected, hexpected⟩ : ∃ expected : Int, expected = s.count * spacing := ⟨_, rfl⟩
  have hbounds : 120 ≤ expected ∧ expected ≤ 2880 := by
    simp only [spacing] at hexpected
    omega
  have hrange : expected.tdiv 3 ≤ expected * 3 := by
    rw [Int.tdiv_eq_ediv_of_nonneg (by omega)]
    omega
  obtain ⟨hlow, hhigh⟩ := clamp_bounds hrange s.actual
  have hthird : 40 ≤ expected.tdiv 3 := by
    rw [Int.tdiv_eq_ediv_of_nonneg (by omega)]
    omega
  simp only [bitsOfSample, ← hexpected]
  exact haverage.scaled_pos (by omega) (by omega) (by omega) (by omega)

/-- What scaling needs to know of a sample: an average that is not tiny, and seconds of which none
are negative or too many. -/
structure Kimoto.Sample.Measured (s : Kimoto.Sample) : Prop where
  average_ge : 2 ^ 32 ≤ s.average
  actual_nonneg : 0 ≤ s.actual
  actual_lt : s.actual < 2 ^ 32
  expected_pos : 0 < s.expected
  expected_lt : s.expected < 2 ^ 32

namespace Kimoto.Sample.Measured
variable {s : Kimoto.Sample} (hs : s.Measured)
include hs

theorem target_eq_zero_iff :
    (Kimoto.bitsOfSample s Network.mainRules[0]).target = 0 ↔
      s.actual ≠ 0 ∧ s.average * s.actual.toNat % 2 ^ 256 < s.expected.toNat := by
  have hexpected : s.expected ≠ 0 := Int.ne_of_gt hs.expected_pos
  by_cases hactual : s.actual = 0
  · have hbits : Kimoto.bitsOfSample s Network.mainRules[0] =
        Network.mainRules[0].cap s.average := if_neg fun h => h.1 hactual
    have haverage : 0 < s.average := Nat.lt_of_lt_of_le (by decide) hs.average_ge
    have hpos : 0 < (Kimoto.bitsOfSample s Network.mainRules[0]).target := by
      rw [hbits]
      exact (RuleSet.cap_target_pos_iff main_workLimit_lt main_workLimit_pos).mpr haverage
    exact iff_of_false (Nat.ne_of_gt hpos) fun h => h.1 hactual
  · have hbits : Kimoto.bitsOfSample s Network.mainRules[0] =
        Network.mainRules[0].scaled s.average s.actual s.expected := if_pos ⟨hactual, hexpected⟩
    have hpos := RuleSet.scaled_target_pos_iff (t := s.average) main_workLimit_lt
      main_workLimit_pos hs.actual_nonneg hs.actual_lt hs.expected_pos
    rw [hbits]
    constructor
    · intro h0
      exact ⟨hactual, by omega⟩
    · rintro ⟨-, hlt⟩
      omega

/-- As long as the product is a word it is at least the average. -/
theorem target_pos_of_lt (hword : s.average * s.actual.toNat < 2 ^ 256) :
    0 < (Kimoto.bitsOfSample s Network.mainRules[0]).target := by
  apply Nat.pos_of_ne_zero
  intro h0
  obtain ⟨hactual, hlt⟩ := hs.target_eq_zero_iff.mp h0
  have hnonneg := hs.actual_nonneg
  have haverage := hs.average_ge
  have hexpected := hs.expected_lt
  have hproduct : s.average ≤ s.average * s.actual.toNat := Nat.le_mul_of_pos_right _ (by omega)
  rw [Nat.mod_eq_of_lt hword] at hlt
  omega

end Kimoto.Sample.Measured

variable (hindex : ∀ {e parent}, index e = some parent → Ample parent.bits.target)
include hindex

theorem DarkGravity.target_pos_main (htip : Ample tip.bits.target)
    (hera : RetargetAlgorithm.select Network.mainRules[0] tip.nextHeight = .darkGravityWave) :
    0 < (requiredBits index tip Network.mainRules[0]).target := by
  have hfork4 : 385000 ≤ tip.nextHeight.toNat := RetargetAlgorithm.era_main hera
  have hnext := tip.toNat_nextHeight
  have hne : tip.height ≠ 0 := toNat_ne_zero_iff.mp (by omega)
  obtain ⟨older, htrail⟩ : ∃ older, tip.trail index 24 = tip :: older :=
    ChainEntry.trail_eq_cons hne (by decide)
  have hample : ∀ e ∈ tip.trail index 24, Ample e.bits.target :=
    ChainEntry.forall_mem_trail hindex htip 24
  have hlength : (tip.trail index 24).length ≤ 24 := ChainEntry.length_trail_le 24 tip
  have hblocks : ∀ e ∈ tip.trail index 24,
      2 ^ 32 ≤ e.bits.target ∧ e.bits.target ≤ 2 ^ 236 - 1 := by
    intro e he
    exact ⟨(hample e he).1, Nat.le_sub_one_of_lt (hample e he).2⟩
  rw [requiredBits_of_height (by omega)]
  rw [htrail] at hlength hblocks ⊢
  obtain ⟨hlow, hhigh⟩ := average_ofBlocks_between (List.cons_ne_nil tip older) hblocks (by omega)
  apply target_pos_of_average ⟨hlow, by omega⟩
  · rw [count_ofBlocks]
    exact Nat.succ_pos _
  · rw [count_ofBlocks]
    exact hlength

theorem Kimoto.sample_measured_main (htip : Ample tip.bits.target)
    (hheight : 39 ≤ tip.height.toNat) (envelope : Envelope) :
    (sample envelope index tip Network.mainRules[0]).Measured := by
  have hmin : minBlocks Network.mainRules[0] = 39 := rfl
  have hmax : maxBlocks Network.mainRules[0] = 499 := rfl
  have hne : tip.height ≠ 0 := toNat_ne_zero_iff.mp (by omega)
  obtain ⟨older, htrail⟩ : ∃ older, tip.trail index tip.height.toNat = tip :: older :=
    ChainEntry.trail_eq_cons hne (by omega)
  have hample : ∀ e ∈ tip.trail index tip.height.toNat, Ample e.bits.target :=
    ChainEntry.forall_mem_trail hindex htip _
  obtain ⟨blocks, htaken, hsample⟩ : ∃ blocks,
      Taken Network.mainRules[0] 0 (tip.trail index tip.height.toNat) blocks ∧
      sample envelope index tip Network.mainRules[0] = .ofBlocks tip 40 blocks :=
    sample_eq (by decide) tip
  have hlong : blocks.length ≤ 499 := by
    have hbound := htaken.long (by omega) (Nat.zero_le _)
    omega
  have hblocks : ∀ e ∈ blocks, e.bits.target ≤ 2 ^ 236 - 1 := by
    obtain ⟨n, rfl⟩ := htaken.isTake
    intro e he
    exact Nat.le_sub_one_of_lt (hample e (List.mem_of_mem_take he)).2
  -- The newest block is in the sample, and the average does not fall below its target.
  rw [htrail] at htaken
  obtain ⟨rest, rfl⟩ := htaken.exists_cons (by omega)
  rw [List.length_cons] at hlong
  have haverage : tip.bits.target ≤ (Sample.ofBlocks tip 40 (tip :: rest)).average :=
    target_le_average_ofBlocks hblocks (by omega) 40
  obtain ⟨hnonneg, hlt⟩ : 0 ≤ (Sample.ofBlocks tip 40 (tip :: rest)).actual ∧
      (Sample.ofBlocks tip 40 (tip :: rest)).actual < 2 ^ 32 := actual_ofBlocks 40 (tip :: rest)
  have hexpected : (Sample.ofBlocks tip 40 (tip :: rest)).expected = 40 * (rest.length + 1 : Nat) :=
    expected_ofBlocks 40 (tip :: rest)
  rw [hsample]
  exact ⟨Nat.le_trans htip.1 haverage, hnonneg, hlt, by omega, by omega⟩

/-- No era but that of Kimoto Gravity Well leads to a target of zero. -/
theorem target_pos_main (htip : Ample tip.bits.target)
    (hera : RetargetAlgorithm.select Network.mainRules[0] tip.nextHeight ≠ .kimotoGravityWell)
    (envelope : Kimoto.Envelope) (candidate : Header) :
    0 < (requiredBits envelope index tip candidate Network.mainRules[0]).target := by
  have hpos : 0 < tip.bits.target := Nat.lt_of_lt_of_le (by decide) htip.1
  cases hselect : RetargetAlgorithm.select Network.mainRules[0] tip.nextHeight with
  | noRetarget =>
    rw [requiredBits_of_select hselect]
    exact hpos
  | fork2Pause =>
    rw [requiredBits_of_select hselect]
    exact hpos
  | darkGravityWave =>
    rw [requiredBits_of_select hselect]
    exact DarkGravity.target_pos_main hindex htip hselect
  | digiShield =>
    rw [requiredBits_of_select hselect]
    exact DigiShield.target_pos_main htip hselect
  | kimotoGravityWell => exact absurd hselect hera
  | legacy =>
    rw [requiredBits_of_select hselect]
    exact Legacy.target_pos_main htip hselect candidate.time

end Main

/-- On the main network, over blocks whose bits are within the limit and not tiny, the all-zero
digest meets the required bits exactly if their target is positive. It is positive in every era but
one. A sample of Kimoto Gravity Well leads to a target of zero exactly if some time passed and the
product of average and time leaves less than the expected time when it is reduced to a word; a
product that is a word itself never does. -/
theorem target_positive_unless_product_wraps (c : Segment)
    (hentries : ∀ e ∈ c.entries,
      e.bits.Within (Network.limitOfBits 236) ∧ 2 ^ 32 ≤ e.bits.target)
    (tip : ChainEntry) (htip : tip ∈ c.entries) (envelope : Kimoto.Envelope)
    (candidate : Header) :
    let rules := Network.mainRules[0]
    let bits := requiredBits envelope c.predecessor tip candidate rules
    let algorithm := RetargetAlgorithm.select rules tip.nextHeight
    let sample := Kimoto.sample envelope c.predecessor tip rules
    (WorkVerdict.of .zero bits rules = .valid ↔ 0 < bits.target) ∧
    (algorithm ≠ .kimotoGravityWell → 0 < bits.target) ∧
    (algorithm = .kimotoGravityWell →
      (bits.target = 0 ↔ sample.actual ≠ 0 ∧
        sample.average * sample.actual.toNat % 2 ^ 256 < sample.expected.toNat) ∧
      (sample.average * sample.actual.toNat < 2 ^ 256 → 0 < bits.target)) := by
  intro rules bits algorithm sample
  have hwithin : ∀ {e parent}, c.predecessor e = some parent →
      parent.bits.Within (Network.limitOfBits 236) :=
    fun hp => (hentries _ (mem_of_predecessor hp)).1
  have hample (e : ChainEntry) (he : e ∈ c.entries) : Ample e.bits.target := by
    obtain ⟨hbits, hlow⟩ := hentries e he
    have hhigh : e.bits.target ≤ Network.limitOfBits 236 := hbits.le
    rw [Network.limitOfBits] at hhigh
    exact ⟨hlow, by omega⟩
  have hindex : ∀ {e parent}, c.predecessor e = some parent → Ample parent.bits.target :=
    fun hp => hample _ (mem_of_predecessor hp)
  refine ⟨?_, fun hera => ?_, fun hera => ?_⟩
  · have hbits : bits.Within rules.workLimit :=
      requiredBits_within rfl main_workLimit_lt (hentries tip htip).1 hwithin envelope candidate
    have hzero : Digest.zero.toNat ≤ bits.target := Nat.zero_le _
    rw [verdict_valid_iff]
    exact ⟨fun h => h.2.2.1, fun h => ⟨hbits.nonnegative, hbits.fits, h, hbits.le, hzero⟩⟩
  · exact target_pos_main hindex (hample tip htip) hera envelope candidate
  · obtain ⟨hfork1, -⟩ := RetargetAlgorithm.era_main hera
    have hnext := tip.toNat_nextHeight
    have hmeasured : sample.Measured :=
      Kimoto.sample_measured_main hindex (hample tip htip) (by omega) envelope
    have happlies : Kimoto.applies tip rules = true :=
      decide_eq_true ⟨toNat_ne_zero_iff.mp (by omega), show 39 ≤ tip.height.toNat by omega⟩
    have hbits : bits = Kimoto.bitsOfSample sample rules :=
      (requiredBits_of_select hera).trans (if_pos happlies)
    rw [hbits]
    exact ⟨hmeasured.target_eq_zero_iff, hmeasured.target_pos_of_lt⟩

theorem half_limit_within : (⟨0x1e080000⟩ : CompactTarget).Within (Network.limitOfBits 236) ∧
    2 ^ 32 ≤ (⟨0x1e080000⟩ : CompactTarget).target :=
  ⟨⟨by decide, by decide, by decide⟩, by decide⟩

/-- Two blocks of the main network with half the limit as their target, and `2 ^ 31` seconds between
them: the product is a multiple of `2 ^ 256`, and no digest meets the bits of the next block. -/
theorem target_zero_after_long_stall :
    let rules := Network.mainRules[0]
    let c := ((Segment.startingAt 99999).push 1 ⟨0x1e080000⟩).push 2147483649 ⟨0x1e080000⟩
    let tip := ChainEntry.unhashed 100000 2147483649 ⟨0x1e080000⟩
    let bits := requiredBits Kimoto.standardEnvelope c.predecessor tip (.candidate tip 0) rules
    (∀ e ∈ c.entries, e.bits.Within (Network.limitOfBits 236) ∧ 2 ^ 32 ≤ e.bits.target) ∧
      c.Holds tip ∧ bits = ⟨0⟩ ∧ WorkVerdict.of .zero bits rules = .zeroTarget := by
  intro rules c tip bits
  have hbits : bits = ⟨0⟩ := by decide
  refine ⟨?_, by decide, hbits, hbits ▸ by decide⟩
  apply forall_mem_push
  · apply forall_mem_push
    · exact fun e he => absurd he (Array.not_mem_empty e)
    · exact half_limit_within
  · exact half_limit_within

/-- A minute between the two blocks leaves room for the product. -/
theorem target_positive_after_a_minute :
    let rules := Network.mainRules[0]
    let c := ((Segment.startingAt 99999).push 1400000000 ⟨0x1e080000⟩).push 1400000060 ⟨0x1e080000⟩
    let tip := ChainEntry.unhashed 100000 1400000060 ⟨0x1e080000⟩
    let sample := Kimoto.sample Kimoto.standardEnvelope c.predecessor tip rules
    let bits := requiredBits Kimoto.standardEnvelope c.predecessor tip (.candidate tip 0) rules
    (∀ e ∈ c.entries, e.bits.Within (Network.limitOfBits 236) ∧ 2 ^ 32 ≤ e.bits.target) ∧
      tip ∈ c.entries ∧ sample.average * sample.actual.toNat < 2 ^ 256 ∧ 0 < bits.target := by
  intro rules c tip sample bits
  have hentries : ∀ e ∈ c.entries,
      e.bits.Within (Network.limitOfBits 236) ∧ 2 ^ 32 ≤ e.bits.target := by
    apply forall_mem_push
    · apply forall_mem_push
      · exact fun e he => absurd he (Array.not_mem_empty e)
      · exact half_limit_within
    · exact half_limit_within
  have hheld : c.Holds tip := by decide
  have hword : sample.average * sample.actual.toNat < 2 ^ 256 := by decide
  have hpos := ((target_positive_unless_product_wraps c hentries tip hheld.mem
    Kimoto.standardEnvelope (.candidate tip 0)).2.2 rfl).2 hword
  exact ⟨hentries, hheld.mem, hword, hpos⟩

end PowConsensus
