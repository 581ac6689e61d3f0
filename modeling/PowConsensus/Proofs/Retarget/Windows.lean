import PowConsensus.Proofs.Chain.Access
import PowConsensus.Proofs.Retarget.Eras
import PowConsensus.Proofs.Retarget.Scaled

/-! # Retargets by the time of a window

The periodic retarget and DigiShield scale the target of the tip by the time since the start of
their window. That time is moved into a range of positive numbers, in which it keeps its order. In
its own era DigiShield is due at every block and aims at one of two spacings of its own.
-/
namespace PowConsensus
variable {rules : RuleSet} {index : ChainIndex} {tip first : ChainEntry}

namespace Legacy

theorem requiredBits_of_window (hretargets : rules.noRetargeting = false)
    (hdue : isDue tip rules = true) (hstart : windowStart? index tip rules = some first)
    (time : UInt32) : requiredBits index tip time rules =
      rules.scaled tip.bits.target (elapsed tip first.time.toNat rules) rules.timespan := by
  rw [requiredBits, if_pos hdue, hstart]
  simp only [nextBits, hretargets, Bool.false_eq_true, ↓reduceIte]

theorem requiredBits_of_start (hera : RetargetAlgorithm.select rules tip.nextHeight = .legacy)
    (hdue : isDue tip rules = true) (hstart : windowStart? index tip rules = some first)
    (time : UInt32) : requiredBits index tip time rules =
      rules.scaled tip.bits.target (elapsed tip first.time.toNat rules) rules.timespan :=
  requiredBits_of_window (RetargetAlgorithm.era_of_select hera).1 hdue hstart time

theorem requiredBits_of_no_start (hdue : isDue tip rules = true)
    (hstart : windowStart? index tip rules = none) (time : UInt32) :
    requiredBits index tip time rules = rules.workLimitBits := by
  rw [requiredBits, if_pos hdue, hstart]

/-- Between retargets, for a candidate that is not late. -/
theorem requiredBits_of_timely (hundue : ¬ isDue tip rules = true) {time : UInt32}
    (htimely : (time.toNat : Int) ≤ tip.time.toNat + rules.spacing * stallSpacings) :
    requiredBits index tip time rules =
      if rules.allowMinDifficulty = true then
        lastOrdinaryBits index tip rules.interval rules.workLimitBits
      else tip.bits := by
  rw [requiredBits, if_neg hundue, bitsBetween, if_neg (Int.not_lt.mpr htimely)]
  cases rules.allowMinDifficulty with
  | true => rfl
  | false => rfl

theorem isDue_iff : isDue tip rules = true ↔ rules.interval ∣ (tip.nextHeight.toNat : Int) := by
  rw [isDue, beq_iff_eq]
  exact ⟨Int.dvd_of_tmod_eq_zero, Int.tmod_eq_zero_of_dvd⟩

/-- A due retarget is at a height that is a multiple of the interval, which is therefore no larger
than a height. -/
theorem interval_lt_of_isDue (hdue : isDue tip rules = true) :
    rules.interval < 2 ^ 32 := by
  have hnext := tip.toNat_nextHeight
  have hlt := tip.nextHeight.toNat_lt
  simp only [UInt32.size] at hnext
  have hle := Int.le_of_dvd (by omega) (isDue_iff.mp hdue)
  omega

theorem quarter_le_fourfold {timespan : Int} (h : 0 ≤ timespan) :
    timespan.tdiv 4 ≤ timespan * 4 := by
  rw [Int.tdiv_eq_ediv_of_nonneg h]
  omega

theorem elapsed_bounds (h : 0 ≤ rules.timespan) (tip : ChainEntry) (firstTime : Int) :
    rules.timespan.tdiv 4 ≤ elapsed tip firstTime rules ∧
      elapsed tip firstTime rules ≤ rules.timespan * 4 :=
  clamp_bounds (quarter_le_fourfold h) _

theorem elapsed_mono (h : 0 ≤ rules.timespan) {tip₁ tip₂ : ChainEntry} {time₁ time₂ : Int}
    (hheight : tip₁.height = tip₂.height)
    (hle : (tip₁.time.toNat : Int) - time₁ ≤ tip₂.time.toNat - time₂) :
    elapsed tip₁ time₁ rules ≤ elapsed tip₂ time₂ rules := by
  have hquarter := Int.tdiv_le_tdiv (show (0 : Int) < 4 by decide) hle
  apply clamp_mono (quarter_le_fourfold h)
  rw [hheight]
  split
  · exact hquarter
  · exact hle

end Legacy

namespace DigiShield

/-- The spacing of the rules counts before the era only. -/
theorem spacing_eq_of_select {next : UInt32}
    (h : RetargetAlgorithm.select rules next = .digiShield) :
    spacing rules next = if rules.x11ForkHeight ≤ next then x11Spacing else forkSpacing := by
  have hfork : rules.fork2Height ≤ next :=
    UInt32.le_of_lt (RetargetAlgorithm.era_of_select h).2.2
  rw [spacing, if_pos hfork]

theorem spacing_bounds_of_select
    (h : RetargetAlgorithm.select rules tip.nextHeight = .digiShield) :
    0 < spacing rules tip.nextHeight ∧ spacing rules tip.nextHeight ≤ 120 := by
  rw [spacing_eq_of_select h]
  split
  · decide
  · decide

section Spacing
variable (hspacing : 0 < spacing rules tip.nextHeight)
include hspacing

theorem interval_of_spacing : interval rules tip.nextHeight = 1 :=
  Int.tdiv_self (Int.ne_of_gt hspacing)

theorem isDue_of_spacing : isDue tip rules = true := by
  rw [isDue, interval_of_spacing hspacing]
  exact beq_iff_eq.mpr (Int.tmod_one _)

/-- On top of block zero it is zero instead. -/
theorem lookback_of_spacing (hheight : tip.height ≠ 0) : lookback tip rules = 1 := by
  have hnext := tip.toNat_nextHeight
  have hpos : tip.height.toNat ≠ 0 := toNat_ne_zero_iff.mpr hheight
  simp only [UInt32.size] at hnext
  rw [lookback, interval_of_spacing hspacing]
  exact if_neg (by omega)

theorem requiredBits_of_start (hstart : windowStart? index tip rules = some first) :
    requiredBits index tip rules = rules.scaled tip.bits.target
      (elapsed tip first (spacing rules tip.nextHeight)) (spacing rules tip.nextHeight) := by
  rw [requiredBits, if_pos (isDue_of_spacing hspacing), hstart]

theorem requiredBits_of_no_start (hstart : windowStart? index tip rules = none) :
    requiredBits index tip rules = rules.workLimitBits := by
  rw [requiredBits, if_pos (isDue_of_spacing hspacing), hstart]

end Spacing

theorem three_quarters_le {timespan : Int} (h : 0 ≤ timespan) :
    timespan - timespan.tdiv 4 ≤ timespan + timespan.tdiv 2 := by
  rw [Int.tdiv_eq_ediv_of_nonneg h, Int.tdiv_eq_ediv_of_nonneg h]
  omega

theorem elapsed_bounds {timespan : Int} (h : 0 ≤ timespan) (tip first : ChainEntry) :
    timespan - timespan.tdiv 4 ≤ elapsed tip first timespan ∧
      elapsed tip first timespan ≤ timespan + timespan.tdiv 2 :=
  clamp_bounds (three_quarters_le h) _

theorem elapsed_mono {timespan : Int} (h : 0 ≤ timespan) {tip₁ tip₂ first₁ first₂ : ChainEntry}
    (hle : (tip₁.time.toNat : Int) - first₁.time.toNat ≤ tip₂.time.toNat - first₂.time.toNat) :
    elapsed tip₁ first₁ timespan ≤ elapsed tip₂ first₂ timespan :=
  clamp_mono (three_quarters_le h) hle

end DigiShield
end PowConsensus
