import PowConsensus.Network.Rules
import PowConsensus.Proofs.Chain.Walk
import PowConsensus.Proofs.Retarget.Windows

/-! # A due periodic retarget in full

With a positive spacing that is no longer than the timespan an interval is at least one block and a
window of four intervals is still a number of steps that a walk can take. The window is there
exactly when the segment holds all heights right below the tip that it spans. Its time scales the
target by a quarter at the least and by four at the most.
-/
namespace PowConsensus.Legacy
variable {rules : RuleSet} {tip : ChainEntry}

section Interval
variable (hspacing : 0 < rules.spacing) (hle : rules.spacing ≤ rules.timespan)
include hspacing hle

theorem interval_eq : rules.interval = rules.timespan / rules.spacing :=
  Int.tdiv_eq_ediv_of_nonneg (by omega)

theorem interval_bounds : 0 < rules.interval ∧ rules.interval ≤ rules.timespan := by
  rw [interval_eq hspacing hle]
  refine ⟨?_, Int.ediv_le_self _ (by omega)⟩
  exact Int.lt_of_lt_of_le Int.one_pos ((Int.le_ediv_iff_mul_le hspacing).mpr (by omega))

end Interval

section Next
variable (hheight : tip.height.toNat < UInt32.size - 1)
include hheight

theorem natCast_nextHeight : (tip.nextHeight.toNat : Int) = tip.height.toNat + 1 := by
  have hnext := tip.toNat_nextHeight
  omega

theorem isDue_of_dvd (h : rules.interval ∣ (tip.height.toNat : Int) + 1) :
    isDue tip rules = true := by
  rw [isDue_iff, natCast_nextHeight hheight]
  exact h

theorem lookback_eq (rules : RuleSet) : lookback tip rules =
    if (tip.height.toNat : Int) + 1 = rules.interval then rules.interval - 1
    else if rules.adjustmentForkHeight ≤ tip.height then 4 * rules.interval
    else rules.interval := by
  rw [lookback, natCast_nextHeight hheight]

end Next

theorem elapsed_eq (h : 0 ≤ rules.timespan) (tip : ChainEntry) (firstTime : Int) :
    elapsed tip firstTime rules =
      max (rules.timespan / 4) (min (if rules.adjustmentForkHeight ≤ tip.height
        then ((tip.time.toNat : Int) - firstTime).tdiv 4
        else (tip.time.toNat : Int) - firstTime) (4 * rules.timespan)) := by
  rw [elapsed, clamp_eq (quarter_le_fourfold h), Int.tdiv_eq_ediv_of_nonneg h,
    Int.mul_comm rules.timespan]

/-- No window is longer than a walk can be. -/
theorem lookback_bounds (hspacing : 0 < rules.spacing) (hle : rules.spacing ≤ rules.timespan)
    (htimespan : rules.timespan < 2 ^ 30) (tip : ChainEntry) :
    0 ≤ lookback tip rules ∧ (lookback tip rules).toNat < UInt32.size := by
  obtain ⟨hpos, hshort⟩ := interval_bounds hspacing hle
  simp only [lookback, UInt32.size]
  split
  · omega
  · split <;> omega

/-- Seconds in the range of a window move a target by a factor of four at the most. -/
theorem scaled_within_fourfold {target seconds timespan : Nat} (hpos : 0 < timespan)
    (hlow : timespan / 4 ≤ seconds) (hhigh : seconds ≤ 4 * timespan)
    (hroom : 4 * timespan * target < 2 ^ 256) :
    target * seconds < 2 ^ 256 ∧
      (4 ∣ timespan → target / 4 ≤ target * seconds % 2 ^ 256 / timespan ∧
        target * seconds % 2 ^ 256 / timespan ≤ 4 * target) := by
  have hword : target * seconds < 2 ^ 256 :=
    calc target * seconds ≤ target * (4 * timespan) := Nat.mul_le_mul_left _ hhigh
      _ = 4 * timespan * target := Nat.mul_comm _ _
      _ < 2 ^ 256 := hroom
  refine ⟨hword, fun hfour => ?_⟩
  rw [Nat.mod_eq_of_lt hword]
  exact ⟨div_le_scaled hpos (by omega), scaled_le_mul hhigh⟩

/-- With the start of the window known, the target scaled and capped. -/
theorem requiredBits_eq_encode {index : ChainIndex} {first : ChainEntry} {seconds : Nat}
    (hretargets : rules.noRetargeting = false) (hdue : isDue tip rules = true)
    (hstart : windowStart? index tip rules = some first)
    (helapsed : elapsed tip first.time.toNat rules = seconds) (hseconds : seconds < 2 ^ 32)
    (time : UInt32) : requiredBits index tip time rules =
      .encode (min rules.workLimit
        (tip.bits.target * seconds % 2 ^ 256 / rules.timespan.toNat)) := by
  rw [requiredBits_of_window hretargets hdue hstart, helapsed, RuleSet.scaled_eq_cap,
    RuleSet.cap_eq, scaledTarget_eq hseconds]

/-- The bits of a due retarget depend on one block besides the tip, the start of the window: one
interval behind the tip, or four from the adjustment fork on, and block zero for the first window.
Where any height of the window is not held they are those of the limit. The time of the candidate
never matters. -/
theorem due_retarget_is_scaled_by_window (rules : RuleSet) (hspacing : 0 < rules.spacing)
    (hle : rules.spacing ≤ rules.timespan) (htimespan : rules.timespan < 2 ^ 30)
    (hretargets : rules.noRetargeting = false) (c : Segment) (tip : ChainEntry)
    (hheight : tip.height.toNat < UInt32.size - 1)
    (hdue : rules.timespan / rules.spacing ∣ (tip.height.toNat : Int) + 1) :
    let interval : Int := rules.timespan / rules.spacing
    let back : Nat := Int.toNat <|
      if (tip.height.toNat : Int) + 1 = interval then interval - 1
      else if rules.adjustmentForkHeight ≤ tip.height then 4 * interval
      else interval
    let elapsed (first : ChainEntry) : Nat :=
      let seconds : Int := (tip.time.toNat : Int) - first.time.toNat
      let counted : Int :=
        if rules.adjustmentForkHeight ≤ tip.height then seconds.tdiv 4 else seconds
      (max (rules.timespan / 4) (min counted (4 * rules.timespan))).toNat
    let timespan : Nat := rules.timespan.toNat
    let target : Nat := tip.bits.target
    let uncapped (first : ChainEntry) : Nat := target * elapsed first % 2 ^ 256 / timespan
    (c.LacksBelow tip back →
      ∀ time, requiredBits c.predecessor tip time rules = rules.workLimitBits) ∧
    (¬ c.LacksBelow tip back → ∃ first, c.Behind tip back first ∧
      (∀ time, requiredBits c.predecessor tip time rules =
        .encode (min rules.workLimit (uncapped first))) ∧
      (4 * timespan * target < 2 ^ 256 →
        target * elapsed first < 2 ^ 256 ∧
        (4 ∣ timespan → target / 4 ≤ uncapped first ∧ uncapped first ≤ 4 * target))) := by
  intro interval back elapsed timespan target uncapped
  have hnonneg : 0 ≤ rules.timespan := by omega
  have hinterval : rules.interval = interval := interval_eq hspacing hle
  have hisDue : isDue tip rules = true := isDue_of_dvd hheight (hinterval ▸ hdue)
  have hback : (lookback tip rules).toNat = back := by
    rw [lookback_eq hheight, hinterval]
  have hsteps := (lookback_bounds hspacing hle htimespan tip).2
  rw [← hback]
  refine ⟨fun hlacks time => ?_, fun hall => ?_⟩
  · exact requiredBits_of_no_start hisDue (Segment.windowStart?_of_lacks hsteps hlacks) time
  · obtain ⟨first, hstart, hbehind⟩ := Segment.windowStart?_of_not_lacks hsteps hall
    have helapsed : Legacy.elapsed tip first.time.toNat rules = elapsed first := by
      rw [elapsed_eq hnonneg]
      exact (Int.toNat_of_nonneg (by omega)).symm
    obtain ⟨hlow, hhigh⟩ := elapsed_bounds hnonneg tip first.time.toNat
    rw [helapsed, Int.tdiv_eq_ediv_of_nonneg hnonneg] at hlow
    rw [helapsed] at hhigh
    refine ⟨first, hbehind, fun time => ?_, ?_⟩
    · exact requiredBits_eq_encode hretargets hisDue hstart helapsed (by omega) time
    · exact scaled_within_fourfold (by omega) (by omega) (by omega)

/-- Retargets every fifteen blocks, and blocks forty-five seconds apart: after the adjustment fork
the forty-five minutes of a window of sixty blocks count as a quarter of that. -/
theorem due_retarget_is_scaled_by_window_after_adjustment_fork :
    let rules := { Network.mainRules[0] with timespan := 600 }
    let c := (Segment.startingAt 20039).pushAll ((List.range 61).map fun i =>
      (UInt32.ofNat (1400000000 + 45 * i), ⟨0x1c1a1206⟩))
    let tip := ChainEntry.unhashed 20099 1400002700 ⟨0x1c1a1206⟩
    c.Holds tip ∧ ¬ c.LacksBelow tip 60 ∧
      ∀ time, requiredBits c.predecessor tip time rules = ⟨0x1c1d5446⟩ := by
  intro rules c tip
  have hheld : c.Holds tip := by decide
  have hall : ¬ c.LacksBelow tip 60 := fun hlacks =>
    absurd (hheld.lacksBelow_iff.mp hlacks) (by decide)
  have holdest : c.Holds (.unhashed 20039 1400000000 ⟨0x1c1a1206⟩) := by decide
  obtain ⟨first, hbehind, hbits, -⟩ := (due_retarget_is_scaled_by_window rules (by decide)
    (by decide) (by decide) rfl c tip (by decide) (by decide)).2 hall
  have hfirst : first = .unhashed 20039 1400000000 ⟨0x1c1a1206⟩ :=
    (hbehind.held (by decide)).eq_of_height holdest (Nat.add_right_cancel hbehind.height_eq)
  rw [hfirst] at hbits
  exact ⟨hheld, hall, fun time => (hbits time).trans (by decide)⟩

end PowConsensus.Legacy
