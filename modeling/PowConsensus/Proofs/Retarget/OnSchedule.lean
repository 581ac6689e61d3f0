import PowConsensus.Network.Rules
import PowConsensus.Proofs.Retarget.Ceiling
import PowConsensus.Proofs.Retarget.Periodic
import PowConsensus.Proofs.Retarget.PerBlock
import PowConsensus.Proofs.Rules.Lookup

/-! # Chains on schedule

A chain whose blocks all carry the same bits and come just as far apart as an algorithm aims at
keeps these bits. Whether the window of the periodic retarget is one interval long or four with the
time quartered, it takes just one timespan then, and the target is scaled by one.
-/
namespace PowConsensus
variable {rules : RuleSet} {c : Segment} {tip first parent : ChainEntry} {seconds : Int}

namespace Segment

/-- Every block is that many seconds after the one before it. -/
def SpacedBy (c : Segment) (seconds : Int) : Prop :=
  c.entries.toList.IsChain fun older newer => (newer.time.toNat : Int) = older.time.toNat + seconds

instance (c : Segment) (seconds : Int) : Decidable (c.SpacedBy seconds) :=
  inferInstanceAs (Decidable (List.IsChain _ _))

theorem SpacedBy.time_of_getElem? (h : c.SpacedBy seconds) {i steps : Nat}
    {older newer : ChainEntry} (holder : c.entries[i]? = some older)
    (hnewer : c.entries[i + steps]? = some newer) :
    (newer.time.toNat : Int) = older.time.toNat + steps * seconds := by
  induction steps generalizing newer with
  | zero =>
    cases holder.symm.trans hnewer
    simp
  | succ steps ih =>
    obtain ⟨hlt, rfl⟩ := Array.getElem?_eq_some_iff.mp hnewer
    have hbefore : i + steps < c.entries.size := Nat.lt_of_succ_lt hlt
    have hbetween := ih (Array.getElem?_eq_getElem hbefore)
    calc (c.entries[i + (steps + 1)].time.toNat : Int)
      _ = c.entries[i + steps].time.toNat + seconds := List.isChain_iff_getElem.mp h _ hlt
      _ = older.time.toNat + (steps * seconds + seconds) := by rw [hbetween, Int.add_assoc]
      _ = older.time.toNat + (steps + 1 : Nat) * seconds := by
        rw [Int.natCast_succ, Int.add_mul, Int.one_mul]

theorem Holds.getElem? (h : c.Holds tip) :
    c.entries[tip.height.toNat - c.base.toNat]? = some tip := by
  have hbase : c.base ≤ tip.height := UInt32.le_iff_toNat_le.mpr h.base_le
  rwa [Holds, get?, if_pos hbase] at h

/-- The time that a walk of so many steps goes back. -/
theorem SpacedBy.time_of_behind (h : c.SpacedBy seconds) (htip : c.Holds tip) {steps : Nat}
    (hbehind : c.Behind tip steps first) :
    (tip.time.toNat : Int) - first.time.toNat = steps * seconds := by
  have hfirst : c.Holds first := by
    by_cases h0 : steps = 0
    · rwa [hbehind.eq_start h0]
    · exact hbehind.held h0
  have hbase := hfirst.base_le
  have hheight := hbehind.height_eq
  have hindex : tip.height.toNat - c.base.toNat =
      first.height.toNat - c.base.toNat + steps := by omega
  have htime := h.time_of_getElem? hfirst.getElem? (hindex ▸ htip.getElem?)
  omega

end Segment

namespace Legacy

theorem lookback_eq_of_ne (hnext : (tip.nextHeight.toNat : Int) ≠ rules.interval) :
    lookback tip rules =
      if rules.adjustmentForkHeight ≤ tip.height then 4 * rules.interval else rules.interval :=
  if_neg hnext

/-- The four intervals of a window after the adjustment fork and the quarter of its time that counts
cancel. -/
theorem elapsed_on_schedule (htimespan : rules.interval * rules.spacing = rules.timespan)
    (hnonneg : 0 ≤ rules.timespan) (hnext : (tip.nextHeight.toNat : Int) ≠ rules.interval)
    {firstTime : Int}
    (htime : (tip.time.toNat : Int) - firstTime = lookback tip rules * rules.spacing) :
    elapsed tip firstTime rules = rules.timespan := by
  have hcounted : (if rules.adjustmentForkHeight ≤ tip.height
      then ((tip.time.toNat : Int) - firstTime).tdiv 4
      else (tip.time.toNat : Int) - firstTime) = rules.timespan := by
    rw [htime, lookback_eq_of_ne hnext]
    split
    · rw [Int.mul_assoc, htimespan]
      exact Int.mul_tdiv_cancel_left _ (by decide)
    · exact htimespan
  rw [elapsed_eq hnonneg, hcounted]
  omega

section Timed
variable (htimed : rules.wellTimed = true) (hdvd : rules.spacing ∣ rules.timespan)
variable (hshort : rules.timespan < 2 ^ 30)
include htimed hdvd hshort

theorem exists_start_on_schedule (hspaced : c.SpacedBy rules.spacing) (htip : c.Holds tip)
    (hnext : (tip.nextHeight.toNat : Int) ≠ rules.interval)
    (hall : ¬ c.LacksBelow tip (lookback tip rules).toNat) :
    ∃ first, windowStart? c.predecessor tip rules = some first ∧
      elapsed tip first.time.toNat rules = rules.timespan := by
  obtain ⟨hspacing, hcover⟩ := RuleSet.wellTimed_iff.mp htimed
  obtain ⟨hnonneg, hsteps⟩ := lookback_bounds hspacing hcover hshort tip
  have htimespan : rules.interval * rules.spacing = rules.timespan := Int.tdiv_mul_cancel hdvd
  obtain ⟨first, hstart, hbehind⟩ := Segment.windowStart?_of_not_lacks hsteps hall
  have htime := hspaced.time_of_behind htip hbehind
  rw [Int.toNat_of_nonneg hnonneg] at htime
  exact ⟨first, hstart, elapsed_on_schedule htimespan (by omega) hnext htime⟩

theorem due_bits_on_schedule (hspaced : c.SpacedBy rules.spacing) (htip : c.Holds tip)
    (hera : RetargetAlgorithm.select rules tip.nextHeight = .legacy)
    (hnext : (tip.nextHeight.toNat : Int) ≠ rules.interval) (hdue : isDue tip rules = true)
    (hall : ¬ c.LacksBelow tip (lookback tip rules).toNat)
    (hle : tip.bits.target ≤ rules.workLimit)
    (hroom : tip.bits.target * rules.timespan.toNat < 2 ^ 256) (time : UInt32) :
    requiredBits c.predecessor tip time rules = .encode tip.bits.target := by
  obtain ⟨first, hstart, helapsed⟩ :=
    exists_start_on_schedule htimed hdvd hshort hspaced htip hnext hall
  obtain ⟨hspacing, hcover⟩ := RuleSet.wellTimed_iff.mp htimed
  obtain ⟨timespan, htimespan⟩ := Int.eq_ofNat_of_zero_le (show 0 ≤ rules.timespan by omega)
  rw [requiredBits_of_start hera hdue hstart, helapsed, htimespan]
  rw [htimespan, Int.toNat_natCast] at hroom
  exact RuleSet.scaled_self (by omega) (by omega) hroom hle

end Timed

/-- What all blocks carry, a block between retargets carries. -/
theorem bits_between_of_same (hundue : ¬ isDue tip rules = true) {bits : CompactTarget}
    (htip : tip.bits = bits) (hsame : ∀ e ∈ c.entries, e.bits = bits) {time : UInt32}
    (htimely : (time.toNat : Int) ≤ tip.time.toNat + rules.spacing * stallSpacings) :
    requiredBits c.predecessor tip time rules = bits := by
  rw [requiredBits_of_timely hundue htimely]
  split
  · exact ordinaryBits_of_forall (P := (· = bits))
      (fun hparent => hsame _ (Segment.mem_of_predecessor hparent)) htip _ _ _
  · exact htip

end Legacy

namespace DigiShield

theorem elapsed_on_schedule {aim : Int} (haim : 0 ≤ aim)
    (htime : (tip.time.toNat : Int) = parent.time.toNat + aim) : elapsed tip parent aim = aim := by
  have hgap : (tip.time.toNat : Int) - parent.time.toNat = aim := by omega
  have hquarter : 0 ≤ aim.tdiv 4 := Int.tdiv_nonneg haim (by decide)
  have hhalf : 0 ≤ aim.tdiv 2 := Int.tdiv_nonneg haim (by decide)
  rw [elapsed, hgap]
  exact clamp_eq_self (by omega) (by omega)

theorem bits_on_schedule (hera : RetargetAlgorithm.select rules tip.nextHeight = .digiShield)
    (hparent : c.predecessor tip = some parent)
    (htime : (tip.time.toNat : Int) = parent.time.toNat + spacing rules tip.nextHeight)
    (hle : tip.bits.target ≤ rules.workLimit) (hroom : tip.bits.target * 120 < 2 ^ 256) :
    requiredBits c.predecessor tip rules = .encode tip.bits.target := by
  obtain ⟨hpos, hmost⟩ := spacing_bounds_of_select hera
  have hheight : tip.height ≠ 0 := toNat_ne_zero_iff.mp (by
    have := Segment.height_of_predecessor hparent
    omega)
  have hfirst : c.timedFrom? tip = some parent := by
    rw [Segment.timedFrom?, if_neg hheight]
    rwa [Segment.predecessor, if_neg hheight] at hparent
  rw [requiredBits_of_start hpos ((windowStart?_eq hpos c).trans hfirst),
    elapsed_on_schedule (Int.le_of_lt hpos) htime]
  obtain ⟨aim, haim⟩ := Int.eq_ofNat_of_zero_le (Int.le_of_lt hpos)
  rw [haim] at hpos hmost ⊢
  have hword : tip.bits.target * aim < 2 ^ 256 :=
    Nat.lt_of_le_of_lt (Nat.mul_le_mul_left _ (by omega)) hroom
  exact RuleSet.scaled_self (by omega) (by omega) hword hle

end DigiShield

/-- A chain of one difficulty that is on schedule keeps it. Under rules with the timing that a table
asks for, with blocks as far apart as the rules say, the periodic retarget asks for the bits that
all blocks carry, whether one is due or not; only the first retarget, whose window is a block short,
is left out. In its own era DigiShield does so under any timing, on top of a block that came as long
after its parent as DigiShield aims at for the next one. -/
theorem bits_stay_on_schedule (rules : RuleSet) (c : Segment) (bits : CompactTarget)
    (hsame : ∀ e ∈ c.entries, e.bits = bits) (hcanonical : .encode bits.target = bits)
    (hle : bits.target ≤ rules.workLimit)
    (hroom : bits.target * max rules.timespan.toNat 120 < 2 ^ 256) :
    (rules.wellTimed = true → rules.spacing ∣ rules.timespan → rules.timespan < 2 ^ 30 →
      c.SpacedBy rules.spacing → ∀ tip, c.Holds tip →
      RetargetAlgorithm.select rules tip.nextHeight = .legacy →
      (tip.nextHeight.toNat : Int) ≠ rules.interval →
      (Legacy.isDue tip rules = true → ¬ c.LacksBelow tip (Legacy.lookback tip rules).toNat) →
      ∀ (envelope : Kimoto.Envelope) (candidate : Header),
        (candidate.time.toNat : Int) ≤ tip.time.toNat + rules.spacing * 90 →
        requiredBits envelope c.predecessor tip candidate rules = bits) ∧
    (∀ tip parent, c.Holds tip → c.predecessor tip = some parent →
      RetargetAlgorithm.select rules tip.nextHeight = .digiShield →
      (tip.time.toNat : Int) = parent.time.toNat + DigiShield.spacing rules tip.nextHeight →
      ∀ (envelope : Kimoto.Envelope) (candidate : Header),
        requiredBits envelope c.predecessor tip candidate rules = bits) := by
  have hlegacyRoom : bits.target * rules.timespan.toNat < 2 ^ 256 :=
    Nat.lt_of_le_of_lt (Nat.mul_le_mul_left _ (Nat.le_max_left _ _)) hroom
  have hdigiRoom : bits.target * 120 < 2 ^ 256 :=
    Nat.lt_of_le_of_lt (Nat.mul_le_mul_left _ (Nat.le_max_right _ _)) hroom
  constructor
  · intro htimed hdvd hshort hspaced tip htip hera hnext hwindow envelope candidate htimely
    have hbits := hsame tip htip.mem
    rw [requiredBits_of_select hera]
    dsimp only
    by_cases hdue : Legacy.isDue tip rules = true
    · rw [Legacy.due_bits_on_schedule htimed hdvd hshort hspaced htip hera hnext hdue
        (hwindow hdue) (by rwa [hbits]) (by rwa [hbits]), hbits, hcanonical]
    · exact Legacy.bits_between_of_same hdue hbits hsame htimely
  · intro tip parent htip hparent hera htime envelope candidate
    have hbits := hsame tip htip.mem
    rw [requiredBits_of_select hera]
    dsimp only
    rw [DigiShield.bits_on_schedule hera hparent htime (by rwa [hbits]) (by rwa [hbits]), hbits,
      hcanonical]

/-- A retarget every three blocks over a window of twelve, and two blocks of the thirty-second
era. -/
theorem bits_stay_on_schedule_in_both_eras :
    let rules := { Network.mainRules[0] with timespan := 120 }
    let bits : CompactTarget := ⟨0x1c1a1206⟩
    let c := (Segment.startingAt 20039).pushAll ((List.range 13).map fun i =>
      (UInt32.ofNat (1400000000 + 40 * i), bits))
    let tip := ChainEntry.unhashed 20051 1400000480 bits
    let later := (Segment.startingAt 250000).pushAll [(1500000000, bits), (1500000030, bits)]
    let laterTip := ChainEntry.unhashed 250001 1500000030 bits
    c.SpacedBy 40 ∧ c.Holds tip ∧ Legacy.isDue tip rules = true ∧ later.Holds laterTip ∧
      ∀ (envelope : Kimoto.Envelope),
        requiredBits envelope c.predecessor tip (.candidate tip 1400004000) rules = bits ∧
        requiredBits envelope later.predecessor laterTip (.candidate laterTip 0) rules = bits := by
  intro rules bits c tip later laterTip
  have hheld : c.Holds tip := by decide
  have hall : ¬ c.LacksBelow tip 12 := fun hlacks =>
    absurd (hheld.lacksBelow_iff.mp hlacks) (by decide)
  have hspaced : c.SpacedBy 40 := by decide
  have hlater : later.Holds laterTip := by decide
  have hparent : later.predecessor laterTip = some (.unhashed 250000 1500000000 bits) := by decide
  have hlegacy := (bits_stay_on_schedule rules c bits (by decide) (by decide) (by decide)
    (by decide)).1 (by decide) (by decide) (by decide)
  have hdigi := (bits_stay_on_schedule rules later bits (by decide) (by decide) (by decide)
    (by decide)).2
  refine ⟨hspaced, hheld, by decide, hlater, fun envelope => ⟨?_, ?_⟩⟩
  · exact hlegacy hspaced tip hheld (by decide) (by decide) (fun _ => hall) envelope _ (by decide)
  · exact hdigi laterTip _ hlater hparent (by decide) (by decide) envelope _

end PowConsensus
