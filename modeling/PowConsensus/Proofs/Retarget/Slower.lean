import PowConsensus.Proofs.Retarget.Averages
import PowConsensus.Proofs.Retarget.Windows

/-! # Slower chains are not required to be harder

A due retarget reads targets and measures seconds. With larger targets and more seconds, position
by position, every stage gives at least as much: the running average, the clamped time, the scaled
and capped target, and its encoding both as a target and as a number. Only a product that wraps
would break the order, so the targets must leave room for the greatest multiplier.
-/
namespace PowConsensus
variable {rules : RuleSet} {tip₁ tip₂ : ChainEntry}

/-- The blocks whose targets a retarget reads, the tip first, and the seconds that it measures,
where the segment holds all of its window. -/
inductive Reading (rules : RuleSet) (c : Segment) (tip : ChainEntry) :
    RetargetAlgorithm → List ChainEntry → Int → Prop
  | legacy {first : ChainEntry} (due : Legacy.isDue tip rules = true)
      (start : Legacy.windowStart? c.predecessor tip rules = some first) :
      Reading rules c tip .legacy [tip] ((tip.time.toNat : Int) - first.time.toNat)
  | digiShield {first : ChainEntry}
      (start : DigiShield.windowStart? c.predecessor tip rules = some first) :
      Reading rules c tip .digiShield [tip] ((tip.time.toNat : Int) - first.time.toNat)
  | darkGravity {oldest : ChainEntry} (height : 24 ≤ tip.height.toNat)
      (window : (tip.trail c.predecessor 24).length = 24)
      (last : (tip.trail c.predecessor 24).getLast? = some oldest)
      (times : ∀ e ∈ tip.trail c.predecessor 24, e.time ≠ 0) :
      Reading rules c tip .darkGravityWave (tip.trail c.predecessor 24)
        ((tip.time.toNat : Int) - oldest.time.toNat)

/-- The greatest number of seconds that an algorithm multiplies a target by, after clamping. -/
def greatestMultiplier (rules : RuleSet) : RetargetAlgorithm → Int
  | .legacy => 4 * rules.timespan
  | .digiShield => 180
  | .darkGravityWave => 8640
  | _ => 0

section Stages
variable (hlimit : rules.workLimit < wordModulus)
include hlimit

theorem Legacy.scaled_atMost (hheight : tip₁.height = tip₂.height)
    (hbound : 4 * rules.timespan < 2 ^ 32) {time₁ time₂ : Int}
    (htarget : tip₁.bits.target ≤ tip₂.bits.target)
    (hseconds : (tip₁.time.toNat : Int) - time₁ ≤ tip₂.time.toNat - time₂)
    (hroom : (tip₂.bits.target : Int) * (4 * rules.timespan) < 2 ^ 256) :
    (rules.scaled tip₁.bits.target (elapsed tip₁ time₁ rules) rules.timespan).AtMost
      (rules.scaled tip₂.bits.target (elapsed tip₂ time₂ rules) rules.timespan) := by
  by_cases hpos : 0 < rules.timespan
  · have hnonneg := Int.le_of_lt hpos
    have hlow := (elapsed_bounds hnonneg tip₁ time₁).1
    have hhigh := (elapsed_bounds hnonneg tip₂ time₂).2
    have hquarter : 0 ≤ rules.timespan.tdiv 4 := Int.tdiv_nonneg hnonneg (by decide)
    exact RuleSet.scaled_atMost hlimit (by omega) (elapsed_mono hnonneg hheight hseconds)
      (by omega) hbound htarget hroom _
  · -- A quotient by no time at all is zero on either side.
    have hzero : rules.timespan.toNat = 0 := by omega
    rw [RuleSet.scaled_eq_cap, RuleSet.scaled_eq_cap, scaledTarget, scaledTarget, hzero,
      Nat.div_zero, Nat.div_zero]
    exact RuleSet.cap_atMost hlimit (Nat.le_refl 0)

theorem DigiShield.scaled_atMost {spacing : Int} (hpos : 0 < spacing) (hbound : spacing ≤ 120)
    {first₁ first₂ : ChainEntry} (htarget : tip₁.bits.target ≤ tip₂.bits.target)
    (hseconds : (tip₁.time.toNat : Int) - first₁.time.toNat ≤
      tip₂.time.toNat - first₂.time.toNat)
    (hroom : (tip₂.bits.target : Int) * 180 < 2 ^ 256) :
    (rules.scaled tip₁.bits.target (elapsed tip₁ first₁ spacing) spacing).AtMost
      (rules.scaled tip₂.bits.target (elapsed tip₂ first₂ spacing) spacing) := by
  have hnonneg := Int.le_of_lt hpos
  have hlow := (elapsed_bounds hnonneg tip₁ first₁).1
  have hhigh := (elapsed_bounds hnonneg tip₂ first₂).2
  rw [Int.tdiv_eq_ediv_of_nonneg hnonneg] at hlow hhigh
  exact RuleSet.scaled_atMost hlimit (by omega) (elapsed_mono hnonneg hseconds) (by omega)
    (by decide) htarget hroom _

/-- Full samples with no smaller target and no less time. -/
theorem DarkGravity.bitsOfSample_atMost {blocks₁ blocks₂ : List ChainEntry}
    (hlength : blocks₁.length = 24)
    (htargets : List.Forall₂ (fun e₁ e₂ => e₁.bits.target ≤ e₂.bits.target) blocks₁ blocks₂)
    (hseconds : (Sample.ofBlocks blocks₁).actual ≤ (Sample.ofBlocks blocks₂).actual)
    (hroom : ∀ e ∈ blocks₂, (e.bits.target : Int) * 8640 < 2 ^ 256) :
    (bitsOfSample (.ofBlocks blocks₁) rules).AtMost (bitsOfSample (.ofBlocks blocks₂) rules) := by
  have hsame : blocks₂.length = 24 := htargets.length_eq ▸ hlength
  -- The greatest target with room for the multiplier.
  have hblocks : ∀ e ∈ blocks₂, e.bits.target ≤ (2 ^ 256 - 1) / 8640 := by
    intro e he
    have := hroom e he
    omega
  have hweights : (2 ^ 256 - 1) / 8640 * (blocks₂.length + 1) < 2 ^ 256 := by
    rw [hsame]
    decide
  obtain ⟨haverage, hhigh⟩ := average_ofBlocks_mono htargets hblocks hweights
  have hexpected₁ : ((Sample.ofBlocks blocks₁).count : Int) * spacing = 2880 := by
    rw [count_ofBlocks, hlength]
    rfl
  have hexpected₂ : ((Sample.ofBlocks blocks₂).count : Int) * spacing = 2880 := by
    rw [count_ofBlocks, hsame]
    rfl
  have hrange : (Int.tdiv 2880 3 : Int) ≤ 2880 * 3 := by decide
  have hlow := (clamp_bounds hrange (Sample.ofBlocks blocks₁).actual).1
  have hmost := (clamp_bounds hrange (Sample.ofBlocks blocks₂).actual).2
  have hthird : (0 : Int) ≤ Int.tdiv 2880 3 := by decide
  simp only [bitsOfSample, hexpected₁, hexpected₂]
  exact RuleSet.scaled_atMost hlimit (Int.le_trans hthird hlow) (clamp_mono hrange hseconds) hmost
    (by decide) haverage (by omega) _

end Stages

/-- Between two tips of one height, the one with no smaller target at any position that is read and
with at least as many seconds measured is required a target at least as large, and bits that are
at least as large as numbers. -/
theorem slower_chain_is_not_harder (rules : RuleSet) (hbound : 4 * rules.timespan < 2 ^ 32)
    (hlimit : rules.workLimit < 2 ^ 256) (c₁ c₂ : Segment) (tip₁ tip₂ : ChainEntry)
    (hheight : tip₁.height = tip₂.height) (algorithm : RetargetAlgorithm)
    (hselect : RetargetAlgorithm.select rules tip₁.nextHeight = algorithm)
    (blocks₁ blocks₂ : List ChainEntry) (seconds₁ seconds₂ : Int)
    (h₁ : Reading rules c₁ tip₁ algorithm blocks₁ seconds₁)
    (h₂ : Reading rules c₂ tip₂ algorithm blocks₂ seconds₂)
    (htargets : List.Forall₂ (fun e₁ e₂ => e₁.bits.target ≤ e₂.bits.target) blocks₁ blocks₂)
    (hseconds : seconds₁ ≤ seconds₂)
    (hroom : ∀ e ∈ blocks₂, (e.bits.target : Int) * greatestMultiplier rules algorithm < 2 ^ 256)
    (envelope₁ envelope₂ : Kimoto.Envelope) (candidate₁ candidate₂ : Header) :
    (requiredBits envelope₁ c₁.predecessor tip₁ candidate₁ rules).target ≤
        (requiredBits envelope₂ c₂.predecessor tip₂ candidate₂ rules).target ∧
      (requiredBits envelope₁ c₁.predecessor tip₁ candidate₁ rules).bits ≤
        (requiredBits envelope₂ c₂.predecessor tip₂ candidate₂ rules).bits := by
  have hnext := ChainEntry.nextHeight_congr hheight
  have hselect₂ : RetargetAlgorithm.select rules tip₂.nextHeight = algorithm := hnext ▸ hselect
  have hatMost : (requiredBits envelope₁ c₁.predecessor tip₁ candidate₁ rules).AtMost
      (requiredBits envelope₂ c₂.predecessor tip₂ candidate₂ rules) := by
    rw [requiredBits_of_select hselect, requiredBits_of_select hselect₂]
    cases h₁ with
    | legacy due₁ start₁ =>
      cases h₂ with
      | legacy due₂ start₂ =>
        have htarget := (List.forall₂_cons.mp htargets).1
        have htip := hroom tip₂ (List.mem_singleton.mpr rfl)
        dsimp only
        rw [Legacy.requiredBits_of_start hselect due₁ start₁,
          Legacy.requiredBits_of_start hselect₂ due₂ start₂]
        exact Legacy.scaled_atMost hlimit hheight hbound htarget hseconds htip
    | digiShield start₁ =>
      cases h₂ with
      | digiShield start₂ =>
        have htarget := (List.forall₂_cons.mp htargets).1
        have htip := hroom tip₂ (List.mem_singleton.mpr rfl)
        obtain ⟨hpos, hle⟩ := DigiShield.spacing_bounds_of_select hselect
        dsimp only
        rw [DigiShield.requiredBits_of_start hpos start₁,
          DigiShield.requiredBits_of_start (hnext ▸ hpos) start₂, ← hnext]
        exact DigiShield.scaled_atMost hlimit hpos hle htarget hseconds htip
    | darkGravity height₁ window₁ last₁ times₁ =>
      cases h₂ with
      | darkGravity height₂ window₂ last₂ times₂ =>
        have hne₁ : tip₁.height ≠ 0 := toNat_ne_zero_iff.mp (by omega)
        have hne₂ : tip₂.height ≠ 0 := toNat_ne_zero_iff.mp (by omega)
        have hactual₁ := DarkGravity.actual_ofTrail hne₁ (by decide) last₁ times₁
        have hactual₂ := DarkGravity.actual_ofTrail hne₂ (by decide) last₂ times₂
        dsimp only
        rw [DarkGravity.requiredBits_of_height height₁, DarkGravity.requiredBits_of_height height₂]
        exact DarkGravity.bitsOfSample_atMost hlimit window₁ htargets (by omega) hroom
  exact ⟨hatMost.target_le, hatMost.bits_le⟩

/-- Full windows of Dark Gravity Wave: the harder one has two kinds of bits in turn and a block each
minute, the other has the easier bits throughout and a block every five minutes. -/
theorem slower_chain_is_not_harder_after_fork4 :
    let rules := Network.mainRules[0]
    let steady (spacing : Nat) (even odd : CompactTarget) : Segment :=
      (Segment.startingAt 400000).pushAll ((List.range 24).map fun i =>
        (UInt32.ofNat (1500000000 + spacing * i), if i % 2 = 0 then even else odd))
    let fast := steady 60 ⟨0x1b0404cb⟩ ⟨0x1b0500a0⟩
    let slow := steady 300 ⟨0x1b0500a0⟩ ⟨0x1b0500a0⟩
    let tip₁ := ChainEntry.unhashed 400023 1500001380 ⟨0x1b0500a0⟩
    let tip₂ := ChainEntry.unhashed 400023 1500006900 ⟨0x1b0500a0⟩
    let demand (c : Segment) (tip : ChainEntry) : CompactTarget :=
      requiredBits Kimoto.standardEnvelope c.predecessor tip (.candidate tip 0) rules
    fast.tip? = some tip₁ ∧ slow.tip? = some tip₂ ∧
      (demand fast tip₁).target ≤ (demand slow tip₂).target ∧
      (demand fast tip₁).bits ≤ (demand slow tip₂).bits := by
  intro rules steady fast slow tip₁ tip₂ demand
  have hlast₁ : (tip₁.trail fast.predecessor 24).getLast? =
      some (.unhashed 400000 1500000000 ⟨0x1b0404cb⟩) := by decide
  have hlast₂ : (tip₂.trail slow.predecessor 24).getLast? =
      some (.unhashed 400000 1500000000 ⟨0x1b0500a0⟩) := by decide
  have h₁ : Reading rules fast tip₁ .darkGravityWave (tip₁.trail fast.predecessor 24)
      ((tip₁.time.toNat : Int) - 1500000000) :=
    .darkGravity (by decide) (by decide) hlast₁ (by decide)
  have h₂ : Reading rules slow tip₂ .darkGravityWave (tip₂.trail slow.predecessor 24)
      ((tip₂.time.toNat : Int) - 1500000000) :=
    .darkGravity (by decide) (by decide) hlast₂ (by decide)
  have htargets : List.Forall₂ (fun e₁ e₂ => e₁.bits.target ≤ e₂.bits.target)
      (tip₁.trail fast.predecessor 24) (tip₂.trail slow.predecessor 24) := by decide
  refine ⟨by decide, by decide, ?_⟩
  exact slower_chain_is_not_harder rules (by decide) (by decide) fast slow tip₁ tip₂ rfl
    .darkGravityWave rfl _ _ _ _ h₁ h₂ htargets (by decide) (by decide) _ _ _ _

end PowConsensus
