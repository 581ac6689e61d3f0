import PowConsensus.Network.Rules
import PowConsensus.Proofs.Chain.Access
import PowConsensus.Proofs.Retarget.Windows

/-! # DigiShield in full

In the era of DigiShield an interval is one block, so that every block is due and its window is the
time since the parent. Two spacings are aimed at, each with a range for that time, and both ranges
lie between three quarters and one and a half of the spacing.
-/
namespace PowConsensus

/-- The block that the time of the tip counts from: the parent, or block zero itself on top of
it. -/
def Segment.timedFrom? (c : Segment) (tip : ChainEntry) : Option ChainEntry :=
  if tip.height = 0 then some tip else c.get? (tip.height - 1)

namespace DigiShield
variable {rules : RuleSet} {c : Segment} {tip first : ChainEntry}

theorem windowStart?_eq (hspacing : 0 < spacing rules tip.nextHeight) (c : Segment) :
    windowStart? c.predecessor tip rules = c.timedFrom? tip := by
  rw [windowStart?, Segment.timedFrom?]
  by_cases h0 : tip.height = 0
  · have hnext : tip.nextHeight.toNat = 1 := by
      rw [ChainEntry.nextHeight, h0]
      rfl
    have hlookback : lookback tip rules = 0 := by
      rw [lookback, interval_of_spacing hspacing, hnext]
      rfl
    rw [hlookback, if_pos h0]
    rfl
  · have hparent : c.predecessor tip = c.get? (tip.height - 1) := if_neg h0
    rw [lookback_of_spacing hspacing h0, if_neg h0, ← hparent]
    cases hp : c.predecessor tip with
    | none => simp [PowConsensus.windowStart?, ChainEntry.ancestor, hp]
    | some parent => simp [PowConsensus.windowStart?, ChainEntry.ancestor, hp]

theorem elapsed_eq (aim : Nat) (tip first : ChainEntry) :
    let low : Nat := aim - aim / 4
    let high : Nat := aim + aim / 2
    elapsed tip first aim =
      (max (low : Int) (min ((tip.time.toNat : Int) - first.time.toNat) high)).toNat := by
  intro low high
  have hnonneg : (0 : Int) ≤ aim := Int.natCast_nonneg aim
  rw [elapsed, clamp_eq (three_quarters_le hnonneg), Int.tdiv_eq_ediv_of_nonneg hnonneg,
    Int.tdiv_eq_ediv_of_nonneg hnonneg]
  omega

/-- With the block that the time counts from known, the target scaled and capped. -/
theorem requiredBits_eq_encode {aim seconds : Nat} (hspacing : spacing rules tip.nextHeight = aim)
    (hpos : 0 < aim) (hfirst : c.timedFrom? tip = some first)
    (helapsed : elapsed tip first aim = seconds) (hseconds : seconds < 2 ^ 32) :
    requiredBits c.predecessor tip rules =
      .encode (min rules.workLimit (tip.bits.target * seconds % 2 ^ 256 / aim)) := by
  have haim : 0 < spacing rules tip.nextHeight := by omega
  rw [requiredBits_of_start haim ((windowStart?_eq haim c).trans hfirst), hspacing, helapsed,
    RuleSet.scaled_eq_cap, RuleSet.cap_eq, scaledTarget_eq hseconds, Int.toNat_natCast]

/-- In its era DigiShield is due at every block, and aims at two minutes from the X11 fork on and at
thirty seconds before, whatever spacing the rules have. The bits depend on one block besides the
tip, its parent, and on nothing of the candidate: they are those of the limit where the parent is
not held, and else the target of the tip scaled by the time since its parent. That time counts for
three quarters of the spacing at the least, rounded up, and for one and a half at the most, so that
a target with room for the factor moves by no more than that before the limit is applied. -/
theorem every_block_is_retargeted_by_parent_time (rules : RuleSet) (next : UInt32)
    (hera : RetargetAlgorithm.select rules next = .digiShield) :
    let aim : Nat := if rules.x11ForkHeight ≤ next then 120 else 30
    spacing rules next = aim ∧ ∀ tip : ChainEntry, tip.nextHeight = next →
      isDue tip rules = true ∧
      ∀ (c : Segment) (envelope : Kimoto.Envelope) (candidate : Header),
        let bits := PowConsensus.requiredBits envelope c.predecessor tip candidate rules
        (c.timedFrom? tip = none → bits = rules.workLimitBits) ∧
        ∀ first, c.timedFrom? tip = some first →
          let seconds : Int := (tip.time.toNat : Int) - first.time.toNat
          let low : Nat := aim - aim / 4
          let high : Nat := aim + aim / 2
          let elapsed : Nat := (max (low : Int) (min seconds high)).toNat
          let target : Nat := tip.bits.target
          let uncapped : Nat := target * elapsed / aim
          bits = .encode (min rules.workLimit (target * elapsed % 2 ^ 256 / aim)) ∧
          (180 * target < 2 ^ 256 →
            target * elapsed < 2 ^ 256 ∧
            bits = .encode (min rules.workLimit uncapped) ∧
            3 * target / 4 ≤ uncapped ∧ uncapped ≤ 3 * target / 2 ∧
            (aim = 30 → 23 * target / 30 ≤ uncapped)) := by
  intro aim
  have hspacing : spacing rules next = aim := by
    rw [spacing_eq_of_select hera]
    exact (apply_ite (fun seconds : Nat => (seconds : Int)) _ 120 30).symm
  have haim : aim = 120 ∨ aim = 30 := by
    by_cases hx11 : rules.x11ForkHeight ≤ next
    · exact Or.inl (if_pos hx11)
    · exact Or.inr (if_neg hx11)
  refine ⟨hspacing, ?_⟩
  rintro tip rfl
  have hpos : 0 < spacing rules tip.nextHeight := by omega
  refine ⟨isDue_of_spacing hpos, fun c envelope candidate => ?_⟩
  intro bits
  have hbits : bits = requiredBits c.predecessor tip rules := requiredBits_of_select hera
  refine ⟨fun hnone => ?_, fun first hfirst => ?_⟩
  · rw [hbits]
    exact requiredBits_of_no_start hpos ((windowStart?_eq hpos c).trans hnone)
  · intro seconds low high elapsed target uncapped
    have helapsed : DigiShield.elapsed tip first aim = elapsed := elapsed_eq aim tip first
    have hrange : low ≤ elapsed ∧ elapsed ≤ high := by omega
    have hscaled : bits = .encode (min rules.workLimit (target * elapsed % 2 ^ 256 / aim)) := by
      rw [hbits]
      exact requiredBits_eq_encode hspacing (by omega) hfirst helapsed (by omega)
    refine ⟨hscaled, fun hroom => ?_⟩
    have hword : target * elapsed < 2 ^ 256 :=
      calc target * elapsed ≤ target * 180 := Nat.mul_le_mul_left _ (by omega)
        _ = 180 * target := Nat.mul_comm _ _
        _ < 2 ^ 256 := hroom
    rw [Nat.mod_eq_of_lt hword] at hscaled
    exact ⟨hword, hscaled, mul_div_le_scaled (by omega) (by omega),
      scaled_le_mul_div (by omega) (by omega),
      fun h30 => mul_div_le_scaled (by omega) (by omega)⟩

/-- Times that go backwards count for twenty-three of thirty seconds. -/
theorem every_block_is_retargeted_by_parent_time_going_backwards :
    let rules := Network.mainRules[0]
    let c := (Segment.startingAt 250000).pushAll
      [(1500000000, ⟨0x1b0404cb⟩), (1400000000, ⟨0x1b0404cb⟩)]
    let tip := ChainEntry.unhashed 250001 1400000000 ⟨0x1b0404cb⟩
    let target := tip.bits.target
    RetargetAlgorithm.select rules 250002 = .digiShield ∧ tip.nextHeight = 250002 ∧
      180 * target < 2 ^ 256 ∧ spacing rules 250002 = 30 ∧ isDue tip rules = true ∧
      ∀ envelope candidate,
        PowConsensus.requiredBits envelope c.predecessor tip candidate rules =
            .encode (min rules.workLimit (target * 23 / 30)) ∧
          3 * target / 4 ≤ target * 23 / 30 := by
  intro rules c tip target
  have hera : RetargetAlgorithm.select rules 250002 = .digiShield := by decide
  have hnext : tip.nextHeight = 250002 := by decide
  have hroom : 180 * target < 2 ^ 256 := by decide
  have hparent : c.timedFrom? tip = some (.unhashed 250000 1500000000 ⟨0x1b0404cb⟩) := by decide
  obtain ⟨hspacing, htips⟩ := every_block_is_retargeted_by_parent_time rules 250002 hera
  obtain ⟨hdue, hchain⟩ := htips tip hnext
  refine ⟨hera, hnext, hroom, hspacing, hdue, fun envelope candidate => ?_⟩
  obtain ⟨-, hbits, hlow, -⟩ := ((hchain c envelope candidate).2 _ hparent).2 hroom
  exact ⟨hbits.trans (by decide), Nat.le_trans hlow (Nat.le_of_eq (by decide))⟩

end DigiShield
end PowConsensus
