import PowConsensus.Network.Rules
import PowConsensus.Retarget.Required

/-! # Eras

The selected algorithm says where the next height lies among the fork heights of its rules. On the
main network these are numbers, and the eras of its algorithms follow one another.
-/
namespace PowConsensus
variable {rules : RuleSet} {index : ChainIndex} {tip : ChainEntry}

namespace ChainEntry

theorem toNat_nextHeight (e : ChainEntry) :
    e.nextHeight.toNat = min (e.height.toNat + 1) (UInt32.size - 1) := by
  have hlt := e.height.toNat_lt
  unfold nextHeight
  simp only [UInt32.size]
  split
  · rw [UInt32.toNat_add, UInt32.toNat_one]
    omega
  · omega

theorem nextHeight_congr {tip₁ tip₂ : ChainEntry} (h : tip₁.height = tip₂.height) :
    tip₁.nextHeight = tip₂.nextHeight := by
  unfold nextHeight
  rw [h]

end ChainEntry

namespace RetargetAlgorithm

/-- The heights at which these rules select an algorithm. -/
def Era (rules : RuleSet) (next : UInt32) : RetargetAlgorithm → Prop
  | .noRetarget => rules.noRetargeting = true
  | .darkGravityWave => rules.noRetargeting = false ∧ rules.fork4Height ≤ next
  | .digiShield => rules.noRetargeting = false ∧ next < rules.fork4Height ∧
      rules.fork2Height < next
  | .fork2Pause => rules.noRetargeting = false ∧ next < rules.fork4Height ∧
      next = rules.fork2Height
  | .kimotoGravityWell => rules.noRetargeting = false ∧ next < rules.fork4Height ∧
      next < rules.fork2Height ∧ rules.fork1Height ≤ next
  | .legacy => rules.noRetargeting = false ∧ next < rules.fork4Height ∧
      next < rules.fork2Height ∧ next < rules.fork1Height

theorem era_select (rules : RuleSet) (next : UInt32) : Era rules next (select rules next) := by
  unfold select
  split
  next hn => exact hn
  next hn =>
    have hretargets : rules.noRetargeting = false := (Bool.not_eq_true _).mp hn
    split
    next h4 => exact ⟨hretargets, h4⟩
    next h4 =>
      have hbefore4 : next < rules.fork4Height := UInt32.not_le.mp h4
      split
      next h2 => exact ⟨hretargets, hbefore4, UInt32.lt_iff_toNat_lt.mpr h2⟩
      next h2 =>
        split
        next heq => exact ⟨hretargets, hbefore4, heq⟩
        next hne =>
          have hnat : next.toNat ≠ rules.fork2Height.toNat := fun h => hne (UInt32.toNat_inj.mp h)
          have hbefore2 : next < rules.fork2Height := UInt32.lt_iff_toNat_lt.mpr (by omega)
          split
          next h1 => exact ⟨hretargets, hbefore4, hbefore2, h1⟩
          next h1 => exact ⟨hretargets, hbefore4, hbefore2, UInt32.not_le.mp h1⟩

theorem era_of_select {next : UInt32} {algorithm : RetargetAlgorithm}
    (h : select rules next = algorithm) : Era rules next algorithm := h ▸ era_select rules next

/-- On the main network the forks are in order, and no era lacks a lower end. -/
theorem era_main {next : UInt32} {algorithm : RetargetAlgorithm}
    (h : select Network.mainRules[0] next = algorithm) :
    match algorithm with
    | .noRetarget => False
    | .darkGravityWave => 385000 ≤ next.toNat
    | .digiShield => 200000 < next.toNat ∧ next.toNat < 385000
    | .fork2Pause => next.toNat = 200000
    | .kimotoGravityWell => 35000 ≤ next.toNat ∧ next.toNat < 200000
    | .legacy => next.toNat < 35000 := by
  have hera := era_of_select h
  cases algorithm with
  | noRetarget => exact Bool.false_ne_true hera
  | darkGravityWave => exact UInt32.le_iff_toNat_le.mp hera.2
  | digiShield =>
    exact ⟨UInt32.lt_iff_toNat_lt.mp hera.2.2, UInt32.lt_iff_toNat_lt.mp hera.2.1⟩
  | fork2Pause => exact congrArg UInt32.toNat hera.2.2
  | kimotoGravityWell =>
    exact ⟨UInt32.le_iff_toNat_le.mp hera.2.2.2, UInt32.lt_iff_toNat_lt.mp hera.2.2.1⟩
  | legacy => exact UInt32.lt_iff_toNat_lt.mp hera.2.2.2

end RetargetAlgorithm

/-- The algorithm that the height selects gives the bits. -/
theorem requiredBits_of_select {algorithm : RetargetAlgorithm} {envelope : Kimoto.Envelope}
    {candidate : Header} : RetargetAlgorithm.select rules tip.nextHeight = algorithm →
    requiredBits envelope index tip candidate rules =
      match algorithm with
      | .noRetarget => tip.bits
      | .fork2Pause => tip.bits
      | .darkGravityWave => DarkGravity.requiredBits index tip rules
      | .digiShield => DigiShield.requiredBits index tip rules
      | .kimotoGravityWell => Kimoto.requiredBits envelope index tip rules
      | .legacy => Legacy.requiredBits index tip candidate.time rules := by
  rintro rfl
  rfl

end PowConsensus
