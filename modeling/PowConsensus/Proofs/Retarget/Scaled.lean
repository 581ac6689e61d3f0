import PowConsensus.Proofs.Target.Order
import PowConsensus.Retarget.DarkGravity
import PowConsensus.Retarget.Kimoto

/-! # Scaled and capped targets

Capping and encoding keep the order of targets. So does scaling by elapsed time, as long as the
product is a word: then the multiplier is the elapsed time itself and nothing wraps.
-/
namespace PowConsensus
open CompactTarget (AtMost)

theorem clamp_bounds {low high : Int} (h : low ≤ high) (x : Int) :
    low ≤ clamp low high x ∧ clamp low high x ≤ high := by
  unfold clamp
  split
  · omega
  · split <;> omega

theorem clamp_mono {low high x y : Int} (h : low ≤ high) (hxy : x ≤ y) :
    clamp low high x ≤ clamp low high y := by
  obtain ⟨hlow, hhigh⟩ := clamp_bounds h y
  rw [clamp]
  split
  · exact hlow
  · split
    · have hy : clamp low high y = high := by rw [clamp, if_neg (by omega), if_pos (by omega)]
      exact Int.le_of_eq hy.symm
    · rw [clamp, if_neg (by omega)]
      split <;> omega

theorem clamp_eq {low high : Int} (h : low ≤ high) (x : Int) :
    clamp low high x = max low (min x high) := by
  unfold clamp
  split
  · omega
  · split <;> omega

theorem clamp_eq_self {low high x : Int} (hlow : low ≤ x) (hhigh : x ≤ high) :
    clamp low high x = x := by
  rw [clamp, if_neg (Int.not_lt.mpr hlow), if_neg (Int.not_lt.mpr hhigh)]

section Quotient
variable {target elapsed expected factor num den : Nat}

/-- Scaled by no less than `num` parts in `den`. -/
theorem mul_div_le_scaled (hexpected : 0 < expected) (h : num * expected ≤ den * elapsed) :
    num * target / den ≤ target * elapsed / expected := by
  have hprod : expected * (num * target) ≤ den * (target * elapsed) := by
    rw [← Nat.mul_assoc, Nat.mul_comm expected, Nat.mul_left_comm den, Nat.mul_comm target]
    exact Nat.mul_le_mul_right target h
  rw [Nat.le_div_iff_mul_le hexpected, Nat.mul_comm]
  calc expected * (num * target / den) ≤ expected * (num * target) / den :=
        Nat.mul_div_le_mul_div_assoc _ _ _
    _ ≤ target * elapsed := Nat.div_le_of_le_mul hprod

/-- Scaled by no more than `num` parts in `den`. -/
theorem scaled_le_mul_div (hden : 0 < den) (h : den * elapsed ≤ num * expected) :
    target * elapsed / expected ≤ num * target / den := by
  have hprod : den * (target * elapsed) ≤ expected * (num * target) := by
    rw [← Nat.mul_assoc expected, Nat.mul_comm expected, Nat.mul_left_comm den,
      Nat.mul_comm target]
    exact Nat.mul_le_mul_right target h
  rw [Nat.le_div_iff_mul_le hden, Nat.mul_comm]
  calc den * (target * elapsed / expected) ≤ den * (target * elapsed) / expected :=
        Nat.mul_div_le_mul_div_assoc _ _ _
    _ ≤ num * target := Nat.div_le_of_le_mul hprod

/-- Scaled by no less than one part in `factor`. -/
theorem div_le_scaled (hexpected : 0 < expected) (h : expected ≤ factor * elapsed) :
    target / factor ≤ target * elapsed / expected := by
  have hparts : 1 * expected ≤ factor * elapsed := by rwa [Nat.one_mul]
  have hle : 1 * target / factor ≤ target * elapsed / expected :=
    mul_div_le_scaled hexpected hparts
  rwa [Nat.one_mul] at hle

theorem scaled_le_mul (h : elapsed ≤ factor * expected) :
    target * elapsed / expected ≤ factor * target := by
  have hparts : 1 * elapsed ≤ factor * expected := by rwa [Nat.one_mul]
  have hle : target * elapsed / expected ≤ factor * target / 1 :=
    scaled_le_mul_div Nat.one_pos hparts
  rwa [Nat.div_one] at hle

end Quotient

/-- A target scaled as `RuleSet.scaled` does it, before it is capped. -/
def scaledTarget (target : Nat) (elapsed expected : Int) : Nat :=
  wrapMul target (elapsed % 2 ^ 32).toNat / expected.toNat

section Seconds
variable {target seconds : Nat} (hseconds : seconds < 2 ^ 32)
include hseconds

/-- The multiplier is a time that fits into it. -/
theorem scaledTarget_eq (target : Nat) (expected : Int) :
    scaledTarget target seconds expected = target * seconds % 2 ^ 256 / expected.toNat := by
  have hmultiplier : ((seconds : Int) % 2 ^ 32).toNat = seconds := by omega
  rw [scaledTarget, hmultiplier, wrapMul]

theorem scaledTarget_of_lt (h : target * seconds < 2 ^ 256) (expected : Int) :
    scaledTarget target seconds expected = target * seconds / expected.toNat := by
  rw [scaledTarget_eq hseconds, Nat.mod_eq_of_lt h]

end Seconds

namespace RuleSet
variable {rules : RuleSet} {t u : Nat}

theorem cap_eq (rules : RuleSet) (t : Nat) : rules.cap t = .encode (min rules.workLimit t) := by
  unfold cap
  split
  · rw [Nat.min_eq_left (by omega)]
  · rw [Nat.min_eq_right (by omega)]

theorem scaled_eq_cap (rules : RuleSet) (target : Nat) (elapsed expected : Int) :
    rules.scaled target elapsed expected = rules.cap (scaledTarget target elapsed expected) := rfl

/-- A target scaled by just the time expected is encoded as it is. -/
theorem scaled_self {target seconds : Nat} (hpos : 0 < seconds) (hseconds : seconds < 2 ^ 32)
    (hword : target * seconds < 2 ^ 256) (hle : target ≤ rules.workLimit) :
    rules.scaled target seconds seconds = .encode target := by
  rw [scaled_eq_cap, scaledTarget_of_lt hseconds hword, Int.toNat_natCast,
    Nat.mul_div_cancel target hpos, cap_eq, Nat.min_eq_right hle]

section Limit
variable (hlimit : rules.workLimit < wordModulus)
include hlimit

theorem cap_atMost (h : t ≤ u) : (rules.cap t).AtMost (rules.cap u) := by
  rw [cap_eq, cap_eq]
  exact CompactTarget.encode_atMost (by omega) (by omega)

theorem cap_target_pos_iff (hpos : 0 < rules.workLimit) : 0 < (rules.cap t).target ↔ 0 < t := by
  rw [cap_eq]
  constructor
  · intro h
    have hle := CompactTarget.target_encode_le (show min rules.workLimit t < wordModulus by omega)
    omega
  · intro h
    exact CompactTarget.target_encode_pos (by omega) (by omega)

/-- The limit is what comes out exactly for targets not below what its bits denote. -/
theorem cap_eq_workLimitBits_iff :
    rules.cap t = rules.workLimitBits ↔ rules.workLimitBits.target ≤ t := by
  have hle : rules.workLimitBits.target ≤ rules.workLimit := CompactTarget.target_encode_le hlimit
  rw [cap_eq, workLimitBits, CompactTarget.encode_eq_encode_iff (Nat.min_le_left _ _) hlimit]
  rw [workLimitBits] at hle
  omega

/-- A larger target scaled by a longer time is at least as large, if the product is a word. -/
theorem scaled_atMost {x y most : Int} (hx : 0 ≤ x) (hxy : x ≤ y) (hy : y ≤ most)
    (hmost : most < 2 ^ 32) (h : t ≤ u) (hword : (u : Int) * most < 2 ^ 256) (expected : Int) :
    (rules.scaled t x expected).AtMost (rules.scaled u y expected) := by
  obtain ⟨a, rfl⟩ := Int.eq_ofNat_of_zero_le hx
  obtain ⟨b, rfl⟩ := Int.eq_ofNat_of_zero_le (Int.le_trans hx hxy)
  have hab : a ≤ b := Int.ofNat_le.mp hxy
  have hub : u * b < 2 ^ 256 := by
    have := Int.mul_le_mul_of_nonneg_left hy (Int.natCast_nonneg u)
    have hcast : ((u * b : Nat) : Int) < 2 ^ 256 := by
      rw [Int.natCast_mul]
      omega
    omega
  have hprod : t * a ≤ u * b := Nat.mul_le_mul h hab
  rw [scaled_eq_cap, scaled_eq_cap, scaledTarget_of_lt (by omega) (by omega),
    scaledTarget_of_lt (by omega) hub]
  exact cap_atMost hlimit (Nat.div_le_div_right hprod)

/-- A scaled target is positive if what is left of the product as a word is no less than the
expected time. -/
theorem scaled_target_pos_iff (hpos : 0 < rules.workLimit) {elapsed expected : Int}
    (h0 : 0 ≤ elapsed) (h32 : elapsed < 2 ^ 32) (hexpected : 0 < expected) :
    0 < (rules.scaled t elapsed expected).target ↔
      expected.toNat ≤ t * elapsed.toNat % 2 ^ 256 := by
  have hmultiplier : (elapsed % 2 ^ 32).toNat = elapsed.toNat := by omega
  have hdivisor : 0 < expected.toNat := by omega
  rw [scaled_eq_cap, cap_target_pos_iff hlimit hpos, scaledTarget, hmultiplier, Nat.div_pos_iff]
  exact and_iff_right hdivisor

end Limit
end RuleSet

/-- The target that a sample of Dark Gravity Wave comes to, before it is capped. -/
def DarkGravity.Sample.uncapped (s : DarkGravity.Sample) : Nat :=
  let expected := s.count * spacing
  scaledTarget s.average (clamp (expected.tdiv 3) (expected * 3) s.actual) expected

theorem DarkGravity.bitsOfSample_eq_cap (s : DarkGravity.Sample) (rules : RuleSet) :
    bitsOfSample s rules = rules.cap s.uncapped := rfl

/-- The target that a sample of Kimoto Gravity Well comes to, before it is capped. -/
def Kimoto.Sample.uncapped (s : Kimoto.Sample) : Nat :=
  if s.actual ≠ 0 ∧ s.expected ≠ 0 then scaledTarget s.average s.actual s.expected else s.average

theorem Kimoto.bitsOfSample_eq_cap (s : Kimoto.Sample) (rules : RuleSet) :
    bitsOfSample s rules = rules.cap s.uncapped := by
  unfold bitsOfSample Sample.uncapped
  split
  · rfl
  · rfl

end PowConsensus
