import Mathlib.Tactic.SplitIfs
import PowConsensus.Network.Rules
import PowConsensus.Proofs.Target.Magnitude
import PowConsensus.Work.Verdict

/-! # Signs of targets that vanish

A size below three drops bytes of the mantissa, and with small mantissas nothing is left: the number
denoted is zero. The flag for negative targets is computed before that, from all of the mantissa, so
that a zero of this kind with the sign bit set counts as negative, and its rejection says so. Apart
from these, the flag and the verdicts are those of the number denoted.
-/
namespace PowConsensus
namespace CompactTarget
variable {c : CompactTarget}

theorem magnitude_eq_zero_iff (c : CompactTarget) :
    c.magnitude = 0 ↔ c.mantissa < 256 ^ (3 - c.size) := by
  by_cases hs : c.size ≤ 3
  · rw [magnitude_of_size_le hs, Nat.div_eq_zero_iff_lt (Nat.pow_pos (by decide))]
  · have hpos : 256 ^ (c.size - 3) ≠ 0 := Nat.ne_of_gt (Nat.pow_pos (by decide))
    have hnone : 3 - c.size = 0 := by omega
    rw [magnitude_of_le_size (by omega), hnone, Nat.pow_zero, Nat.lt_one_iff, Nat.mul_eq_zero]
    exact or_iff_left hpos

/-- The sign bit is set and there is a mantissa, but the size drops all of it. -/
def SignedZero (c : CompactTarget) : Prop :=
  c.signBit = true ∧ c.mantissa ≠ 0 ∧ c.mantissa < 256 ^ (3 - c.size)

theorem SignedZero.magnitude_eq_zero (h : c.SignedZero) : c.magnitude = 0 :=
  c.magnitude_eq_zero_iff.mpr h.2.2

/-- A mantissa is set where the number denoted is not zero, and where all of it is dropped. -/
theorem negative_iff_magnitude (c : CompactTarget) :
    c.decode.negative = true ↔ (c.signBit = true ∧ c.magnitude ≠ 0) ∨ c.SignedZero := by
  rw [negative_iff]
  constructor
  · rintro ⟨hmantissa, hsign⟩
    by_cases hzero : c.magnitude = 0
    · exact Or.inr ⟨hsign, hmantissa, c.magnitude_eq_zero_iff.mp hzero⟩
    · exact Or.inl ⟨hsign, hzero⟩
  · rintro (⟨hsign, hne⟩ | ⟨hsign, hmantissa, -⟩)
    · exact ⟨mantissa_ne_zero_of_magnitude hne, hsign⟩
    · exact ⟨hmantissa, hsign⟩

/-- Once the flags are clear, the value is the number denoted. -/
theorem value_eq_zero_iff (hfits : c.decode.overflow = false) :
    c.decode.value = 0 ↔ c.magnitude = 0 := by
  have hvalue := target_eq_magnitude ((overflow_eq_false_iff c).mp hfits)
  rw [target] at hvalue
  rw [hvalue]

end CompactTarget

namespace WorkVerdict
variable {digest : Digest} {c : CompactTarget} {rules : RuleSet}

theorem of_eq_negativeTarget_iff :
    of digest c rules = .negativeTarget ↔ c.decode.negative = true := by
  constructor
  · intro h
    refine Decidable.byContradiction fun hclear => ?_
    simp only [of, if_neg hclear] at h
    split_ifs at h
  · intro hnegative
    simp only [of, if_pos hnegative]

theorem of_eq_zeroTarget_iff :
    of digest c rules = .zeroTarget ↔ c.decode.negative = false ∧ c.magnitude = 0 := by
  constructor
  · intro h
    simp only [of] at h
    split_ifs at h with hnegative hoverflow hzero
    rw [Bool.not_eq_true] at hnegative hoverflow
    exact ⟨hnegative, (CompactTarget.value_eq_zero_iff hoverflow).mp hzero⟩
  · rintro ⟨hnegative, hmagnitude⟩
    have hfits : c.decode.overflow = false := by
      rw [CompactTarget.overflow_eq_false_iff, hmagnitude]
      decide
    have hzero := (CompactTarget.value_eq_zero_iff hfits).mpr hmagnitude
    simp only [of, hnegative, hfits, hzero, Bool.false_eq_true, ↓reduceIte]

end WorkVerdict

/-- The flag for negative targets says whether the sign bit is set and any of the mantissa, so it
agrees with the number denoted exactly outside the signed zeros. Whatever the digest and the rules,
a target is rejected as negative if it denotes a number below zero or is a signed zero, and as zero
if it denotes zero without being one. -/
theorem sign_is_read_before_size_drops_mantissa (c : CompactTarget) :
    (c.decode.negative = true ↔ c.signBit = true ∧ c.mantissa ≠ 0) ∧
    ((c.decode.negative = true ↔ c.signBit = true ∧ c.magnitude ≠ 0) ↔ ¬ c.SignedZero) ∧
    ∀ (digest : Digest) (rules : RuleSet),
      (WorkVerdict.of digest c rules = .negativeTarget ↔
        (c.signBit = true ∧ c.magnitude ≠ 0) ∨ c.SignedZero) ∧
      (WorkVerdict.of digest c rules = .zeroTarget ↔ c.magnitude = 0 ∧ ¬ c.SignedZero) := by
  have hflag := c.negative_iff_magnitude
  refine ⟨c.negative_iff.trans And.comm, ?_, fun digest rules => ⟨?_, ?_⟩⟩
  · rw [hflag]
    constructor
    · intro hagree hdropped
      exact (hagree.mp (Or.inr hdropped)).2 hdropped.magnitude_eq_zero
    · intro hkept
      exact or_iff_left hkept
  · rw [WorkVerdict.of_eq_negativeTarget_iff, hflag]
  · rw [WorkVerdict.of_eq_zeroTarget_iff, ← Bool.not_eq_true, hflag, not_or, and_comm]
    constructor
    · rintro ⟨hzero, -, hkept⟩
      exact ⟨hzero, hkept⟩
    · rintro ⟨hzero, hkept⟩
      exact ⟨hzero, fun hnegative => hnegative.2 hzero, hkept⟩

/-- One byte of a mantissa of three is kept, and only the last one is set. -/
theorem signed_zero_is_rejected_as_negative :
    let c : CompactTarget := ⟨0x01800001⟩
    c.signBit = true ∧ c.magnitude = 0 ∧ c.decode.value = 0 ∧
      ¬ (c.decode.negative = true ↔ c.signBit = true ∧ c.magnitude ≠ 0) ∧
      WorkVerdict.of .zero c Network.mainRules[0] = .negativeTarget ∧
      WorkVerdict.of .zero c Network.mainRules[0] ≠ .zeroTarget := by
  intro c
  have hverdict : WorkVerdict.of .zero c Network.mainRules[0] = .negativeTarget := by decide
  refine ⟨by decide, by decide, by decide, by decide, hverdict, ?_⟩
  rw [hverdict]
  decide

end PowConsensus
