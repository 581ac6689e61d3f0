import PowConsensus.Network.Rules
import PowConsensus.Proofs.Target.Magnitude
import PowConsensus.Work.Verdict

/-! # Which digests meet compact bits

A check of work reads the decoded value and its flags. Taken together they accept a digest
exactly when the sign bit is clear and the exact magnitude is positive, within the limit and not
below the digest.
-/
namespace PowConsensus
variable {digest : Digest} {c : CompactTarget} {rules : RuleSet}

theorem verdict_valid_iff :
    WorkVerdict.of digest c rules = .valid ↔
      c.decode.negative = false ∧ c.decode.overflow = false ∧ 0 < c.target ∧
        c.target ≤ rules.workLimit ∧ digest.toNat ≤ c.target := by
  simp only [WorkVerdict.of, CompactTarget.target]
  cases c.decode.negative <;> cases c.decode.overflow <;> simp only [Bool.false_eq_true, ↓reduceIte]
  case false.false =>
    split
    · simp [*]
    · split
      · simp; omega
      · split <;> simp <;> omega
  all_goals simp

theorem meetsTarget_iff : meetsTarget digest c rules = true ↔
    c.decode.negative = false ∧ c.decode.overflow = false ∧ 0 < c.target ∧
      c.target ≤ rules.workLimit ∧ digest.toNat ≤ c.target := by
  simp only [meetsTarget, decide_eq_true_eq, verdict_valid_iff]

/-- A positive magnitude comes from a positive mantissa, so that the sign bit counts. -/
theorem meetsTarget_iff_magnitude (hlimit : rules.workLimit < wordModulus) :
    meetsTarget digest c rules = true ↔
      c.signBit = false ∧ 0 < c.magnitude ∧ c.magnitude ≤ rules.workLimit ∧
        digest.toNat ≤ c.magnitude := by
  rw [meetsTarget_iff, CompactTarget.overflow_eq_false_iff, ← Bool.not_eq_true,
    CompactTarget.negative_iff]
  constructor
  · rintro ⟨hneg, hover, hpos, hle, hhash⟩
    rw [CompactTarget.target_eq_magnitude hover] at hpos hle hhash
    have hm := CompactTarget.mantissa_ne_zero_of_magnitude (Nat.ne_of_gt hpos)
    have hsign : ¬ c.signBit = true := fun h => hneg ⟨hm, h⟩
    exact ⟨by simpa using hsign, hpos, hle, hhash⟩
  · rintro ⟨hsign, hpos, hle, hhash⟩
    have hover : c.magnitude < wordModulus := Nat.lt_of_le_of_lt hle hlimit
    rw [CompactTarget.target_eq_magnitude hover]
    exact ⟨fun h => by simp [hsign] at h, hover, hpos, hle, hhash⟩

/-- Decoding and checking work agree with the exact magnitude: the value is its residue, the
overflow flag says that the residue differs from it, and a digest is accepted exactly if the
magnitude itself is positive, within the limit and at least the digest. -/
theorem acceptance_is_exact (c : CompactTarget) :
    c.decode.value = c.magnitude % 2 ^ 256 ∧
    (c.decode.overflow = true ↔ 2 ^ 256 ≤ c.magnitude) ∧
    ∀ (digest : Digest) (rules : RuleSet), rules.workLimit < 2 ^ 256 →
      (meetsTarget digest c rules = true ↔
        c.signBit = false ∧ 0 < c.magnitude ∧ c.magnitude ≤ rules.workLimit ∧
          digest.toNat ≤ c.magnitude) ∧
      (2 ^ 256 ≤ c.magnitude → meetsTarget digest c rules = false) ∧
      ∀ lower : Digest, lower.toNat ≤ digest.toNat →
        meetsTarget digest c rules = true → meetsTarget lower c rules = true := by
  refine ⟨c.decode_value, c.overflow_iff, fun digest rules hlimit => ?_⟩
  refine ⟨meetsTarget_iff_magnitude hlimit, fun hover => ?_, fun lower hlower haccept => ?_⟩
  · rw [← Bool.not_eq_true, meetsTarget_iff_magnitude hlimit]
    rintro ⟨_, _, hle, _⟩
    omega
  · rw [meetsTarget_iff_magnitude hlimit] at haccept ⊢
    exact ⟨haccept.1, haccept.2.1, haccept.2.2.1, Nat.le_trans hlower haccept.2.2.2⟩

/-- On both sides of the largest size: one mantissa denotes `2 ^ 256`, whose residue is zero, and
the one below it is accepted under the loosest limit. -/
theorem acceptance_at_word_boundary :
    { Network.testBase with workLimit := 2 ^ 256 - 1 }.workLimit < 2 ^ 256 ∧
    meetsTarget .zero ⟨0x21010000⟩ { Network.testBase with workLimit := 2 ^ 256 - 1 } = false ∧
    meetsTarget (.ofNat (0xffff * 256 ^ 30)) ⟨0x2100ffff⟩
      { Network.testBase with workLimit := 2 ^ 256 - 1 } = true := by
  have hlimit : { Network.testBase with workLimit := 2 ^ 256 - 1 }.workLimit < 2 ^ 256 := by decide
  refine ⟨hlimit, ?_, ?_⟩
  · exact ((acceptance_is_exact ⟨0x21010000⟩).2.2 .zero _ hlimit).2.1 (by decide)
  · apply ((acceptance_is_exact ⟨0x2100ffff⟩).2.2 _ _ hlimit).1.mpr
    refine ⟨by decide, by decide, by decide, ?_⟩
    rw [Digest.toNat_ofNat]
    decide

end PowConsensus
