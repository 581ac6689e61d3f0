import PowConsensus.Proofs.Target.Magnitude

/-! # Encoding targets

The mantissa of an encoded target is the quotient of the target by a power of 256, and the size
byte is the exponent of that power: three bytes remain, or two if the first one would set the sign
bit. Hence encoding a word sets no flag and never rounds up.
-/
namespace PowConsensus.CompactTarget
variable {t : Nat}

theorem byteLength_bounds (h : t ≠ 0) :
    256 ^ (byteLength t - 1) ≤ t ∧ t < 256 ^ byteLength t := by
  have hlow : 8 * (byteLength t - 1) ≤ t.log2 := by unfold byteLength; omega
  have hhigh : t.log2 < 8 * byteLength t := by unfold byteLength; omega
  rw [Nat.le_log2 h, Nat.pow_mul] at hlow
  rw [Nat.log2_lt h, Nat.pow_mul] at hhigh
  exact ⟨hlow, hhigh⟩

theorem byteLength_pos (t : Nat) : 0 < byteLength t := by
  unfold byteLength
  omega

theorem byteLength_le_of_lt (h : t ≠ 0) {k : Nat} (hk : t < 256 ^ k) : byteLength t ≤ k := by
  refine Nat.le_of_not_lt fun hlt => ?_
  have hpow : 256 ^ k ≤ 256 ^ (byteLength t - 1) := Nat.pow_le_pow_right (by decide) (by omega)
  have := (byteLength_bounds h).1
  omega

theorem leadingWord_eq (t : Nat) : leadingWord t = t * 256 ^ 3 / 256 ^ byteLength t := by
  simp only [leadingWord]
  split
  next h => exact (mul_pow_div_pow_of_ge t h).symm
  next h => exact (mul_pow_div_pow_of_le t (by omega)).symm

theorem leadingWord_lt (h : t ≠ 0) : leadingWord t < 2 ^ 24 := by
  rw [leadingWord_eq, Nat.div_lt_iff_lt_mul (Nat.pow_pos (by decide)), Nat.mul_comm (2 ^ 24)]
  exact Nat.mul_lt_mul_of_pos_right (byteLength_bounds h).2 (by decide)

/-- The first of the three leading bytes is not zero. -/
theorem le_leadingWord (h : t ≠ 0) : 2 ^ 16 ≤ leadingWord t := by
  rw [leadingWord_eq, Nat.le_div_iff_mul_le (Nat.pow_pos (by decide))]
  obtain ⟨n, hn⟩ := Nat.exists_eq_add_of_lt (byteLength_pos t)
  have hlow := (byteLength_bounds h).1
  rw [hn] at hlow ⊢
  rw [Nat.zero_add, Nat.add_sub_cancel] at hlow
  rw [Nat.zero_add, Nat.pow_succ]
  omega

/-- The size byte of an encoded target. -/
def encodedSize (t : Nat) : Nat :=
  if leadingWord t < 2 ^ 23 then byteLength t else byteLength t + 1

/-- The mantissa of an encoded target. -/
def encodedMantissa (t : Nat) : Nat := t * 256 ^ 3 / 256 ^ encodedSize t

theorem encodedMantissa_of_lt (h : leadingWord t < 2 ^ 23) : encodedMantissa t = leadingWord t := by
  rw [encodedMantissa, encodedSize, if_pos h, leadingWord_eq]

theorem encodedMantissa_of_ge (h : ¬ leadingWord t < 2 ^ 23) :
    encodedMantissa t = leadingWord t / 256 := by
  rw [encodedMantissa, encodedSize, if_neg h, leadingWord_eq, Nat.div_div_eq_div_mul,
    ← Nat.pow_succ]

theorem encodedMantissa_lt (h : t ≠ 0) : encodedMantissa t < 2 ^ 23 := by
  have hlt := leadingWord_lt h
  by_cases hw : leadingWord t < 2 ^ 23
  · rwa [encodedMantissa_of_lt hw]
  · rw [encodedMantissa_of_ge hw]
    omega

theorem encode_eq (h : t ≠ 0) :
    encode t = ⟨UInt32.ofNat (encodedMantissa t + encodedSize t * 2 ^ 24)⟩ := by
  simp only [encode, if_neg h]
  split
  next hw => rw [encodedMantissa_of_lt hw, encodedSize, if_pos hw]
  next hw => rw [encodedMantissa_of_ge hw, encodedSize, if_neg hw]

section Fields
variable (h0 : t ≠ 0) (ht : t < wordModulus)
include h0 ht

theorem encodedSize_le : encodedSize t ≤ 33 := by
  have hlen : byteLength t ≤ 32 := byteLength_le_of_lt h0 ht
  unfold encodedSize
  split <;> omega

theorem bits_encode : (encode t).bits.toNat = encodedMantissa t + encodedSize t * 2 ^ 24 := by
  have hm := encodedMantissa_lt h0
  have hs := encodedSize_le h0 ht
  rw [encode_eq h0]
  exact UInt32.toNat_ofNat_of_lt' (by simp only [UInt32.size]; omega)

theorem size_encode : (encode t).size = encodedSize t := by
  have hm := encodedMantissa_lt h0
  rw [size, bits_encode h0 ht]
  omega

theorem mantissa_encode : (encode t).mantissa = encodedMantissa t := by
  have hm := encodedMantissa_lt h0
  rw [mantissa, bits_encode h0 ht]
  omega

end Fields

theorem signBit_encode (ht : t < wordModulus) : (encode t).signBit = false := by
  by_cases h0 : t = 0
  · subst h0
    decide
  · have hm := encodedMantissa_lt h0
    rw [signBit, bits_encode h0 ht, beq_eq_false_iff_ne]
    omega

theorem magnitude_encode_le (ht : t < wordModulus) : (encode t).magnitude ≤ t := by
  by_cases h0 : t = 0
  · subst h0
    decide
  · rw [magnitude, mantissa_encode h0 ht, size_encode h0 ht, encodedMantissa]
    calc t * 256 ^ 3 / 256 ^ encodedSize t * 256 ^ encodedSize t / 256 ^ 3
        ≤ t * 256 ^ 3 / 256 ^ 3 := Nat.div_le_div_right (Nat.div_mul_le_self _ _)
      _ = t := Nat.mul_div_cancel t (by decide)

theorem target_encode_le (ht : t < wordModulus) : (encode t).target ≤ t := by
  have hle := magnitude_encode_le ht
  rwa [target_eq_magnitude (Nat.lt_of_le_of_lt hle ht)]

/-- Decoding sets neither flag and gives at most the limit. -/
structure Within (limit : Nat) (c : CompactTarget) : Prop where
  nonnegative : c.decode.negative = false
  fits : c.decode.overflow = false
  le : c.target ≤ limit

theorem encode_within {limit : Nat} (ht : t < wordModulus) (hle : t ≤ limit) :
    (encode t).Within limit where
  nonnegative := by
    rw [← Bool.not_eq_true, negative_iff, signBit_encode ht]
    simp
  fits := (overflow_eq_false_iff _).mpr (Nat.lt_of_le_of_lt (magnitude_encode_le ht) ht)
  le := Nat.le_trans (target_encode_le ht) hle

end PowConsensus.CompactTarget
