import PowConsensus.Proofs.Target.Encoding

/-! # The order of targets and of their bits

The size byte of an encoded target says between which powers of 256 the target lies, and the
intervals of one size after the other do not overlap. Hence encoding keeps the order, that of the
bits read as numbers and that of the targets they denote, and what encoded bits denote is encoded
as the same bits again.
-/
namespace PowConsensus.CompactTarget
variable {t u m n s k : Nat}

theorem le_encodedMantissa (h : t ≠ 0) : 2 ^ 15 ≤ encodedMantissa t := by
  have hword := le_leadingWord h
  by_cases hw : leadingWord t < 2 ^ 23
  · rw [encodedMantissa_of_lt hw]
    omega
  · rw [encodedMantissa_of_ge hw]
    omega

/-- Where a target lies that is encoded with a given size byte. -/
theorem encodedSize_bounds (h : t ≠ 0) :
    2 ^ 15 * 256 ^ encodedSize t ≤ t * 256 ^ 3 ∧ t * 256 ^ 3 < 2 ^ 23 * 256 ^ encodedSize t := by
  have hpos : 0 < 256 ^ encodedSize t := Nat.pow_pos (by decide)
  have hlow := le_encodedMantissa h
  have hhigh := encodedMantissa_lt h
  rw [encodedMantissa, Nat.le_div_iff_mul_le hpos] at hlow
  rw [encodedMantissa, Nat.div_lt_iff_lt_mul hpos] at hhigh
  exact ⟨hlow, hhigh⟩

/-- Mantissas of one size stay below those of the next. -/
theorem mul_pow_lt_of_size_lt (hm : m < 2 ^ 23) (hn : 2 ^ 15 ≤ n) (h : s < k) :
    m * 256 ^ s < n * 256 ^ k :=
  calc m * 256 ^ s < 2 ^ 23 * 256 ^ s := Nat.mul_lt_mul_of_pos_right hm (Nat.pow_pos (by decide))
    _ = 2 ^ 15 * 256 ^ (s + 1) := by rw [Nat.pow_succ]; omega
    _ ≤ n * 256 ^ k := Nat.mul_le_mul hn (Nat.pow_le_pow_right (by decide) h)

theorem encodedSize_mono (h0 : t ≠ 0) (h : t ≤ u) : encodedSize t ≤ encodedSize u := by
  refine Nat.le_of_not_lt fun hlt => ?_
  have hu : u ≠ 0 := by omega
  have hstep : 256 ^ (encodedSize u + 1) ≤ 256 ^ encodedSize t :=
    Nat.pow_le_pow_right (by decide) hlt
  have ht := (encodedSize_bounds h0).1
  have hbound := (encodedSize_bounds hu).2
  rw [Nat.pow_succ] at hstep
  omega

/-- The interval that a target lies in determines the size byte. -/
theorem encodedSize_eq (hlow : 2 ^ 15 * 256 ^ s ≤ t * 256 ^ 3)
    (hhigh : t * 256 ^ 3 < 2 ^ 23 * 256 ^ s) : encodedSize t = s := by
  have hpos : 0 < 256 ^ s := Nat.pow_pos (by decide)
  have h0 : t ≠ 0 := by
    rintro rfl
    omega
  obtain ⟨hlow', hhigh'⟩ := encodedSize_bounds h0
  rcases Nat.lt_trichotomy (encodedSize t) s with hlt | heq | hgt
  · have hstep : 256 ^ (encodedSize t + 1) ≤ 256 ^ s := Nat.pow_le_pow_right (by decide) hlt
    rw [Nat.pow_succ] at hstep
    omega
  · exact heq
  · have hstep : 256 ^ (s + 1) ≤ 256 ^ encodedSize t := Nat.pow_le_pow_right (by decide) hgt
    rw [Nat.pow_succ] at hstep
    omega

theorem magnitude_encode (h0 : t ≠ 0) (ht : t < wordModulus) :
    (encode t).magnitude = encodedMantissa t * 256 ^ encodedSize t / 256 ^ 3 := by
  rw [magnitude, mantissa_encode h0 ht, size_encode h0 ht]

theorem target_encode (h0 : t ≠ 0) (ht : t < wordModulus) :
    (encode t).target = encodedMantissa t * 256 ^ encodedSize t / 256 ^ 3 := by
  rw [target_eq_magnitude (Nat.lt_of_le_of_lt (magnitude_encode_le ht) ht), magnitude_encode h0 ht]

/-- At most as large, both as a target and as bits read as a number. -/
structure AtMost (c d : CompactTarget) : Prop where
  target_le : c.target ≤ d.target
  bits_le : c.bits ≤ d.bits

theorem encode_atMost (h : t ≤ u) (hu : u < wordModulus) : (encode t).AtMost (encode u) := by
  have ht : t < wordModulus := Nat.lt_of_le_of_lt h hu
  by_cases h0 : t = 0
  · subst h0
    exact ⟨Nat.zero_le _, UInt32.le_iff_toNat_le.mpr (Nat.zero_le _)⟩
  have hu0 : u ≠ 0 := by omega
  have hmt := encodedMantissa_lt h0
  have hmu := le_encodedMantissa hu0
  rcases Nat.lt_or_eq_of_le (encodedSize_mono h0 h) with hlt | heq
  · constructor
    · rw [target_encode h0 ht, target_encode hu0 hu]
      exact Nat.div_le_div_right (Nat.le_of_lt (mul_pow_lt_of_size_lt hmt hmu hlt))
    · rw [UInt32.le_iff_toNat_le, bits_encode h0 ht, bits_encode hu0 hu]
      omega
  · have hmantissa : encodedMantissa t ≤ encodedMantissa u := by
      rw [encodedMantissa, encodedMantissa, heq]
      exact Nat.div_le_div_right (Nat.mul_le_mul_right _ h)
    constructor
    · rw [target_encode h0 ht, target_encode hu0 hu, heq]
      exact Nat.div_le_div_right (Nat.mul_le_mul_right _ hmantissa)
    · rw [UInt32.le_iff_toNat_le, bits_encode h0 ht, bits_encode hu0 hu, heq]
      omega

theorem target_encode_pos (h0 : t ≠ 0) (ht : t < wordModulus) : 0 < (encode t).target := by
  have hone : (encode 1).target = 1 := by decide
  have hle := (encode_atMost (Nat.one_le_iff_ne_zero.mpr h0) ht).target_le
  omega

/-- What fits the three bytes of the mantissa is encoded without a loss. -/
theorem target_encode_of_size_le (h0 : t ≠ 0) (ht : t < wordModulus) (h : encodedSize t ≤ 3) :
    (encode t).target = t := by
  have hexact : encodedMantissa t * 256 ^ encodedSize t = t * 256 ^ 3 :=
    Nat.div_mul_cancel (Nat.dvd_trans (Nat.pow_dvd_pow 256 h) (Nat.dvd_mul_left _ _))
  rw [target_encode h0 ht, hexact, Nat.mul_div_cancel t (by decide)]

theorem target_encode_mul (h0 : t ≠ 0) (ht : t < wordModulus) (h : 3 ≤ encodedSize t) :
    (encode t).target * 256 ^ 3 = encodedMantissa t * 256 ^ encodedSize t := by
  have hdvd : 256 ^ 3 ∣ 256 ^ encodedSize t := Nat.pow_dvd_pow 256 h
  rw [target_encode h0 ht]
  exact Nat.div_mul_cancel (Nat.dvd_trans hdvd (Nat.dvd_mul_left _ _))

/-- What encoded bits denote is encoded as these bits. -/
theorem encode_target_encode (ht : t < wordModulus) : encode (encode t).target = encode t := by
  by_cases h0 : t = 0
  · subst h0
    decide
  by_cases hs : encodedSize t ≤ 3
  · rw [target_encode_of_size_le h0 ht hs]
  · have hexact := target_encode_mul h0 ht (by omega)
    have hpos : 0 < 256 ^ encodedSize t := Nat.pow_pos (by decide)
    have hsize : encodedSize (encode t).target = encodedSize t := by
      apply encodedSize_eq
      · rw [hexact]
        exact Nat.mul_le_mul_right _ (le_encodedMantissa h0)
      · rw [hexact]
        exact Nat.mul_lt_mul_of_pos_right (encodedMantissa_lt h0) hpos
    have hmantissa : encodedMantissa (encode t).target = encodedMantissa t := by
      rw [encodedMantissa, hsize, hexact, Nat.mul_div_cancel _ hpos]
    have hne : (encode t).target ≠ 0 := Nat.ne_of_gt (target_encode_pos h0 ht)
    rw [encode_eq hne, hsize, hmantissa, encode_eq h0]

/-- Targets from a decoded limit up to the limit itself are encoded alike. -/
theorem encode_eq_encode_iff (h : t ≤ u) (hu : u < wordModulus) :
    encode t = encode u ↔ (encode u).target ≤ t := by
  constructor
  · intro heq
    rw [← heq]
    exact target_encode_le (Nat.lt_of_le_of_lt h hu)
  · intro hle
    have hlow := (encode_atMost hle (Nat.lt_of_le_of_lt h hu)).bits_le
    have hhigh := (encode_atMost h hu).bits_le
    rw [encode_target_encode hu] at hlow
    exact congrArg CompactTarget.mk (UInt32.le_antisymm hhigh hlow)

end PowConsensus.CompactTarget
