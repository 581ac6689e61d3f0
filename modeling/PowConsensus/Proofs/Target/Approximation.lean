import Mathlib.Order.Bounds.Defs
import PowConsensus.Proofs.Target.Order

/-! # The best lower approximation

Bits that set no flag denote numbers of at most twenty-three leading bits, followed by whole bytes
of zeros. Such a number is encoded without a loss. Since encoding keeps the order, any other word is
encoded as the greatest of these numbers below it, and what is lost is less than one part in
`2 ^ 15` of what is left.
-/
namespace PowConsensus.CompactTarget
variable {t v k : Nat}

/-- The numbers that some bits denote with neither flag set. -/
def representable : Set Nat :=
  {v | ∃ c : CompactTarget, c.decode.negative = false ∧ c.decode.overflow = false ∧ c.target = v}

theorem target_encode_mem_representable (ht : t < wordModulus) :
    (encode t).target ∈ representable := by
  have hwithin := encode_within ht (Nat.le_refl t)
  exact ⟨encode t, hwithin.nonnegative, hwithin.fits, rfl⟩

/-- Sizes below three bytes denote a part of the mantissa, which takes three bytes at most. -/
theorem magnitude_shape (c : CompactTarget) :
    c.magnitude * 256 ^ 3 < 2 ^ 23 * 256 ^ max c.size 3 ∧
      256 ^ max c.size 3 ∣ c.magnitude * 256 ^ 3 := by
  have hm := c.mantissa_lt
  by_cases hs : c.size ≤ 3
  · have hle := Nat.div_le_self c.mantissa (256 ^ (3 - c.size))
    rw [magnitude_of_size_le hs, Nat.max_eq_right hs]
    exact ⟨Nat.mul_lt_mul_of_pos_right (by omega) (by decide), Nat.dvd_mul_left _ _⟩
  · have hpow : 256 ^ (c.size - 3) * 256 ^ 3 = 256 ^ c.size := by
      rw [← Nat.pow_add, Nat.sub_add_cancel (by omega)]
    rw [magnitude_of_le_size (by omega), Nat.max_eq_left (by omega), Nat.mul_assoc, hpow]
    exact ⟨Nat.mul_lt_mul_of_pos_right hm (Nat.pow_pos (by decide)), Nat.dvd_mul_left _ _⟩

theorem encodedSize_le_of_lt (h0 : v ≠ 0) (h : v * 256 ^ 3 < 2 ^ 23 * 256 ^ k) :
    encodedSize v ≤ k := by
  refine Nat.le_of_not_lt fun hlt => ?_
  have hstep : 256 ^ (k + 1) ≤ 256 ^ encodedSize v := Nat.pow_le_pow_right (by decide) hlt
  have hlow := (encodedSize_bounds h0).1
  rw [Nat.pow_succ] at hstep
  omega

theorem target_encode_of_dvd (h0 : v ≠ 0) (hv : v < wordModulus)
    (h : 256 ^ encodedSize v ∣ v * 256 ^ 3) : (encode v).target = v := by
  rw [target_encode h0 hv, encodedMantissa, Nat.div_mul_cancel h,
    Nat.mul_div_cancel v (by decide)]

theorem target_encode_of_representable (h : v ∈ representable) : (encode v).target = v := by
  obtain ⟨c, -, hfits, rfl⟩ := h
  by_cases h0 : c.target = 0
  · rw [h0]
    decide
  · have hlt := (overflow_eq_false_iff c).mp hfits
    rw [target_eq_magnitude hlt] at h0 ⊢
    obtain ⟨hshort, hdvd⟩ := c.magnitude_shape
    have hsize := encodedSize_le_of_lt h0 hshort
    exact target_encode_of_dvd h0 hlt (Nat.dvd_trans (Nat.pow_dvd_pow 256 hsize) hdvd)

theorem isGreatest_target_encode (ht : t < wordModulus) :
    IsGreatest {v | v ∈ representable ∧ v ≤ t} (encode t).target := by
  refine ⟨⟨target_encode_mem_representable ht, target_encode_le ht⟩, ?_⟩
  rintro v ⟨hv, hle⟩
  calc v = (encode v).target := (target_encode_of_representable hv).symm
    _ ≤ (encode t).target := (encode_atMost hle ht).target_le

/-- A loss is less than a unit of the last byte kept, and the mantissa counts `2 ^ 15` of them. -/
theorem loss_lt (h0 : t ≠ 0) (ht : t < wordModulus) :
    (t - (encode t).target) * 2 ^ 15 < (encode t).target := by
  by_cases hs : encodedSize t ≤ 3
  · rw [target_encode_of_size_le h0 ht hs]
    omega
  · have hexact := target_encode_mul h0 ht (by omega)
    have hdivision := Nat.div_add_mod' (t * 256 ^ 3) (256 ^ encodedSize t)
    have hrest : t * 256 ^ 3 % 256 ^ encodedSize t < 256 ^ encodedSize t :=
      Nat.mod_lt _ (Nat.pow_pos (by decide))
    have hloss : (t - (encode t).target) * 256 ^ 3 < 256 ^ encodedSize t := by
      rw [← encodedMantissa, ← hexact] at hdivision
      rw [Nat.sub_mul]
      omega
    apply Nat.lt_of_mul_lt_mul_right (a := 256 ^ 3)
    calc (t - (encode t).target) * 2 ^ 15 * 256 ^ 3
        = 2 ^ 15 * ((t - (encode t).target) * 256 ^ 3) := by
          rw [Nat.mul_comm _ (2 ^ 15), Nat.mul_assoc]
      _ < 2 ^ 15 * 256 ^ encodedSize t := Nat.mul_lt_mul_of_pos_left hloss (by decide)
      _ ≤ encodedMantissa t * 256 ^ encodedSize t :=
          Nat.mul_le_mul_right _ (le_encodedMantissa h0)
      _ = (encode t).target * 256 ^ 3 := hexact.symm

/-- Encoding a word sets no flag and gives the greatest number not above it that any bits denote
without a flag. So it never rounds up, it is exact where it can be, and elsewhere it loses less than
one part in `2 ^ 15`. -/
theorem encode_is_best_lower_approximation (t : Nat) (ht : t < 2 ^ 256) :
    (encode t).decode.negative = false ∧ (encode t).decode.overflow = false ∧
      IsGreatest {v | v ∈ representable ∧ v ≤ t} (encode t).target ∧
      (encode t).target ≤ t ∧
      (t ∈ representable → (encode t).target = t) ∧
      ((encode t).target ≠ t → (t - (encode t).target) * 2 ^ 15 < (encode t).target) := by
  have hwithin := encode_within ht (Nat.le_refl t)
  refine ⟨hwithin.nonnegative, hwithin.fits, isGreatest_target_encode ht, hwithin.le,
    target_encode_of_representable, fun hinexact => loss_lt ?_ ht⟩
  -- Zero is encoded as itself.
  rintro rfl
  exact hinexact rfl

/-- The greatest word keeps two bytes of ones, since a third would set the sign bit. -/
theorem encode_is_best_lower_approximation_at_greatest_word :
    let t := 2 ^ 256 - 1
    encode t = ⟨0x2100ffff⟩ ∧
      IsGreatest {v | v ∈ representable ∧ v ≤ t} (0xffff * 256 ^ 30) ∧
      (t - 0xffff * 256 ^ 30) * 2 ^ 15 < 0xffff * 256 ^ 30 := by
  intro t
  have hencode : encode t = ⟨0x2100ffff⟩ := by decide
  have htarget : (encode t).target = 0xffff * 256 ^ 30 := by decide
  obtain ⟨-, -, hgreatest, -, -, hloss⟩ := encode_is_best_lower_approximation t (by decide)
  rw [htarget] at hgreatest hloss
  exact ⟨hencode, hgreatest, hloss (by decide)⟩

end PowConsensus.CompactTarget
