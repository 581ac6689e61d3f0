import PowConsensus.Proofs.Target.Order

/-! # Canonical bits

One target has many encodings: a mantissa can be shifted against the size byte, a size below three
drops bytes of the mantissa, and a large one wraps. The bits that encoding gives are those without
a flag whose mantissa begins at its first or second byte and ends where the number ends. On them the
order of the bits is the order of the targets.
-/
namespace PowConsensus.CompactTarget
variable {c d : CompactTarget} {t : Nat}

/-- No sign and no overflow, a mantissa that makes use of its leading digits, and zeros in the bytes
of it that a size below three drops. -/
structure Normalized (c : CompactTarget) : Prop where
  positive : c.signBit = false
  fits : c.decode.overflow = false
  leading : 0x8000 ≤ c.mantissa
  whole : c.size < 3 → c.mantissa % 2 ^ (8 * (3 - c.size)) = 0

theorem normalized_encode (h0 : t ≠ 0) (ht : t < wordModulus) : (encode t).Normalized where
  positive := signBit_encode ht
  fits := (encode_within ht (Nat.le_refl t)).fits
  leading := by
    rw [mantissa_encode h0 ht]
    exact le_encodedMantissa h0
  whole hs := by
    rw [size_encode h0 ht] at hs ⊢
    rw [mantissa_encode h0 ht, encodedMantissa, mul_pow_div_pow_of_ge t (Nat.le_of_lt hs),
      Nat.pow_mul]
    exact Nat.mul_mod_left _ _

theorem toNat_bits (h : c.signBit = false) : c.bits.toNat = c.mantissa + c.size * 2 ^ 24 := by
  have hbit : c.bits.toNat / 2 ^ 23 % 2 ≠ 1 := ne_of_beq_false h
  unfold mantissa size
  omega

/-- Nothing of the mantissa is dropped. -/
theorem Normalized.magnitude_mul (h : c.Normalized) :
    c.magnitude * 256 ^ 3 = c.mantissa * 256 ^ c.size := by
  apply Nat.div_mul_cancel
  by_cases hs : c.size < 3
  · have hzeros : 256 ^ (3 - c.size) ∣ c.mantissa := by
      have hwhole := h.whole hs
      rw [Nat.pow_mul] at hwhole
      exact Nat.dvd_of_mod_eq_zero hwhole
    calc 256 ^ 3 = 256 ^ (3 - c.size) * 256 ^ c.size := by
          rw [← Nat.pow_add, Nat.sub_add_cancel (Nat.le_of_lt hs)]
      _ ∣ c.mantissa * 256 ^ c.size := Nat.mul_dvd_mul_right hzeros _
  · exact Nat.dvd_mul_left_of_dvd (Nat.pow_dvd_pow 256 (Nat.le_of_not_lt hs)) _

theorem Normalized.encode_target (h : c.Normalized) : encode c.target = c := by
  have hword : c.target = c.magnitude :=
    target_eq_magnitude ((overflow_eq_false_iff c).mp h.fits)
  have hexact : c.target * 256 ^ 3 = c.mantissa * 256 ^ c.size := hword ▸ h.magnitude_mul
  have hpos : 0 < 256 ^ c.size := Nat.pow_pos (by decide)
  have hsize : encodedSize c.target = c.size := by
    apply encodedSize_eq
    · rw [hexact]
      exact Nat.mul_le_mul_right _ h.leading
    · rw [hexact]
      exact Nat.mul_lt_mul_of_pos_right c.mantissa_lt hpos
  have hmantissa : encodedMantissa c.target = c.mantissa := by
    rw [encodedMantissa, hsize, hexact, Nat.mul_div_cancel _ hpos]
  have hne : c.target ≠ 0 := by
    intro h0
    have hprod : 0 < c.mantissa * 256 ^ c.size :=
      Nat.mul_pos (Nat.lt_of_lt_of_le (by decide) h.leading) hpos
    rw [← hexact, h0, Nat.zero_mul] at hprod
    exact Nat.lt_irrefl 0 hprod
  rw [encode_eq hne, hsize, hmantissa, ← toNat_bits h.positive, UInt32.ofNat_toNat]

theorem encode_target_eq_self_iff (c : CompactTarget) :
    encode c.target = c ↔ c.bits = 0 ∨ c.Normalized := by
  constructor
  · intro h
    by_cases h0 : c.target = 0
    · left
      rw [← h, h0]
      rfl
    · right
      rw [← h]
      exact normalized_encode h0 c.target_lt
  · rintro (h0 | h)
    · have hc : c = ⟨0⟩ := congrArg CompactTarget.mk h0
      rw [hc]
      decide
    · exact h.encode_target

/-- Where bits are what their targets are encoded as, they compare as the targets do. -/
theorem bits_le_iff_target_le (hc : encode c.target = c) (hd : encode d.target = d) :
    c.bits ≤ d.bits ↔ c.target ≤ d.target := by
  constructor
  · intro hbits
    refine Nat.le_of_not_lt fun hlt => ?_
    have hback := (encode_atMost (Nat.le_of_lt hlt) c.target_lt).bits_le
    rw [hc, hd] at hback
    have hsame : c = d := congrArg CompactTarget.mk (UInt32.le_antisymm hbits hback)
    rw [hsame] at hlt
    exact Nat.lt_irrefl _ hlt
  · intro h
    have hbits := (encode_atMost h d.target_lt).bits_le
    rwa [hc, hd] at hbits

/-- Bits are what their target is encoded as if they are zero, or if no flag is set, the mantissa is
at least `0x8000`, and a size below three drops only zeros. Encoding a second time changes nothing.
A larger target never has smaller bits, so bits of this form, read as numbers, are in the order of
their targets. -/
theorem canonical_bits_are_in_order_of_targets :
    (∀ c : CompactTarget, encode c.target = c ↔
      c.bits = 0 ∨ (c.signBit = false ∧ c.decode.overflow = false ∧ 0x8000 ≤ c.mantissa ∧
        (c.size < 3 → c.mantissa % 2 ^ (8 * (3 - c.size)) = 0))) ∧
    (∀ c : CompactTarget, encode (encode c.target).target = encode c.target) ∧
    (∀ t u : Nat, t ≤ u → u < 2 ^ 256 → (encode t).bits ≤ (encode u).bits) ∧
    ∀ c d : CompactTarget, encode c.target = c → encode d.target = d →
      (c.bits ≤ d.bits ↔ c.target ≤ d.target) := by
  refine ⟨fun c => ?_, fun c => encode_target_encode c.target_lt,
    fun t u h hu => (encode_atMost h hu).bits_le, fun c d => bits_le_iff_target_le⟩
  rw [encode_target_eq_self_iff]
  constructor
  · exact Or.imp_right fun h => ⟨h.positive, h.fits, h.leading, h.whole⟩
  · exact Or.imp_right fun ⟨hpositive, hfits, hleading, hwhole⟩ =>
      ⟨hpositive, hfits, hleading, hwhole⟩

/-- The target `0x80` has to move its byte out of the sign bit, and is the next one after `0x7f`,
which has not; the bits with the byte left in the sign bit are those of zero. -/
theorem canonical_bits_are_in_order_of_targets_at_sign_bit :
    let c : CompactTarget := ⟨0x017f0000⟩
    let d : CompactTarget := ⟨0x02008000⟩
    encode c.target = c ∧ encode d.target = d ∧ (c.bits ≤ d.bits ↔ c.target ≤ d.target) ∧
      (encode 0x7f).bits ≤ (encode 0x80).bits ∧
      encode (encode (⟨0x01800000⟩ : CompactTarget).target).target = ⟨0⟩ := by
  intro c d
  obtain ⟨hcanonical, hidempotent, hmono, horder⟩ := canonical_bits_are_in_order_of_targets
  have hc : encode c.target = c := (hcanonical c).mpr (by decide)
  have hd : encode d.target = d := (hcanonical d).mpr (by decide)
  exact ⟨hc, hd, horder c d hc hd, hmono _ _ (by decide) (by decide),
    (hidempotent ⟨0x01800000⟩).trans (by decide)⟩

end PowConsensus.CompactTarget
