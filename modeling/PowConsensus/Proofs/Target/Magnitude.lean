import PowConsensus.Target.Compact

/-! # Decoding against the exact magnitude

`magnitude` is the number that compact bits denote, of any size. Decoding keeps it modulo
`2 ^ 256`, and the overflow flag, which is computed from thresholds on the size byte and the
mantissa alone, is set exactly when that loses something.
-/
namespace PowConsensus

theorem mul_pow_div_pow_of_le (x : Nat) {s k : Nat} (h : s ≤ k) :
    x * 256 ^ s / 256 ^ k = x / 256 ^ (k - s) := by
  obtain ⟨d, rfl⟩ := Nat.exists_eq_add_of_le h
  rw [Nat.add_sub_cancel_left, Nat.pow_add, Nat.mul_comm x,
    Nat.mul_div_mul_left _ _ (Nat.pow_pos (by decide))]

theorem mul_pow_div_pow_of_ge (x : Nat) {s k : Nat} (h : k ≤ s) :
    x * 256 ^ s / 256 ^ k = x * 256 ^ (s - k) := by
  obtain ⟨d, rfl⟩ := Nat.exists_eq_add_of_le h
  rw [Nat.add_sub_cancel_left, Nat.pow_add, Nat.mul_left_comm,
    Nat.mul_div_cancel_left _ (Nat.pow_pos (by decide))]

namespace CompactTarget
variable {c : CompactTarget}

theorem magnitude_of_size_le (h : c.size ≤ 3) :
    c.magnitude = c.mantissa / 256 ^ (3 - c.size) := mul_pow_div_pow_of_le _ h

theorem magnitude_of_le_size (h : 3 ≤ c.size) :
    c.magnitude = c.mantissa * 256 ^ (c.size - 3) := mul_pow_div_pow_of_ge _ h

/-- Up to thirty-two bytes no mantissa is too large. -/
theorem magnitude_lt_of_size_le (h : c.size ≤ 32) : c.magnitude < wordModulus := by
  have hm := c.mantissa_lt
  by_cases hs : c.size ≤ 3
  · rw [magnitude_of_size_le hs]
    have := Nat.div_le_self c.mantissa (256 ^ (3 - c.size))
    simp only [wordModulus]
    omega
  · rw [magnitude_of_le_size (by omega)]
    calc c.mantissa * 256 ^ (c.size - 3) ≤ 2 ^ 23 * 256 ^ 29 :=
          Nat.mul_le_mul (Nat.le_of_lt hm) (Nat.pow_le_pow_right (by decide) (by omega))
      _ < wordModulus := by decide

theorem decode_value (c : CompactTarget) : c.decode.value = c.magnitude % wordModulus := by
  by_cases hs : c.size ≤ 3
  · rw [Nat.mod_eq_of_lt (magnitude_lt_of_size_le (by omega)), magnitude_of_size_le hs]
    exact if_pos hs
  · rw [magnitude_of_le_size (by omega)]
    exact if_neg hs

theorem overflow_iff (c : CompactTarget) :
    c.decode.overflow = true ↔ wordModulus ≤ c.magnitude := by
  have hm := c.mantissa_lt
  simp only [decode, decide_eq_true_eq]
  by_cases h32 : c.size ≤ 32
  · have := magnitude_lt_of_size_le h32
    omega
  rw [magnitude_of_le_size (by omega)]
  -- One byte more in the size leaves one byte less for the mantissa.
  obtain h33 | h34 | h35 : c.size = 33 ∨ c.size = 34 ∨ 35 ≤ c.size := by omega
  · rw [h33]
    simp only [wordModulus]
    omega
  · rw [h34]
    simp only [wordModulus]
    omega
  · have hpow : 256 ^ 32 ≤ 256 ^ (c.size - 3) := Nat.pow_le_pow_right (by decide) (by omega)
    by_cases h0 : c.mantissa = 0
    · simp [h0]
    · have hle := Nat.mul_le_mul (Nat.one_le_iff_ne_zero.mpr h0) hpow
      refine ⟨fun _ => by simpa [wordModulus] using hle, fun _ => ⟨h0, Or.inl (by omega)⟩⟩

theorem overflow_eq_false_iff (c : CompactTarget) :
    c.decode.overflow = false ↔ c.magnitude < wordModulus := by
  rw [← Bool.not_eq_true, overflow_iff, Nat.not_le]

theorem target_eq_magnitude (h : c.magnitude < wordModulus) : c.target = c.magnitude := by
  rw [target, decode_value, Nat.mod_eq_of_lt h]

theorem negative_iff (c : CompactTarget) :
    c.decode.negative = true ↔ c.mantissa ≠ 0 ∧ c.signBit = true := decide_eq_true_iff

theorem mantissa_ne_zero_of_magnitude (h : c.magnitude ≠ 0) : c.mantissa ≠ 0 := by
  intro h0
  exact h (by simp [magnitude, h0])

end CompactTarget
end PowConsensus
