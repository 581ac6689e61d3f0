import PowConsensus.Retarget.DarkGravity
import PowConsensus.Retarget.Kimoto

/-! # What the sampling loops preserve

Both loops take one block after the other into a sample, for as long as they may. A property that
survives one more block therefore holds of the sample in the end: the running average is below the
modulus, and the count of blocks and the seconds expected of them keep within bounds.
-/
namespace PowConsensus
variable {rules : RuleSet}

/-- Below the modulus a wrapped difference is the residue of the difference. -/
theorem wrapSub_eq_emod {a b : Nat} (ha : a < wordModulus) (hb : b < wordModulus) :
    (wrapSub a b : Int) = ((a : Int) - b) % 2 ^ 256 := by
  rw [wordModulus] at ha hb
  rw [wrapSub, wordModulus]
  split <;> omega

namespace Kimoto
variable {envelope : Envelope} {index : ChainIndex} {tip e : ChainEntry} {s : Sample}

theorem nextAverage_lt (s : Sample) (c : CompactTarget) :
    s.nextAverage c.target < wordModulus := by
  unfold Sample.nextAverage
  split
  · exact c.target_lt
  · exact wrapAdd_lt _ _

/-- What taking one more block preserves, with one block less left to take, holds at the end. -/
theorem gather_preserves {P : Nat → Sample → Prop}
    (hadd : ∀ left s e, P (left + 1) s → P left (s.add tip e rules.spacing)) {fuel : Nat}
    (h : P fuel s) : ∃ left, P left (gather envelope index tip rules fuel e s) := by
  induction fuel generalizing e s with
  | zero => exact ⟨0, h⟩
  | succ fuel ih =>
    have hnext : P fuel (s.add tip e rules.spacing) := hadd fuel s e h
    rw [gather]
    split
    · exact ⟨fuel + 1, h⟩
    split
    · exact ⟨fuel + 1, h⟩
    dsimp only
    split
    · exact ⟨fuel, hnext⟩
    cases index e with
    | none => exact ⟨fuel, hnext⟩
    | some parent => exact ih hnext

theorem gather_average_lt (h : s.average < wordModulus) (fuel : Nat) :
    (gather envelope index tip rules fuel e s).average < wordModulus := by
  obtain ⟨_, haverage⟩ := gather_preserves (P := fun _ s => s.average < wordModulus)
    (fun _ s e _ => nextAverage_lt s e.bits) h
  exact haverage

/-- A sample with one spacing expected for each block, and room in `blocks` for `left` more. -/
structure Sample.Timed (spacing : Int) (blocks left : Nat) (s : Sample) : Prop where
  mass_le : s.mass + left ≤ blocks
  expected_eq : s.expected = spacing * s.mass

theorem Sample.Timed.add {spacing : Int} {blocks left : Nat}
    (h : s.Timed spacing blocks (left + 1)) : (s.add tip e spacing).Timed spacing blocks left where
  mass_le := by
    have := h.mass_le
    simp only [Sample.add]
    omega
  expected_eq := rfl

theorem sample_timed : ∃ left,
    (sample envelope index tip rules).Timed rules.spacing tip.height.toNat left := by
  have hnone : Sample.none.Timed rules.spacing tip.height.toNat tip.height.toNat :=
    ⟨by simp [Sample.none], by simp [Sample.none]⟩
  exact gather_preserves (fun _ _ _ h => h.add) hnone

/-- The expected seconds of a sample fit a signed 64-bit word. -/
theorem Sample.Timed.expected_bounds {blocks left : Nat} (h : s.Timed rules.spacing blocks left)
    (hspacing : 0 < rules.spacing) (hbound : rules.spacing < 2 ^ 31) (hblocks : blocks < 2 ^ 32) :
    0 ≤ s.expected ∧ s.expected < 2 ^ 63 := by
  have hmass := h.mass_le
  rw [h.expected_eq]
  refine ⟨Int.mul_nonneg (by omega) (by omega), ?_⟩
  calc rules.spacing * s.mass ≤ (2 ^ 31 - 1) * s.mass :=
        Int.mul_le_mul_of_nonneg_right (by omega) (by omega)
    _ < 2 ^ 63 := by omega

/-- More blocks are never expected to take less time. -/
theorem expected_le_gather (hspacing : 0 ≤ rules.spacing) (hs : s.expected = rules.spacing * s.mass)
    (fuel : Nat) : s.expected ≤ (gather envelope index tip rules fuel e s).expected := by
  obtain ⟨_, hexpected, hmass⟩ : ∃ _ : Nat,
      (gather envelope index tip rules fuel e s).expected =
        rules.spacing * (gather envelope index tip rules fuel e s).mass ∧
      s.mass ≤ (gather envelope index tip rules fuel e s).mass :=
    gather_preserves (P := fun _ t => t.expected = rules.spacing * t.mass ∧ s.mass ≤ t.mass)
      (fun _ _ _ h => ⟨rfl, Nat.le_succ_of_le h.2⟩) ⟨hs, Nat.le_refl _⟩
  rw [hexpected, hs]
  exact Int.mul_le_mul_of_nonneg_left (Int.ofNat_le.mpr hmass) hspacing

end Kimoto

namespace DarkGravity
variable {index : ChainIndex} {e : ChainEntry} {s : Sample}

theorem nextAverage_lt (s : Sample) (c : CompactTarget) :
    s.nextAverage c.target < wordModulus := by
  unfold Sample.nextAverage
  split
  · exact c.target_lt
  · exact Nat.lt_of_le_of_lt (Nat.div_le_self _ _) (wrapAdd_lt _ _)

/-- What taking one more block preserves, with one block less left to take, holds at the end. -/
theorem gather_preserves {P : Nat → Sample → Prop}
    (hadd : ∀ left s e, P (left + 1) s → P left (s.add e)) {more : Nat} (h : P more s) :
    ∃ left, P left (gather index more e s) := by
  induction more generalizing e s with
  | zero => exact ⟨0, h⟩
  | succ more ih =>
    have hnext : P more (s.add e) := hadd more s e h
    rw [gather]
    split
    · exact ⟨more + 1, h⟩
    cases index e with
    | none => exact ⟨more, hnext⟩
    | some parent => exact ih hnext

theorem gather_average_lt (h : s.average < wordModulus) (more : Nat) :
    (gather index more e s).average < wordModulus := by
  obtain ⟨_, haverage⟩ := gather_preserves (P := fun _ s => s.average < wordModulus)
    (fun _ s e _ => nextAverage_lt s e.bits) h
  exact haverage

theorem sample_count_le (tip : ChainEntry) : (sample index tip).count ≤ 24 := by
  have hadd (left : Nat) (s : Sample) (e : ChainEntry) (h : s.count + (left + 1) ≤ 24) :
      (s.add e).count + left ≤ 24 := by
    simp only [Sample.add]
    omega
  have hnone : Sample.none.count + window ≤ 24 := by decide
  obtain ⟨left, hcount⟩ := gather_preserves (P := fun left s => s.count + left ≤ 24) hadd hnone
  exact Nat.le_trans (Nat.le_add_right _ left) hcount

end DarkGravity

end PowConsensus
