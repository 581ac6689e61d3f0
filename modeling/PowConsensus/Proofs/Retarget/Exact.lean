import PowConsensus.Proofs.Retarget.Blocks
import PowConsensus.Proofs.Retarget.Samples
import PowConsensus.Proofs.Retarget.Windows
import PowConsensus.Retarget.Checked

/-! # Algorithms without a fault

Dark Gravity Wave and DigiShield, in its own era, aim at spacings of their own, and read at most
twenty-four blocks. Every number they compute is a small multiple of those spacings or a difference
of times, so that checked arithmetic gives exactly their bits.
-/
namespace PowConsensus.Checked
variable {rules : RuleSet} {index : ChainIndex} {tip : ChainEntry}

theorem within_eq {low high : Int} (h : low ≤ high) (x : Int) :
    within low high x = .ok (clamp low high x) := if_pos h

theorem scaled_eq {expected : Int} (h : expected ≠ 0) (target : Nat) (elapsed : Int) :
    scaled rules target elapsed expected = .ok (rules.scaled target elapsed expected) := if_neg h

theorem ordinaryBits_eq {interval : Int} (hinterval : 0 < interval) (ceiling : CompactTarget)
    (fuel : Nat) (e : ChainEntry) : ordinaryBits index interval ceiling fuel e =
      .ok (PowConsensus.ordinaryBits index interval ceiling fuel e) := by
  induction fuel generalizing e with
  | zero =>
    rw [ordinaryBits, remainder_of_pos hinterval (isWord_toNat e.height)]
    rfl
  | succ fuel ih =>
    rw [ordinaryBits, remainder_of_pos hinterval (isWord_toNat e.height), ok_bind,
      PowConsensus.ordinaryBits]
    split
    · cases index e with
      | none => rfl
      | some parent => exact ih parent
    · rfl

namespace DigiShield
open PowConsensus.DigiShield (spacing spacing_bounds_of_select interval_of_spacing
  three_quarters_le requiredBits_of_start requiredBits_of_no_start)

theorem elapsed_eq {timespan : Int} (hpos : 0 < timespan) (hle : timespan ≤ 120)
    (first : ChainEntry) : elapsed tip first timespan =
      .ok (PowConsensus.DigiShield.elapsed tip first timespan) := by
  have hword : IsWord timespan := ⟨by omega, by omega⟩
  have hquarter : difference timespan (timespan.tdiv 4) = .ok (timespan - timespan.tdiv 4) := by
    apply word_eq
    rw [Int.tdiv_eq_ediv_of_nonneg (Int.le_of_lt hpos)]
    exact ⟨by omega, by omega⟩
  have hhalf : sum timespan (timespan.tdiv 2) = .ok (timespan + timespan.tdiv 2) := by
    apply word_eq
    rw [Int.tdiv_eq_ediv_of_nonneg (Int.le_of_lt hpos)]
    exact ⟨by omega, by omega⟩
  rw [elapsed, difference_toNat, ok_bind, quotient_of_pos (by decide) hword, ok_bind, hquarter,
    ok_bind, quotient_of_pos (by decide) hword, ok_bind, hhalf, ok_bind]
  exact within_eq (three_quarters_le (Int.le_of_lt hpos)) _

/-- In its own era DigiShield aims at spacings of its own. -/
theorem requiredBits_eq (hera : RetargetAlgorithm.select rules tip.nextHeight = .digiShield) :
    requiredBits index tip rules = .ok (PowConsensus.DigiShield.requiredBits index tip rules) := by
  obtain ⟨hpos, hle⟩ := spacing_bounds_of_select hera
  have hword : IsWord (spacing rules tip.nextHeight) := ⟨by omega, by omega⟩
  have hinterval : (spacing rules tip.nextHeight).tdiv (spacing rules tip.nextHeight) = 1 :=
    interval_of_spacing hpos
  have hlookback : lookback tip 1 = .ok (PowConsensus.DigiShield.lookback tip rules) := by
    rw [lookback, PowConsensus.DigiShield.lookback, interval_of_spacing hpos]
    split <;> rfl
  simp only [requiredBits]
  rw [quotient_of_pos hpos hword, ok_bind, hinterval,
    remainder_of_pos Int.one_pos (isWord_toNat tip.nextHeight), ok_bind, Int.tmod_one,
    if_neg (not_not_intro rfl), hlookback, ok_bind]
  cases hstart : windowStart? index tip (PowConsensus.DigiShield.lookback tip rules) with
  | none =>
    rw [requiredBits_of_no_start hpos hstart]
    rfl
  | some first =>
    dsimp only
    rw [requiredBits_of_start hpos hstart, elapsed_eq hpos hle, ok_bind]
    exact scaled_eq (Int.ne_of_gt hpos) _ _

end DigiShield

namespace DarkGravity
open PowConsensus.DarkGravity (Sample window spacing applies sample_count_pos sample_count_le)
variable {s : Sample}

/-- Each block read moves the clock of a sample by less than a 32-bit number of seconds. -/
structure Clocked (s : Sample) : Prop where
  lastTime : 0 ≤ s.lastTime ∧ s.lastTime < 2 ^ 32
  actual : -2 ^ 32 * s.count ≤ s.actual ∧ s.actual ≤ 2 ^ 32 * s.count

theorem Clocked.add (h : Clocked s) (e : ChainEntry) : Clocked (s.add e) := by
  obtain ⟨hlast, hactual⟩ := h
  have htime := e.time.toNat_lt
  refine ⟨⟨by simp only [Sample.add]; omega, by simp only [Sample.add]; omega⟩, ?_⟩
  simp only [Sample.add]
  split <;> omega

theorem add_eq (h : Clocked s) (hcount : s.count < 2 ^ 30) (e : ChainEntry) :
    add s e = .ok (s.add e) := by
  have hnext := (h.add e).actual
  obtain ⟨hlast, -⟩ := h
  have htime := e.time.toNat_lt
  simp only [Sample.add] at hnext
  unfold add seconds
  split
  · next hpos =>
    rw [if_pos hpos] at hnext
    have hgap : difference s.lastTime e.time.toNat = .ok (s.lastTime - e.time.toNat) :=
      word_eq ⟨by omega, by omega⟩
    have hsum : sum s.actual (s.lastTime - e.time.toNat) =
        .ok (s.actual + (s.lastTime - e.time.toNat)) := word_eq ⟨by omega, by omega⟩
    rw [hgap, ok_bind, hsum, Sample.add, if_pos hpos]
    rfl
  · next hpos =>
    rw [Sample.add, if_neg hpos]
    rfl

theorem gather_eq (h : Clocked s) {more : Nat} (hcount : s.count + more ≤ 2 ^ 30) (e : ChainEntry) :
    gather index more e s = .ok (PowConsensus.DarkGravity.gather index more e s) := by
  induction more generalizing e s with
  | zero => rfl
  | succ more ih =>
    rw [gather, PowConsensus.DarkGravity.gather]
    split
    · rfl
    · rw [add_eq h (by omega), ok_bind]
      cases index e with
      | none => rfl
      | some parent => exact ih (h.add e) (by simp only [Sample.add]; omega) parent

theorem bitsOfSample_eq (hpos : 0 < s.count) (hcount : s.count ≤ window) :
    bitsOfSample s rules = .ok (PowConsensus.DarkGravity.bitsOfSample s rules) := by
  obtain ⟨hpositive, hbound⟩ : 0 < s.count * spacing ∧ s.count * spacing ≤ 2880 := by
    simp only [spacing, window] at hcount ⊢
    omega
  have hword : IsWord (s.count * spacing) := ⟨by omega, by omega⟩
  have hexpected : product s.count spacing = .ok (s.count * spacing) := word_eq hword
  have hmost : product (s.count * spacing) 3 = .ok (s.count * spacing * 3) :=
    word_eq ⟨by omega, by omega⟩
  have hrange : (s.count * spacing).tdiv 3 ≤ s.count * spacing * 3 := by
    rw [Int.tdiv_eq_ediv_of_nonneg (by omega)]
    omega
  rw [bitsOfSample, hexpected, ok_bind, quotient_of_pos (by decide) hword, ok_bind, hmost, ok_bind,
    within_eq hrange, ok_bind]
  exact scaled_eq (by omega) _ _

theorem requiredBits_eq :
    requiredBits index tip rules = .ok (PowConsensus.DarkGravity.requiredBits index tip rules) := by
  unfold requiredBits PowConsensus.DarkGravity.requiredBits
  split
  · next happlies =>
    have hnone : Clocked .none := ⟨by decide, by decide⟩
    rw [gather_eq hnone (by decide) tip, ok_bind]
    exact bitsOfSample_eq (sample_count_pos happlies) (sample_count_le tip)
  · rfl

end DarkGravity

end PowConsensus.Checked
