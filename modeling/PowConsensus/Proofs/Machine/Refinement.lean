import PowConsensus.Network.Rules
import PowConsensus.Proofs.Machine.Retarget
import PowConsensus.Proofs.Retarget.History
import PowConsensus.Proofs.Retarget.Samples

/-! # Numbers and machine words require the same bits

The running averages wrap, but they wrap alike: at every step of a sampling loop the average on
numbers is the value of the average on words. Quotients and comparisons do not commute with
wrapping, but they are only taken of averages and decoded targets, which are below the modulus.
-/
namespace PowConsensus
variable {rules : RuleSet}

theorem DigiShield.spacing_lt (h : rules.spacing < 2 ^ 31) (next : UInt32) :
    spacing rules next < 2 ^ 31 := by
  unfold spacing
  split
  · decide
  · split
    · decide
    · exact h

namespace Machine

section Sampling
variable {envelope : PowConsensus.Kimoto.Envelope} {index : ChainIndex} {tip e : ChainEntry}

theorem Kimoto.Sample.numeric_nextAverage {s : Kimoto.Sample} (h : s.mass + 1 < 2 ^ 64)
    (c : CompactTarget) : (s.nextAverage (target c)).toNat = s.numeric.nextAverage c.target := by
  simp only [nextAverage, PowConsensus.Kimoto.Sample.nextAverage]
  by_cases h0 : s.mass = 0
  · rw [if_pos h0, if_pos h0, toNat_target]
  · have hcount : ((s.mass : Int) + 1).toNat = s.mass + 1 := by omega
    rw [if_neg h0, if_neg h0, BitVec.toNat_add, BitVec.toNat_udiv, toNat_sub, toNat_target,
      toNat_divisor (by omega) (by omega), hcount]
    rfl

theorem Kimoto.Sample.numeric_add {s : Kimoto.Sample} (h : s.mass + 1 < 2 ^ 64) (spacing : Int) :
    (s.add tip e spacing).numeric = s.numeric.add tip e spacing := by
  have haverage := numeric_nextAverage h e.bits
  simp only [numeric, add, PowConsensus.Kimoto.Sample.add] at haverage ⊢
  rw [haverage]

/-- The loops on words and on numbers go through the same samples. -/
theorem Kimoto.numeric_gather (fuel : Nat) {s : Kimoto.Sample} (h : s.mass + fuel < 2 ^ 64) :
    (gather envelope index tip rules fuel e s).numeric =
      PowConsensus.Kimoto.gather envelope index tip rules fuel e s.numeric := by
  induction fuel generalizing e s with
  | zero => rfl
  | succ fuel ih =>
    have hadd : (s.add tip e rules.spacing).numeric = s.numeric.add tip e rules.spacing :=
      Sample.numeric_add (by omega) rules.spacing
    have hmass : (s.add tip e rules.spacing).mass + fuel < 2 ^ 64 := by
      simp only [Sample.add]
      omega
    rw [gather, PowConsensus.Kimoto.gather, ← hadd]
    by_cases hground : e.height = 0
    · rw [if_pos hground, if_pos hground]
    rw [if_neg hground, if_neg hground]
    simp only [Sample.numeric]
    split
    · rfl
    split
    · rfl
    cases index e with
    | none => rfl
    | some parent => exact ih hmass

theorem DarkGravity.Sample.numeric_nextAverage {s : DarkGravity.Sample}
    (h : s.count + 2 < 2 ^ 32) (c : CompactTarget) :
    (s.nextAverage (target c)).toNat = s.numeric.nextAverage c.target := by
  simp only [nextAverage, PowConsensus.DarkGravity.Sample.nextAverage]
  by_cases h0 : s.count = 0
  · rw [if_pos h0, if_pos h0, toNat_target]
  · have hweight : (((s.count : Int) + 1) % 2 ^ 32).toNat = s.count + 1 := by omega
    have hcount : ((s.count : Int) + 2).toNat = s.count + 2 := by omega
    rw [if_neg h0, if_neg h0, BitVec.toNat_udiv, BitVec.toNat_add, BitVec.toNat_mul,
      toNat_multiplier, toNat_target, toNat_divisor (by omega) (by omega), hweight, hcount]
    rfl

theorem DarkGravity.Sample.numeric_add {s : DarkGravity.Sample} (h : s.count + 2 < 2 ^ 32) :
    (s.add e).numeric = s.numeric.add e := by
  have haverage := numeric_nextAverage h e.bits
  simp only [numeric, add, PowConsensus.DarkGravity.Sample.add] at haverage ⊢
  rw [haverage]

theorem DarkGravity.numeric_gather (more : Nat) {s : DarkGravity.Sample}
    (h : s.count + more + 1 < 2 ^ 32) :
    (gather index more e s).numeric = PowConsensus.DarkGravity.gather index more e s.numeric := by
  induction more generalizing e s with
  | zero => rfl
  | succ more ih =>
    have hadd : (s.add e).numeric = s.numeric.add e := Sample.numeric_add (by omega)
    have hcount : (s.add e).count + more + 1 < 2 ^ 32 := by
      simp only [Sample.add]
      omega
    rw [gather, PowConsensus.DarkGravity.gather, ← hadd]
    split
    · rfl
    cases index e with
    | none => rfl
    | some parent => exact ih hcount

end Sampling

section Bits
variable (hlimit : rules.workLimit < 2 ^ 256)
variable {envelope : PowConsensus.Kimoto.Envelope} {index : ChainIndex} {tip : ChainEntry}
include hlimit

theorem DarkGravity.requiredBits_eq :
    requiredBits index tip rules = PowConsensus.DarkGravity.requiredBits index tip rules := by
  have hsample : (sample index tip).numeric = PowConsensus.DarkGravity.sample index tip :=
    numeric_gather _ (by decide)
  have hcount : (PowConsensus.DarkGravity.sample index tip).count ≤ 24 :=
    PowConsensus.DarkGravity.sample_count_le tip
  rw [← hsample] at hcount
  dsimp only at hcount
  have hwindow : ((sample index tip).count : Int) * PowConsensus.DarkGravity.spacing < 2 ^ 64 := by
    unfold PowConsensus.DarkGravity.spacing
    omega
  have hnonneg : 0 ≤ ((sample index tip).count : Int) * PowConsensus.DarkGravity.spacing :=
    Int.mul_nonneg (by omega) (by decide)
  rw [requiredBits, PowConsensus.DarkGravity.requiredBits, encode_limit hlimit, ← hsample]
  split
  · exact scaled_eq hlimit _ _ hnonneg hwindow
  · rfl

theorem Kimoto.bitsOfSample_eq {s : Kimoto.Sample} (h0 : 0 ≤ s.expected)
    (h : s.expected < 2 ^ 63) :
    bitsOfSample s rules = PowConsensus.Kimoto.bitsOfSample s.numeric rules := by
  unfold bitsOfSample PowConsensus.Kimoto.bitsOfSample
  split
  · exact scaled_eq hlimit s.average s.actual h0 (by omega)
  · exact cap_eq hlimit s.average

section Spacing
variable (hspacing : 0 < rules.spacing)
include hspacing

theorem Kimoto.requiredBits_eq (hbound : rules.spacing < 2 ^ 31) :
    requiredBits envelope index tip rules =
      PowConsensus.Kimoto.requiredBits envelope index tip rules := by
  have hheight := tip.height.toNat_lt
  have hsample : (sample envelope index tip rules).numeric =
      PowConsensus.Kimoto.sample envelope index tip rules :=
    numeric_gather _ (by simp only [Sample.none]; omega)
  obtain ⟨_, htimed⟩ : ∃ left, (PowConsensus.Kimoto.sample envelope index tip rules).Timed
      rules.spacing tip.height.toNat left := PowConsensus.Kimoto.sample_timed
  rw [← hsample] at htimed
  obtain ⟨h0, h63⟩ := htimed.expected_bounds hspacing hbound hheight
  rw [requiredBits, PowConsensus.Kimoto.requiredBits, encode_limit hlimit, ← hsample,
    bitsOfSample_eq hlimit h0 h63]

theorem DigiShield.requiredBits_eq (hbound : rules.spacing < 2 ^ 31) :
    requiredBits index tip rules = PowConsensus.DigiShield.requiredBits index tip rules := by
  have hpos := PowConsensus.DigiShield.spacing_pos hspacing tip.nextHeight
  have hlt := PowConsensus.DigiShield.spacing_lt hbound tip.nextHeight
  rw [requiredBits, PowConsensus.DigiShield.requiredBits, encode_limit hlimit]
  split
  · cases PowConsensus.DigiShield.windowStart? index tip rules with
    | none => rfl
    | some first =>
      dsimp only
      rw [scaled_eq hlimit _ _ (Int.le_of_lt hpos) (by omega), toNat_target]
  · rfl

end Spacing

theorem Legacy.requiredBits_eq (htimespan : 0 ≤ rules.timespan) (hbound : rules.timespan < 2 ^ 31)
    (time : UInt32) :
    requiredBits index tip time rules = PowConsensus.Legacy.requiredBits index tip time rules := by
  have hbetween : bitsBetween index tip time rules =
      PowConsensus.Legacy.bitsBetween index tip time rules := by
    simp only [bitsBetween, PowConsensus.Legacy.bitsBetween, encode_limit hlimit]
  rw [requiredBits, PowConsensus.Legacy.requiredBits, encode_limit hlimit, hbetween]
  split
  · cases PowConsensus.Legacy.windowStart? index tip rules with
    | none => rfl
    | some first =>
      dsimp only [nextBits, PowConsensus.Legacy.nextBits]
      rw [scaled_eq hlimit _ _ htimespan (by omega), toNat_target]
  · rfl

theorem requiredBits_eq (hspacing : 0 < rules.spacing) (htimespan : rules.spacing ≤ rules.timespan)
    (hbound : rules.timespan < 2 ^ 31) (candidate : Header) :
    requiredBits envelope index tip candidate rules =
      PowConsensus.requiredBits envelope index tip candidate rules := by
  have hshort : rules.spacing < 2 ^ 31 := Int.lt_of_le_of_lt htimespan hbound
  unfold requiredBits PowConsensus.requiredBits
  cases RetargetAlgorithm.select rules tip.nextHeight with
  | noRetarget => rfl
  | fork2Pause => rfl
  | darkGravityWave => exact DarkGravity.requiredBits_eq hlimit
  | digiShield => exact DigiShield.requiredBits_eq hlimit hspacing hshort
  | kimotoGravityWell => exact Kimoto.requiredBits_eq hlimit hspacing hshort
  | legacy => exact Legacy.requiredBits_eq hlimit (by omega) hbound candidate.time

end Bits

end Machine

/-- Whatever the envelope decides, numbers and machine words give the same required bits. After any
count of iterations of either sampling loop the average is below the modulus, as are the targets
that the loops decode, so that each difference is taken as on words. -/
theorem requiredBits_refine_words (rules : RuleSet) (hspacing : 0 < rules.spacing)
    (htimespan : rules.spacing ≤ rules.timespan) (hbound : rules.timespan < 2 ^ 31)
    (hlimit : rules.workLimit < 2 ^ 256) (envelope : Kimoto.Envelope) (c : Segment)
    (tip : ChainEntry) (candidate : Header) :
    requiredBits envelope c.predecessor tip candidate rules =
      Machine.requiredBits envelope c.predecessor tip candidate rules ∧
    (∀ (iterations : Nat) (e : ChainEntry), e.bits.target < 2 ^ 256 ∧
      let average := (Kimoto.gather envelope c.predecessor tip rules iterations tip .none).average
      average < 2 ^ 256 ∧
      (wrapSub e.bits.target average : Int) = ((e.bits.target : Int) - average) % 2 ^ 256) ∧
    ∀ iterations : Nat,
      (DarkGravity.gather c.predecessor iterations tip .none).average < 2 ^ 256 := by
  have hnone : 0 < wordModulus := by decide
  refine ⟨(Machine.requiredBits_eq hlimit hspacing htimespan hbound candidate).symm,
    fun iterations e => ?_, fun iterations => ?_⟩
  · have haverage : (Kimoto.gather envelope c.predecessor tip rules iterations tip .none).average <
        wordModulus := Kimoto.gather_average_lt hnone iterations
    exact ⟨e.bits.target_lt, haverage, wrapSub_eq_emod e.bits.target_lt haverage⟩
  · exact DarkGravity.gather_average_lt hnone iterations

/-- The older of two targets is the smaller one, so the difference wraps and the average with it:
numbers and words give the limit, far from either target. -/
theorem requiredBits_refine_words_across_wrap :
    let rules := Network.mainRules[0]
    let parent := ChainEntry.unhashed 99999 1499999999 ⟨0x1c1a1206⟩
    let tip := ChainEntry.unhashed 100000 1500000100 ⟨0x1c1b0000⟩
    let never : Kimoto.Envelope := fun _ _ _ => false
    0 < rules.spacing ∧ rules.spacing ≤ rules.timespan ∧ rules.timespan < 2 ^ 31 ∧
    rules.workLimit < 2 ^ 256 ∧ parent.bits.target < tip.bits.target ∧
    ∃ c, Segment.ofEntries? [parent, tip] = some c ∧
      Machine.requiredBits never c.predecessor tip (.candidate tip 0) rules = ⟨0x1e0fffff⟩ := by
  intro rules parent tip never
  have hspacing : 0 < rules.spacing := by decide
  have htimespan : rules.spacing ≤ rules.timespan := by decide
  have hbound : rules.timespan < 2 ^ 31 := by decide
  have hlimit : rules.workLimit < 2 ^ 256 := by decide
  have hnumbers : (Segment.ofEntries? [parent, tip]).map (fun c =>
      requiredBits never c.predecessor tip (.candidate tip 0) rules) = some ⟨0x1e0fffff⟩ := by decide
  obtain ⟨c, hc, hbits⟩ := Option.map_eq_some_iff.mp hnumbers
  have heq := (requiredBits_refine_words rules hspacing htimespan hbound hlimit never c tip
    (.candidate tip 0)).1
  exact ⟨hspacing, htimespan, hbound, hlimit, by decide, c, hc, heq ▸ hbits⟩

end PowConsensus
