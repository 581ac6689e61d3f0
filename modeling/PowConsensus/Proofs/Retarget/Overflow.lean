import PowConsensus.Proofs.Machine.Settles
import PowConsensus.Proofs.Retarget.Exact
import PowConsensus.Proofs.Rules.Lookup

/-! # Where required bits overflow

Spacing and timespan are the only numbers without a bound of their own, so that all that can be at
fault is a multiple of them. Four times the timespan is computed at a due periodic retarget, ninety
or two spacings where stalled chains are helped, and a spacing for each block of a sample. All else
keeps within the 64-bit numbers for every admissible table, no divisor is zero and no range empty.
-/
namespace PowConsensus.Checked
variable {envelope : PowConsensus.Kimoto.Envelope} {index : ChainIndex} {tip : ChainEntry}
  {rules : RuleSet}

/-- A time and some spacings after it overflow together where their sum is too large. -/
theorem deadline_settles {α : Type} {f : Int → Checked α} {a : α} {spacing count : Int} (time : UInt32)
    (hstall : 0 ≤ spacing * count) (hf : f (time.toNat + spacing * count) = .ok a) :
    Settles (do
      let stall ← product spacing count
      let latest ← sum time.toNat stall
      f latest) (2 ^ 63 ≤ (time.toNat : Int) + spacing * count) a := by
  have hproduct : Settles (product spacing count) (2 ^ 63 ≤ spacing * count) (spacing * count) :=
    .word hstall
  have hsum : Settles (sum time.toNat (spacing * count))
      (2 ^ 63 ≤ (time.toNat : Int) + spacing * count) (time.toNat + spacing * count) :=
    .word (by omega)
  refine (hproduct.bind fun _ => hsum.bind_ok hf).congr ?_
  omega

namespace Legacy
open PowConsensus.Legacy (stallSpacings isDue quarter_le_fourfold interval_lt_of_isDue)
variable {first : ChainEntry}

theorem damped_eq {seconds : Int} (h : IsWord seconds) : damped tip rules seconds =
    .ok (if rules.adjustmentForkHeight ≤ tip.height then seconds.tdiv 4 else seconds) := by
  unfold damped
  split
  · exact quotient_of_pos (by decide) h
  · rfl

theorem elapsed_settles (hpos : 0 < rules.timespan) (hword : IsWord rules.timespan) :
    Settles (elapsed tip first.time.toNat rules) (2 ^ 63 ≤ rules.timespan * 4)
      (PowConsensus.Legacy.elapsed tip first.time.toNat rules) := by
  have hseconds : IsWord ((tip.time.toNat : Int) - first.time.toNat) := by
    have htip := tip.time.toNat_lt
    have hfirst := first.time.toNat_lt
    exact ⟨by omega, by omega⟩
  have hmost : Settles (product rules.timespan 4) (2 ^ 63 ≤ rules.timespan * 4)
      (rules.timespan * 4) := .word (by omega)
  have hrange := within_eq (quarter_le_fourfold (Int.le_of_lt hpos))
  rw [elapsed, difference_toNat, ok_bind, damped_eq hseconds, ok_bind,
    quotient_of_pos (by decide) hword, ok_bind]
  refine hmost.bind_ok ?_
  exact hrange _

theorem nextBits_settles (hretargets : rules.noRetargeting = false) (hpos : 0 < rules.timespan)
    (hword : IsWord rules.timespan) :
    Settles (nextBits tip first.time.toNat rules) (2 ^ 63 ≤ rules.timespan * 4)
      (PowConsensus.Legacy.nextBits tip first.time.toNat rules) := by
  simp only [nextBits, PowConsensus.Legacy.nextBits, hretargets, Bool.false_eq_true, ↓reduceIte]
  exact (elapsed_settles hpos hword).bind_ok (scaled_eq (Int.ne_of_gt hpos) _ _)

theorem lookback_eq (hinterval : 0 < rules.interval) (hdue : isDue tip rules = true) :
    lookback tip rules rules.interval = .ok (PowConsensus.Legacy.lookback tip rules) := by
  have hlt := interval_lt_of_isDue hdue
  unfold lookback PowConsensus.Legacy.lookback
  split
  · exact word_eq ⟨by omega, by omega⟩
  · split
    · exact word_eq ⟨by omega, by omega⟩
    · rfl

/-- Four timespans at a due retarget whose window is known, or between retargets the time at which a
chain has stalled, are too large. -/
def Overflows (index : ChainIndex) (tip : ChainEntry) (rules : RuleSet) : Prop :=
  (isDue tip rules = true ∧
    (PowConsensus.Legacy.windowStart? index tip rules).isSome ∧ 2 ^ 63 ≤ rules.timespan * 4) ∨
  (isDue tip rules = false ∧ rules.allowMinDifficulty = true ∧
    2 ^ 63 ≤ (tip.time.toNat : Int) + rules.spacing * stallSpacings)

theorem bitsBetween_settles (hspacing : 0 < rules.spacing) (hinterval : 0 < rules.interval)
    (time : UInt32) : Settles (bitsBetween index tip time rules rules.interval)
      (rules.allowMinDifficulty = true ∧
        2 ^ 63 ≤ (tip.time.toNat : Int) + rules.spacing * stallSpacings)
      (PowConsensus.Legacy.bitsBetween index tip time rules) := by
  unfold bitsBetween PowConsensus.Legacy.bitsBetween
  cases hallow : rules.allowMinDifficulty with
  | false => exact (Settles.of_eq rfl).congr (by simp)
  | true =>
    simp only [Bool.not_true, Bool.false_eq_true, ↓reduceIte, true_and]
    refine deadline_settles tip.time (Int.mul_nonneg (Int.le_of_lt hspacing) (by decide)) ?_
    split
    · rfl
    · exact ordinaryBits_eq hinterval _ _ _

theorem requiredBits_settles (hretargets : rules.noRetargeting = false)
    (hspacing : 0 < rules.spacing) (htimespan : rules.spacing ≤ rules.timespan)
    (hword : IsWord rules.timespan) (time : UInt32) :
    Settles (requiredBits index tip time rules) (Overflows index tip rules)
      (PowConsensus.Legacy.requiredBits index tip time rules) := by
  have hinterval : 0 < rules.interval := (RuleSet.interval_pos_iff hspacing).mpr htimespan
  rw [requiredBits, interval_eq hspacing hword, ok_bind,
    remainder_of_pos hinterval (isWord_toNat tip.nextHeight), ok_bind,
    PowConsensus.Legacy.requiredBits]
  cases hdue : isDue tip rules with
  | false =>
    have hne : (tip.nextHeight.toNat : Int).tmod rules.interval ≠ 0 := by
      simpa [isDue] using hdue
    rw [if_pos hne]
    exact (bitsBetween_settles hspacing hinterval time).congr (by simp [Overflows, hdue])
  | true =>
    have heq : (tip.nextHeight.toNat : Int).tmod rules.interval = 0 := by
      simpa [isDue] using hdue
    rw [if_neg (not_not_intro heq), lookback_eq hinterval hdue, ok_bind]
    simp only [↓reduceIte, PowConsensus.Legacy.windowStart?]
    cases hstart : PowConsensus.windowStart? index tip (PowConsensus.Legacy.lookback tip rules) with
    | none =>
      exact (Settles.of_eq rfl).congr
        (by simp [Overflows, hdue, hstart, PowConsensus.Legacy.windowStart?])
    | some first =>
      exact (nextBits_settles hretargets (by omega) hword).congr
        (by simp [Overflows, hdue, hstart, PowConsensus.Legacy.windowStart?])

end Legacy

namespace Kimoto
open PowConsensus.Kimoto (Envelope Sample minBlocks maxBlocks applies sample expected_le_gather)
variable {e : ChainEntry} {s : Sample}

theorem add_settles {spacing : Int} (hspacing : 0 ≤ spacing) :
    Settles (add s tip e spacing) (2 ^ 63 ≤ (s.add tip e spacing).expected)
      (s.add tip e spacing) := by
  have hexpected : Settles (product spacing (s.mass + 1)) (2 ^ 63 ≤ spacing * (s.mass + 1))
      (spacing * (s.mass + 1)) := .word (Int.mul_nonneg hspacing (by omega))
  rw [add, difference_toNat, ok_bind]
  exact hexpected.bind_ok rfl

theorem gather_settles (hspacing : 0 ≤ rules.spacing) (hs : s.expected = rules.spacing * s.mass)
    (hlt : s.expected < 2 ^ 63) (fuel : Nat) :
    Settles (gather envelope index tip rules (minBlocks rules) (maxBlocks rules) fuel e s)
      (2 ^ 63 ≤ (PowConsensus.Kimoto.gather envelope index tip rules fuel e s).expected)
      (PowConsensus.Kimoto.gather envelope index tip rules fuel e s) := by
  have hdone {t : Sample} (ht : t.expected < 2 ^ 63) :
      Settles (pure t) (2 ^ 63 ≤ t.expected) t :=
    (Settles.of_eq rfl).congr ⟨False.elim, fun h => absurd ht (Int.not_lt.mpr h)⟩
  induction fuel generalizing e s with
  | zero => exact hdone hlt
  | succ fuel ih =>
    rw [gather, PowConsensus.Kimoto.gather]
    by_cases hground : e.height = 0
    · rw [if_pos hground, if_pos hground]
      exact hdone hlt
    rw [if_neg hground, if_neg hground]
    by_cases hroom : 0 < maxBlocks rules ∧ maxBlocks rules < s.mass + 1
    · rw [if_pos hroom, if_pos hroom]
      exact hdone hlt
    rw [if_neg hroom, if_neg hroom]
    have hadd : Settles (add s tip e rules.spacing) _ _ := add_settles hspacing
    dsimp only
    by_cases hstop : minBlocks rules ≤ (s.add tip e rules.spacing).mass ∧
        envelope (s.add tip e rules.spacing).mass (s.add tip e rules.spacing).actual
          (s.add tip e rules.spacing).expected
    · rw [if_pos hstop]
      refine hadd.bind_ok ?_
      rw [if_pos hstop]
      rfl
    rw [if_neg hstop]
    cases hparent : index e with
    | none =>
      refine hadd.bind_ok ?_
      rw [if_neg hstop]
      rfl
    | some parent =>
      have hgrow : (s.add tip e rules.spacing).expected ≤ (PowConsensus.Kimoto.gather envelope index
          tip rules fuel parent (s.add tip e rules.spacing)).expected :=
        expected_le_gather hspacing rfl fuel
      refine (hadd.bind fun hsmall => ?_).congr (or_iff_right_of_imp fun h => Int.le_trans h hgrow)
      rw [if_neg hstop]
      exact ih rfl (Int.not_le.mp hsmall)

/-- The seconds expected of all blocks in the sample are too many. -/
def Overflows (envelope : Envelope) (index : ChainIndex) (tip : ChainEntry) (rules : RuleSet) :
    Prop :=
  applies tip rules = true ∧
    2 ^ 63 ≤ (sample envelope index tip rules).expected

theorem bitsOfSample_eq :
    bitsOfSample s rules = .ok (PowConsensus.Kimoto.bitsOfSample s rules) := by
  unfold bitsOfSample PowConsensus.Kimoto.bitsOfSample
  split
  · next hmeasured => exact scaled_eq hmeasured.2 _ _
  · rfl

theorem requiredBits_settles (hspacing : 0 < rules.spacing) :
    Settles (requiredBits envelope index tip rules) (Overflows envelope index tip rules)
      (PowConsensus.Kimoto.requiredBits envelope index tip rules) := by
  rw [requiredBits, quotient_of_pos hspacing (by decide), ok_bind,
    quotient_of_pos hspacing (by decide), ok_bind, PowConsensus.Kimoto.requiredBits]
  change Settles (if tip.height = 0 ∨ tip.height.toNat < minBlocks rules then _ else
    gather envelope index tip rules (minBlocks rules) (maxBlocks rules) tip.height.toNat tip .none
      >>= fun s => bitsOfSample s rules) _ _
  have hhigh : applies tip rules = true ↔ ¬ (tip.height = 0 ∨ tip.height.toNat < minBlocks rules) := by
    simp [applies]
  by_cases happlies : applies tip rules = true
  · have hsample : Settles (gather envelope index tip rules (minBlocks rules) (maxBlocks rules)
          tip.height.toNat tip .none)
        (2 ^ 63 ≤ (sample envelope index tip rules).expected)
        (sample envelope index tip rules) :=
      gather_settles (Int.le_of_lt hspacing) (Int.mul_zero _).symm (by decide) tip.height.toNat
    rw [if_pos happlies, if_neg (hhigh.mp happlies)]
    exact (hsample.bind_ok bitsOfSample_eq).congr (and_iff_right happlies).symm
  · rw [if_neg happlies, if_pos (not_not.mp (mt hhigh.mpr happlies))]
    exact (Settles.of_eq rfl).congr (by simp [Overflows, happlies])

end Kimoto

/-- Where the selected algorithm computes a multiple of spacing or timespan that is too large. -/
def Overflows (envelope : PowConsensus.Kimoto.Envelope) (index : ChainIndex) (tip : ChainEntry)
    (rules : RuleSet) : Prop :=
  match RetargetAlgorithm.select rules tip.nextHeight with
  | .legacy => Legacy.Overflows index tip rules
  | .kimotoGravityWell => Kimoto.Overflows envelope index tip rules
  | _ => False

theorem requiredBits_settles (hspacing : 0 < rules.spacing)
    (htimespan : rules.spacing ≤ rules.timespan) (hword : IsWord rules.timespan)
    (candidate : Header) : Settles (requiredBits envelope index tip candidate rules)
      (Overflows envelope index tip rules)
      (PowConsensus.requiredBits envelope index tip candidate rules) := by
  unfold requiredBits Overflows PowConsensus.requiredBits
  cases hera : RetargetAlgorithm.select rules tip.nextHeight with
  | noRetarget => exact .of_eq rfl
  | fork2Pause => exact .of_eq rfl
  | darkGravityWave => exact .of_eq DarkGravity.requiredBits_eq
  | digiShield => exact .of_eq (DigiShield.requiredBits_eq hera)
  | kimotoGravityWell => exact Kimoto.requiredBits_settles hspacing
  | legacy =>
    exact Legacy.requiredBits_settles (RetargetAlgorithm.era_of_select hera).1 hspacing htimespan
      hword candidate.time

theorem allowsMinDifficulty_settles (hspacing : 0 < rules.spacing) (tipHeight tipTime time : UInt32) :
    Settles (allowsMinDifficulty rules tipHeight tipTime time)
      (rules.allowMinDifficulty = true ∧ minDifficultyHeight ≤ tipHeight ∧
        2 ^ 63 ≤ (tipTime.toNat : Int) + rules.spacing * 2)
      (rules.allowsMinDifficulty tipHeight tipTime time) := by
  unfold allowsMinDifficulty RuleSet.allowsMinDifficulty
  cases hallow : rules.allowMinDifficulty with
  | false => exact (Settles.of_eq rfl).congr (by simp)
  | true =>
    by_cases hheight : minDifficultyHeight ≤ tipHeight
    · simp only [Bool.not_true, Bool.false_eq_true, ↓reduceIte, UInt32.not_lt.mpr hheight, hheight,
        decide_true, Bool.and_self, Bool.true_and, true_and]
      exact deadline_settles tipTime (by omega) rfl
    · simp only [Bool.not_true, Bool.false_eq_true, ↓reduceIte, UInt32.not_le.mp hheight, hheight,
        decide_false, Bool.and_false, Bool.false_and, and_false, false_and]
      exact .of_eq rfl

/-- A timespan of less than 68 years is short enough. -/
theorem not_overflows_of_timespan (hspacing : 0 < rules.spacing)
    (htimespan : rules.spacing ≤ rules.timespan) (hbound : rules.timespan < 2 ^ 31) :
    ¬ Overflows envelope index tip rules := by
  have htime := tip.time.toNat_lt
  unfold Overflows
  split
  · rintro (⟨-, -, hlarge⟩ | ⟨-, -, hlarge⟩)
    · omega
    · simp only [PowConsensus.Legacy.stallSpacings] at hlarge
      omega
  · rintro ⟨-, hlarge⟩
    obtain ⟨left, htimed⟩ : ∃ left, (PowConsensus.Kimoto.sample envelope index tip rules).Timed
        rules.spacing tip.height.toNat left := PowConsensus.Kimoto.sample_timed
    have hsmall := (htimed.expected_bounds hspacing (by omega) tip.height.toNat_lt).2
    omega
  · exact id

end PowConsensus.Checked

namespace PowConsensus

theorem Network.timespan_lt (n : Network) : ∀ rules ∈ n.rules.ruleSets, rules.timespan < 2 ^ 31 := by
  cases n <;> decide

/-- Under the rules of the three networks checked arithmetic is never at fault. -/
theorem Network.checked_requiredBits (n : Network) {rules : RuleSet}
    (hrules : rules ∈ n.rules.ruleSets) (envelope : Kimoto.Envelope) (index : ChainIndex)
    (tip : ChainEntry) (candidate : Header) :
    Checked.requiredBits envelope index tip candidate rules =
      .ok (requiredBits envelope index tip candidate rules) := by
  have hspacing := n.rules.spacing_pos hrules
  have htimespan := (n.rules.admissible.timed rules hrules).2
  have hbound := n.timespan_lt rules hrules
  apply (Checked.requiredBits_settles hspacing htimespan ⟨by omega, by omega⟩ candidate).value
  exact Checked.not_overflows_of_timespan hspacing htimespan hbound

/-- For the rules of any accepted table, whatever the chain, the tip and the candidate: required
bits and the allowance for stalled chains are the exact ones, or an overflow in precisely the cases
stated. No divisor is zero and no range empty, and timespans below 2^31 seconds never overflow. -/
theorem required_bits_fail_only_by_overflow (store : RuleStore) (rules : RuleSet)
    (hrules : rules ∈ store.ruleSets) (hword : Checked.IsWord rules.timespan) (c : Segment)
    (tip : ChainEntry) (candidate : Header) (envelope : Kimoto.Envelope) :
    Checked.Settles (Checked.requiredBits envelope c.predecessor tip candidate rules)
      (Checked.Overflows envelope c.predecessor tip rules)
      (requiredBits envelope c.predecessor tip candidate rules) ∧
    (∀ tipHeight tipTime time : UInt32,
      Checked.Settles (Checked.allowsMinDifficulty rules tipHeight tipTime time)
        (rules.allowMinDifficulty = true ∧ minDifficultyHeight ≤ tipHeight ∧
          2 ^ 63 ≤ (tipTime.toNat : Int) + rules.spacing * 2)
        (rules.allowsMinDifficulty tipHeight tipTime time)) ∧
    (rules.timespan < 2 ^ 31 → ¬ Checked.Overflows envelope c.predecessor tip rules ∧
      ∀ tipTime : UInt32, (tipTime.toNat : Int) + rules.spacing * 2 < 2 ^ 63) := by
  have hspacing := store.spacing_pos hrules
  have htimespan := (store.admissible.timed rules hrules).2
  refine ⟨Checked.requiredBits_settles hspacing htimespan hword candidate,
    Checked.allowsMinDifficulty_settles hspacing, fun hbound =>
      ⟨Checked.not_overflows_of_timespan hspacing htimespan hbound, fun tipTime => ?_⟩⟩
  have htime := tipTime.toNat_lt
  omega

/-- A table of one rule set with a timespan of 2^62 seconds is accepted, but two blocks are enough
for a due retarget to overflow, and the allowance for a stalled chain overflows as well. -/
theorem accepted_rules_overflow :
    let rules : RuleSet := { Network.mainRules[0] with spacing := 2 ^ 62, timespan := 2 ^ 62 }
    let c := ((Segment.startingAt 99).push 1400000000 ⟨0x1e0fffff⟩).push 1400000040 ⟨0x1e0fffff⟩
    let tip := ChainEntry.unhashed 100 1400000040 ⟨0x1e0fffff⟩
    (∃ store, RuleStore.ofList [rules] = .ok store) ∧ Checked.IsWord rules.timespan ∧
      c.tip? = some tip ∧
      Checked.requiredBits Kimoto.standardEnvelope c.predecessor tip (.candidate tip 1400000080) rules
        = .error .overflow ∧
      Checked.allowsMinDifficulty { rules with allowMinDifficulty := true } 157500 1400000040
        1400000080 = .error .overflow := by
  intro rules c tip
  have haccept : RuleSet.Admissible [rules] := RuleSet.tableFault?_eq_none_iff.mp (by decide)
  have hoverflows : Checked.Overflows Kimoto.standardEnvelope c.predecessor tip rules :=
    Or.inl ⟨by decide, by decide, by decide⟩
  refine ⟨RuleStore.exists_ofList_iff.mpr haccept, by decide, rfl, ?_, rfl⟩
  exact (Checked.requiredBits_settles (by decide) (by decide) (by decide) _).fault hoverflows

/-- The longest timespan that a due retarget can quadruple, and the shortest that it cannot. -/
theorem required_bits_fail_only_by_overflow_at_boundary :
    let rules (timespan : Int) : RuleSet :=
      { Network.mainRules[0] with spacing := timespan, timespan := timespan }
    let c := ((Segment.startingAt 99).push 1400000000 ⟨0x1e0fffff⟩).push 1400000040 ⟨0x1e0fffff⟩
    let tip := ChainEntry.unhashed 100 1400000040 ⟨0x1e0fffff⟩
    let candidate := Header.candidate tip 1400000080
    let demand (timespan : Int) : Checked CompactTarget :=
      Checked.requiredBits Kimoto.standardEnvelope c.predecessor tip candidate (rules timespan)
    demand (2 ^ 61 - 1) = .ok (requiredBits Kimoto.standardEnvelope c.predecessor tip candidate
      (rules (2 ^ 61 - 1))) ∧ demand (2 ^ 61) = .error .overflow := by
  intro rules c tip candidate demand
  have hfits := required_bits_fail_only_by_overflow ⟨[rules (2 ^ 61 - 1)], by decide⟩
    (rules (2 ^ 61 - 1)) List.mem_cons_self (by decide) c tip candidate Kimoto.standardEnvelope
  have hexceeds := required_bits_fail_only_by_overflow ⟨[rules (2 ^ 61)], by decide⟩
    (rules (2 ^ 61)) List.mem_cons_self (by decide) c tip candidate Kimoto.standardEnvelope
  refine ⟨hfits.1.value ?_, hexceeds.1.fault (Or.inl ⟨by decide, by decide, by decide⟩)⟩
  rintro (⟨-, -, hlarge⟩ | ⟨hundue, -⟩)
  · exact absurd hlarge (by decide)
  · exact absurd hundue (by decide)

end PowConsensus
