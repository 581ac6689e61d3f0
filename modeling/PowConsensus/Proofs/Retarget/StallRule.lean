import Mathlib.Logic.Basic
import PowConsensus.Proofs.Retarget.Periodic
import PowConsensus.Proofs.Retarget.Schedule

/-! # What of a candidate its required bits depend on

The parent and the history behind it give the required bits, and of the candidate itself at most its
time is read. Only the periodic era reads it, between two retargets and where the rules help a
stalled chain, and all that counts there is whether the candidate is late. No rule set of the three
networks is in that position at any height.
-/
namespace PowConsensus
variable {rules : RuleSet} {index : ChainIndex} {tip : ChainEntry} {envelope : Kimoto.Envelope}
variable {a b candidate : Header}

/-- More than ninety spacings after the tip. -/
def Late (rules : RuleSet) (tip : ChainEntry) (candidate : Header) : Prop :=
  (tip.time.toNat : Int) + rules.spacing * 90 < candidate.time.toNat

instance (rules : RuleSet) (tip : ChainEntry) (candidate : Header) :
    Decidable (Late rules tip candidate) := inferInstanceAs (Decidable (_ < _))

/-- Where a late candidate is let off: on top of such a tip no periodic retarget is due, and the
rules help a stalled chain. -/
structure StallRule (rules : RuleSet) (tip : ChainEntry) : Prop where
  era : RetargetAlgorithm.select rules tip.nextHeight = .legacy
  undue : ¬ rules.interval ∣ (tip.height.toNat : Int) + 1
  allowed : rules.allowMinDifficulty = true

namespace Legacy

/-- The periodic era ends before the largest height, which alone has no successor. -/
theorem height_lt_of_select (h : RetargetAlgorithm.select rules tip.nextHeight = .legacy) :
    tip.height.toNat < UInt32.size - 1 := by
  obtain ⟨-, -, -, hbefore⟩ := RetargetAlgorithm.era_of_select h
  have hfork := rules.fork1Height.toNat_lt
  have hnext := tip.toNat_nextHeight
  rw [UInt32.lt_iff_toNat_lt] at hbefore
  simp only [UInt32.size] at hnext ⊢
  omega

theorem isDue_iff_of_select (h : RetargetAlgorithm.select rules tip.nextHeight = .legacy) :
    isDue tip rules = true ↔ rules.interval ∣ (tip.height.toNat : Int) + 1 := by
  rw [isDue_iff, natCast_nextHeight (height_lt_of_select h)]

theorem requiredBits_of_due (hdue : isDue tip rules = true) (time time' : UInt32) :
    requiredBits index tip time rules = requiredBits index tip time' rules := by
  rw [requiredBits, requiredBits, if_pos hdue, if_pos hdue]

theorem requiredBits_of_not_allowed (hundue : ¬ isDue tip rules = true)
    (hallow : ¬ rules.allowMinDifficulty = true) (time : UInt32) :
    requiredBits index tip time rules = tip.bits := by
  rw [requiredBits, if_neg hundue, bitsBetween, (Bool.not_eq_true _).mp hallow]
  exact if_pos rfl

theorem requiredBits_of_late (hundue : ¬ isDue tip rules = true)
    (hallow : rules.allowMinDifficulty = true) {time : UInt32}
    (hlate : (tip.time.toNat : Int) + rules.spacing * stallSpacings < time.toNat) :
    requiredBits index tip time rules = rules.workLimitBits := by
  rw [requiredBits, if_neg hundue, bitsBetween, hallow, if_pos hlate]
  exact if_neg Bool.false_ne_true

end Legacy

theorem StallRule.requiredBits_eq (h : StallRule rules tip) :
    requiredBits envelope index tip candidate rules =
      if Late rules tip candidate then rules.workLimitBits
      else lastOrdinaryBits index tip rules.interval rules.workLimitBits := by
  have hundue : ¬ Legacy.isDue tip rules = true :=
    fun hdue => h.undue ((Legacy.isDue_iff_of_select h.era).mp hdue)
  rw [requiredBits_of_select h.era]
  by_cases hlate : Late rules tip candidate
  · rw [if_pos hlate]
    exact Legacy.requiredBits_of_late hundue h.allowed hlate
  · rw [if_neg hlate]
    exact (Legacy.requiredBits_of_timely hundue (Int.not_lt.mp hlate)).trans (if_pos h.allowed)

/-- Elsewhere no candidate matters: only the periodic retarget is given a time at all. -/
theorem requiredBits_of_not_stallRule (h : ¬ StallRule rules tip) (a b : Header) :
    requiredBits envelope index tip a rules = requiredBits envelope index tip b rules := by
  cases hera : RetargetAlgorithm.select rules tip.nextHeight with
  | noRetarget | fork2Pause | darkGravityWave | digiShield | kimotoGravityWell =>
    rw [requiredBits_of_select hera, requiredBits_of_select hera]
  | legacy =>
    rw [requiredBits_of_select hera, requiredBits_of_select hera]
    by_cases hdue : Legacy.isDue tip rules = true
    · exact Legacy.requiredBits_of_due hdue a.time b.time
    · have hallow : ¬ rules.allowMinDifficulty = true := fun hallow =>
        h ⟨hera, fun hdvd => hdue ((Legacy.isDue_iff_of_select hera).mpr hdvd), hallow⟩
      exact (Legacy.requiredBits_of_not_allowed hdue hallow a.time).trans
        (Legacy.requiredBits_of_not_allowed hdue hallow b.time).symm

theorem requiredBits_of_late_iff (h : Late rules tip a ↔ Late rules tip b) :
    requiredBits envelope index tip a rules = requiredBits envelope index tip b rules := by
  by_cases hstall : StallRule rules tip
  · rw [hstall.requiredBits_eq, hstall.requiredBits_eq]
    exact if_congr h rfl rfl
  · exact requiredBits_of_not_stallRule hstall a b

/-- Where the stall rule holds it tells late candidates from others, unless the bits in force are
those of the limit. -/
theorem StallRule.requiredBits_ne_iff (h : StallRule rules tip) :
    requiredBits envelope index tip a rules ≠ requiredBits envelope index tip b rules ↔
      Xor (Late rules tip a) (Late rules tip b) ∧
        lastOrdinaryBits index tip rules.interval rules.workLimitBits ≠ rules.workLimitBits := by
  constructor
  · intro hne
    refine ⟨(xor_iff_not_iff _ _).mpr fun hlate => hne (requiredBits_of_late_iff hlate), ?_⟩
    intro hlimit
    apply hne
    rw [h.requiredBits_eq, h.requiredBits_eq, hlimit, ite_self, ite_self]
  · rintro ⟨⟨ha, hb⟩ | ⟨hb, ha⟩, hlimit⟩
    · rw [h.requiredBits_eq, h.requiredBits_eq, if_pos ha, if_neg hb]
      exact hlimit.symm
    · rw [h.requiredBits_eq, h.requiredBits_eq, if_neg ha, if_pos hb]
      exact hlimit

/-- The main network helps no stalled chain, and the test networks have no periodic era. -/
theorem Network.not_stallRule (n : Network) (height : UInt32) (tip : ChainEntry) :
    ¬ StallRule (n.rules.get height) tip := by
  rintro ⟨hera, -, hallow⟩
  obtain ⟨hretargets, hbefore, -⟩ := RetargetAlgorithm.era_of_select hera
  cases n with
  | main =>
    rw [Network.get_main] at hallow
    cases hallow
  | test =>
    rw [(Network.get_test height).2] at hbefore
    exact absurd hbefore UInt32.not_lt_zero
  | regtest => exact Bool.false_ne_true (hretargets.symm.trans (Network.get_regtest height))

/-- Two candidates on one tip are asked for different bits exactly when the stall rule holds there,
one of them alone is late, and the bits in force are not those of the limit. Then the late one is
asked for the limit and the other for the bits in force. So nothing but the time of a candidate
matters under any rules, and nothing at all under those of the networks. -/
theorem candidate_matters_only_by_stall_rule :
    (∀ (rules : RuleSet) (c : Segment) (tip : ChainEntry) (envelope : Kimoto.Envelope)
        (a b : Header),
      let bits (candidate : Header) := requiredBits envelope c.predecessor tip candidate rules
      let inForce := lastOrdinaryBits c.predecessor tip rules.interval rules.workLimitBits
      (bits a ≠ bits b ↔ StallRule rules tip ∧ Xor (Late rules tip a) (Late rules tip b) ∧
        inForce ≠ rules.workLimitBits) ∧
      (bits a ≠ bits b →
        (Late rules tip a ∧ ¬ Late rules tip b ∧
          bits a = rules.workLimitBits ∧ bits b = inForce) ∨
        (Late rules tip b ∧ ¬ Late rules tip a ∧
          bits b = rules.workLimitBits ∧ bits a = inForce)) ∧
      (a.time = b.time → bits a = bits b)) ∧
    ∀ (n : Network) (height : UInt32) (c : Segment) (tip : ChainEntry)
        (envelope : Kimoto.Envelope) (a b : Header),
      requiredBits envelope c.predecessor tip a (n.rules.get height) =
        requiredBits envelope c.predecessor tip b (n.rules.get height) := by
  refine ⟨fun rules c tip envelope a b => ?_, fun n height c tip envelope a b =>
    requiredBits_of_not_stallRule (n.not_stallRule height tip) a b⟩
  intro bits inForce
  have hstall (h : bits a ≠ bits b) : StallRule rules tip :=
    Classical.byContradiction fun hno => h (requiredBits_of_not_stallRule hno a b)
  refine ⟨⟨fun h => ⟨hstall h, (hstall h).requiredBits_ne_iff.mp h⟩,
    fun ⟨hrule, h⟩ => hrule.requiredBits_ne_iff.mpr h⟩, fun h => ?_, fun htime => ?_⟩
  · have hbits (candidate : Header) : bits candidate =
        if Late rules tip candidate then rules.workLimitBits else inForce :=
      (hstall h).requiredBits_eq
    rcases ((hstall h).requiredBits_ne_iff.mp h).1 with ⟨ha, hb⟩ | ⟨hb, ha⟩
    · exact Or.inl ⟨ha, hb, (hbits a).trans (if_pos ha), (hbits b).trans (if_neg hb)⟩
    · exact Or.inr ⟨hb, ha, (hbits b).trans (if_pos hb), (hbits a).trans (if_neg ha)⟩
  · exact requiredBits_of_late_iff (by rw [Late, Late, htime])

/-- One second decides, on the main network were stalled chains helped there: an hour after the tip
a candidate is asked for the bits in force, and later for the limit. -/
theorem candidate_matters_only_by_stall_rule_at_deadline :
    let rules := { Network.mainRules[0] with allowMinDifficulty := true }
    let c := (Segment.startingAt 60).pushAll [(1400000000, ⟨0x1c1a1206⟩), (1400000040, ⟨0x1e0fffff⟩)]
    let tip := ChainEntry.unhashed 61 1400000040 ⟨0x1e0fffff⟩
    let late := Header.candidate tip 1400003641
    let timely := Header.candidate tip 1400003640
    let other : Header := { late with version := 2, merkleRoot := .ofNat 7, bits := ⟨0⟩, nonce := 9 }
    ∀ envelope : Kimoto.Envelope,
      let bits (candidate : Header) := requiredBits envelope c.predecessor tip candidate rules
      bits late ≠ bits timely ∧ StallRule rules tip ∧ Late rules tip late ∧
        bits late = rules.workLimitBits ∧ bits timely = ⟨0x1c1a1206⟩ ∧ bits other = bits late := by
  intro rules c tip late timely other envelope bits
  obtain ⟨hdiffer, hvalues, -⟩ :=
    candidate_matters_only_by_stall_rule.1 rules c tip envelope late timely
  obtain ⟨-, -, hsame⟩ := candidate_matters_only_by_stall_rule.1 rules c tip envelope other late
  have hstall : StallRule rules tip := ⟨by decide, by decide, rfl⟩
  have hlate : Late rules tip late := by decide
  have hxor : Xor (Late rules tip late) (Late rules tip timely) := Or.inl ⟨hlate, by decide⟩
  have hinForce : lastOrdinaryBits c.predecessor tip rules.interval rules.workLimitBits =
      ⟨0x1c1a1206⟩ := by decide
  have hne : bits late ≠ bits timely := hdiffer.mpr ⟨hstall, hxor, by rw [hinForce]; decide⟩
  rcases hvalues hne with ⟨-, -, hlimit, hkept⟩ | ⟨-, hnot, -⟩
  · exact ⟨hne, hstall, hlate, hlimit, hkept.trans hinForce, hsame rfl⟩
  · exact absurd hlate hnot

end PowConsensus
