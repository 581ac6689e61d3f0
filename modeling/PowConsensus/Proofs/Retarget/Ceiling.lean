import PowConsensus.Network.Rules
import PowConsensus.Proofs.Chain.Access
import PowConsensus.Proofs.Target.Encoding
import PowConsensus.Retarget.Required
import PowConsensus.Work.Verdict

/-! # Required bits stay within the limit

A computed target is capped before it is encoded, and bits that are copied come from an entry of
the chain. So a chain whose entries are within the limit only asks for bits within the limit, and
it stays such a chain when blocks are appended that carry what it asks for.
-/
namespace PowConsensus
open CompactTarget

/-- A walk over predecessors ends at bits that the chain holds. -/
theorem ordinaryBits_of_forall {index : ChainIndex} {P : CompactTarget → Prop}
    (hindex : ∀ {e parent}, index e = some parent → P parent.bits) {e : ChainEntry} (he : P e.bits)
    (interval : Int) (ceiling : CompactTarget) (fuel : Nat) :
    P (ordinaryBits index interval ceiling fuel e) := by
  induction fuel generalizing e with
  | zero => exact he
  | succ fuel ih =>
    rw [ordinaryBits]
    split
    · cases h : index e with
      | none => exact he
      | some parent => exact ih (hindex h)
    · exact he

section Bounds
variable {rules : RuleSet} {limit : Nat} (hrules : rules.workLimit = limit)
variable (hlimit : limit < wordModulus)
include hrules hlimit

theorem RuleSet.cap_within (target : Nat) : (rules.cap target).Within limit := by
  unfold RuleSet.cap
  split
  · exact encode_within (by omega) (by omega)
  · exact encode_within (by omega) (by omega)

theorem RuleSet.workLimitBits_within : rules.workLimitBits.Within limit :=
  encode_within (by omega) (by omega)

theorem DarkGravity.requiredBits_within (index : ChainIndex) (tip : ChainEntry) :
    (DarkGravity.requiredBits index tip rules).Within limit := by
  unfold DarkGravity.requiredBits
  split
  · exact rules.cap_within hrules hlimit _
  · exact rules.workLimitBits_within hrules hlimit

theorem Kimoto.requiredBits_within (envelope : Kimoto.Envelope) (index : ChainIndex)
    (tip : ChainEntry) : (Kimoto.requiredBits envelope index tip rules).Within limit := by
  unfold Kimoto.requiredBits Kimoto.bitsOfSample
  split
  · split <;> exact rules.cap_within hrules hlimit _
  · exact rules.workLimitBits_within hrules hlimit

variable {index : ChainIndex} {tip : ChainEntry} (htip : tip.bits.Within limit)
variable (hindex : ∀ {e parent}, index e = some parent → parent.bits.Within limit)

omit hrules hlimit in
include hindex in
theorem ordinaryBits_within {e : ChainEntry} (he : e.bits.Within limit) (interval : Int)
    (ceiling : CompactTarget) (fuel : Nat) :
    (ordinaryBits index interval ceiling fuel e).Within limit :=
  ordinaryBits_of_forall hindex he interval ceiling fuel

include htip hindex

theorem DigiShield.requiredBits_within :
    (DigiShield.requiredBits index tip rules).Within limit := by
  unfold DigiShield.requiredBits
  dsimp only
  split
  · cases DigiShield.windowStart? index tip rules with
    | none => exact rules.workLimitBits_within hrules hlimit
    | some first => exact rules.cap_within hrules hlimit _
  · exact ordinaryBits_within hindex htip _ _ _

theorem Legacy.requiredBits_within (time : UInt32) :
    (Legacy.requiredBits index tip time rules).Within limit := by
  have hceiling := rules.workLimitBits_within hrules hlimit
  unfold Legacy.requiredBits
  split
  · cases Legacy.windowStart? index tip rules with
    | none => exact hceiling
    | some first =>
      dsimp only [Legacy.nextBits]
      split
      · exact htip
      · exact rules.cap_within hrules hlimit _
  · unfold Legacy.bitsBetween
    split
    · exact htip
    · split
      · exact hceiling
      · exact ordinaryBits_within hindex htip _ _ _

/-- Whichever algorithm the height selects, and whatever the envelope says. -/
theorem requiredBits_within (envelope : Kimoto.Envelope) (candidate : Header) :
    (requiredBits envelope index tip candidate rules).Within limit := by
  unfold requiredBits
  cases RetargetAlgorithm.select rules tip.nextHeight with
  | noRetarget => exact htip
  | fork2Pause => exact htip
  | darkGravityWave => exact DarkGravity.requiredBits_within hrules hlimit index tip
  | digiShield => exact DigiShield.requiredBits_within hrules hlimit htip hindex
  | kimotoGravityWell => exact Kimoto.requiredBits_within hrules hlimit envelope index tip
  | legacy => exact Legacy.requiredBits_within hrules hlimit htip hindex candidate.time

end Bounds

/-- Bits within the limit can only fail for being zero or below the digest. -/
theorem CompactTarget.Within.verdict {c : CompactTarget} {limit : Nat} (h : c.Within limit)
    {rules : RuleSet} (hrules : rules.workLimit = limit) (digest : Digest) :
    WorkVerdict.of digest c rules ≠ .negativeTarget ∧
    WorkVerdict.of digest c rules ≠ .overflowTarget ∧
    WorkVerdict.of digest c rules ≠ .aboveLimit := by
  have hle : ¬ rules.workLimit < c.decode.value := Nat.not_lt.mpr (hrules ▸ h.le)
  simp only [WorkVerdict.of, h.nonnegative, h.fits, Bool.false_eq_true, ↓reduceIte, if_neg hle]
  split
  · decide
  · split <;> decide

namespace RuleStore

theorem get_mem (store : RuleStore) (height : UInt32) : store.get height ∈ store.ruleSets :=
  List.get_mem _ _

/-- All rule sets share one limit, which is a word, and their timespans are 32-bit numbers. -/
structure OneLimit (store : RuleStore) (limit : Nat) : Prop where
  limit_lt : limit < 2 ^ 256
  workLimit_eq : ∀ rules ∈ store.ruleSets, rules.workLimit = limit
  timespan_lt : ∀ rules ∈ store.ruleSets, rules.timespan < 2 ^ 31

end RuleStore

theorem Network.rules_oneLimit (n : Network) : ∃ limit, n.rules.OneLimit limit := by
  cases n with
  | main => exact ⟨limitOfBits 236, by decide, by decide, by decide⟩
  | test => exact ⟨limitOfBits 236, by decide, by decide, by decide⟩
  | regtest => exact ⟨limitOfBits 255, by decide, by decide, by decide⟩

/-- One block of a run: its header, and the envelope in use while its bits are computed. -/
structure Round where
  envelope : Kimoto.Envelope
  candidate : Header

namespace Segment
variable {store : RuleStore} {limit : Nat} {c : Segment}

/-- The bits demanded of the next block; nothing is demanded on top of no block. -/
def demand? (store : RuleStore) (c : Segment) (round : Round) : Option CompactTarget :=
  c.tip?.map fun tip =>
    requiredBits round.envelope c.predecessor tip round.candidate (store.get tip.nextHeight)

/-- Appends a block with the time of the candidate and the bits demanded of it. -/
def extend (store : RuleStore) (c : Segment) (round : Round) : Segment :=
  match c.demand? store round with
  | none => c
  | some bits => c.push round.candidate.time bits

def extendAll (store : RuleStore) (c : Segment) (rounds : List Round) : Segment :=
  rounds.foldl (extend store) c

/-- The invariant of a run: there is a tip, and all entries have bits within the limit. -/
structure WithinLimit (limit : Nat) (c : Segment) : Prop where
  nonempty : c.size ≠ 0
  entries : ∀ e ∈ c.entries, e.bits.Within limit

theorem WithinLimit.tip (hc : c.WithinLimit limit) : ∃ tip, c.tip? = some tip := by
  have hne : c.entries ≠ #[] := fun h => hc.nonempty (by simp [size, h])
  exact Option.isSome_iff_exists.mp (Array.back?_isSome.mpr hne)

theorem WithinLimit.demand (hs : store.OneLimit limit) (hc : c.WithinLimit limit) (round : Round) :
    ∃ bits, c.demand? store round = some bits ∧ bits.Within limit := by
  obtain ⟨tip, htip⟩ := hc.tip
  refine ⟨_, congrArg _ htip, ?_⟩
  exact requiredBits_within (hs.workLimit_eq _ (store.get_mem _)) hs.limit_lt
    (hc.entries _ (mem_of_tip? htip)) (fun h => hc.entries _ (mem_of_predecessor h)) _ _

theorem WithinLimit.push (hc : c.WithinLimit limit) (time : UInt32) {bits : CompactTarget}
    (hbits : bits.Within limit) : (c.push time bits).WithinLimit limit where
  nonempty := by simp
  entries e he := by
    rcases Array.mem_push.mp he with he | rfl
    · exact hc.entries e he
    · exact hbits

theorem WithinLimit.extend (hs : store.OneLimit limit) (hc : c.WithinLimit limit) (round : Round) :
    (c.extend store round).WithinLimit limit := by
  obtain ⟨bits, hdemand, hbits⟩ := hc.demand hs round
  rw [Segment.extend, hdemand]
  exact hc.push _ hbits

theorem WithinLimit.extendAll (hs : store.OneLimit limit) (hc : c.WithinLimit limit)
    (rounds : List Round) : (c.extendAll store rounds).WithinLimit limit := by
  induction rounds generalizing c with
  | nil => exact hc
  | cons round rounds ih => exact ih (hc.extend hs round)

end Segment

/-- Every run of every length that starts within the limit goes on within it: after any rounds the
next one is asked for bits that decode without flags to at most the limit, so a check of work never
rejects them as negative, overflowing or above the limit. -/
theorem demands_within_limit_on_every_run :
    (∀ n : Network, ∃ limit, n.rules.OneLimit limit) ∧
    ∀ (store : RuleStore) (limit : Nat), store.OneLimit limit →
    ∀ c : Segment, c.WithinLimit limit → ∀ (rounds : List Round) (next : Round),
    ∃ bits, (c.extendAll store rounds).demand? store next = some bits ∧ bits.Within limit ∧
      ∀ (digest : Digest), ∀ rules ∈ store.ruleSets,
        WorkVerdict.of digest bits rules ≠ .negativeTarget ∧
        WorkVerdict.of digest bits rules ≠ .overflowTarget ∧
        WorkVerdict.of digest bits rules ≠ .aboveLimit := by
  refine ⟨Network.rules_oneLimit, fun store limit hs c hc rounds next => ?_⟩
  obtain ⟨bits, hdemand, hbits⟩ := (hc.extendAll hs rounds).demand hs next
  refine ⟨bits, hdemand, hbits, fun digest rules hmem => ?_⟩
  exact hbits.verdict (hs.workLimit_eq rules hmem) digest

/-- Across the second fork of the main network, with an envelope that stops at every other block
and times that run backwards. -/
theorem demands_within_limit_across_fork2 :
    let limit := Network.limitOfBits 236
    let c := (Segment.startingAt 199998).push 1500000000 ⟨0x1e0fffff⟩
    let round (time : UInt32) : Round :=
      ⟨fun mass _ _ => mass % 2 == 0, .candidate (.unhashed 0 0 ⟨0⟩) time⟩
    Network.main.rules.OneLimit limit ∧ c.WithinLimit limit ∧
    ∃ bits, (c.extendAll Network.main.rules [round 1500000040, round 0]).demand?
        Network.main.rules (round 4294967295) = some bits ∧ bits.Within limit := by
  intro limit c round
  have hs : Network.main.rules.OneLimit limit := ⟨by decide, by decide, by decide⟩
  have hc : c.WithinLimit limit := by
    refine ⟨by decide, fun e he => ?_⟩
    rcases Array.mem_push.mp he with he | rfl
    · exact absurd he (Array.not_mem_empty e)
    · exact ⟨by decide, by decide, by decide⟩
  obtain ⟨bits, hdemand, hbits, _⟩ := demands_within_limit_on_every_run.2 _ limit hs c hc
    [round 1500000040, round 0] (round 4294967295)
  exact ⟨hs, hc, bits, hdemand, hbits⟩

end PowConsensus
