import PowConsensus.Proofs.Chain.Access
import PowConsensus.Proofs.Retarget.Windows
import PowConsensus.Proofs.Rules.Lookup

/-! # How much history the required bits depend on

Each algorithm reads entries downwards from the tip, so it can only tell two chains apart by what
they hold at some count of heights below the tip. The count is known beforehand from the rules and
the height of the tip. Both sampling loops look up one entry more than they sample, and do nothing
with it.
-/
namespace PowConsensus
open Segment (AgreeBelow)

variable {rules : RuleSet} {c₁ c₂ : Segment} {e tip : ChainEntry}

theorem ChainEntry.ancestor_agree {steps : Nat} (h : AgreeBelow c₁ c₂ e.height.toNat steps) :
    e.ancestor c₁.predecessor steps = e.ancestor c₂.predecessor steps := by
  induction steps generalizing e with
  | zero => rfl
  | succ steps ih =>
    rw [ancestor, ancestor, ← h.predecessor]
    cases hp : c₁.predecessor e with
    | none => rfl
    | some parent =>
      dsimp only
      rw [ih (h.step hp)]

theorem windowStart?_agree {blocks : Int} (h : AgreeBelow c₁ c₂ tip.height.toNat blocks.toNat) :
    windowStart? c₁.predecessor tip blocks = windowStart? c₂.predecessor tip blocks := by
  simp only [windowStart?, ChainEntry.ancestor_agree (h.mono (Nat.min_le_left _ _))]

/-- One step down from a height that is not a multiple of `n`. -/
theorem mod_succ_of_ne_zero {m n : Nat} (h0 : (m + 1) % n ≠ 0) : (m + 1) % n = m % n + 1 := by
  have hmod : (m + 1) % n = (m % n + 1) % n := by rw [Nat.mod_add_mod]
  by_cases hn : n = 0
  · simp [hn]
  · have hlt := Nat.mod_lt m (Nat.pos_of_ne_zero hn)
    have hne : m % n + 1 ≠ n := fun h => h0 (by rw [hmod, h, Nat.mod_self])
    rw [hmod, Nat.mod_eq_of_lt (by omega)]

/-- The walk stops at a multiple of the interval at the latest. -/
theorem ordinaryBits_agree {interval : Nat}
    (h : AgreeBelow c₁ c₂ e.height.toNat (e.height.toNat % interval)) (ceiling : CompactTarget)
    (fuel : Nat) : ordinaryBits c₁.predecessor interval ceiling fuel e =
      ordinaryBits c₂.predecessor interval ceiling fuel e := by
  induction fuel generalizing e with
  | zero => rfl
  | succ fuel ih =>
    rw [ordinaryBits, ordinaryBits, ← Int.ofNat_tmod]
    split
    next hwalk =>
      have h0 : e.height.toNat % interval ≠ 0 := by omega
      obtain ⟨width, hwidth⟩ := Nat.exists_eq_succ_of_ne_zero h0
      rw [hwidth] at h
      rw [← h.predecessor]
      cases hp : c₁.predecessor e with
      | none => rfl
      | some parent =>
        have hheight := Segment.height_of_predecessor hp
        rw [← hheight] at h0 hwidth
        rw [mod_succ_of_ne_zero h0] at hwidth
        exact ih ((h.step hp).mono (by omega))
    next => rfl

theorem DarkGravity.gather_agree {more : Nat} (h : AgreeBelow c₁ c₂ e.height.toNat more)
    (s : DarkGravity.Sample) :
    gather c₁.predecessor (more + 1) e s = gather c₂.predecessor (more + 1) e s := by
  induction more generalizing e s with
  | zero =>
    -- The last entry is sampled whether or not it has a predecessor.
    have hlast (index : ChainIndex) : gather index 1 e s = if e.height = 0 then s else s.add e := by
      simp only [gather]
      split
      · rfl
      · cases index e <;> rfl
    rw [hlast, hlast]
  | succ more ih =>
    rw [gather, gather, ← h.predecessor]
    split
    · rfl
    · cases hp : c₁.predecessor e with
      | none => rfl
      | some parent => exact ih (h.step hp) _

/-- A sample that fills the long window takes no more entries. -/
theorem Kimoto.gather_of_full {envelope : Kimoto.Envelope} {s : Kimoto.Sample}
    (hmax : 0 < maxBlocks rules) (hfull : maxBlocks rules ≤ s.mass) (index : ChainIndex)
    (fuel : Nat) : gather envelope index tip rules fuel e s = s := by
  cases fuel with
  | zero => rfl
  | succ fuel =>
    rw [gather]
    split
    · rfl
    · exact if_pos ⟨hmax, Nat.lt_succ_of_le hfull⟩

theorem Kimoto.gather_agree {envelope : Kimoto.Envelope} {s : Kimoto.Sample}
    (hmax : 0 < maxBlocks rules)
    (h : AgreeBelow c₁ c₂ e.height.toNat (maxBlocks rules - 1 - s.mass)) (fuel : Nat) :
    gather envelope c₁.predecessor tip rules fuel e s =
      gather envelope c₂.predecessor tip rules fuel e s := by
  induction fuel generalizing e s with
  | zero => rfl
  | succ fuel ih =>
    rw [gather, gather]
    split
    · rfl
    split
    · rfl
    next hroom =>
    dsimp only
    split
    · rfl
    by_cases hlast : maxBlocks rules ≤ s.mass + 1
    · have hfull (index : ChainIndex) (parent : ChainEntry) :
          gather envelope index tip rules fuel parent (s.add tip e rules.spacing) =
            s.add tip e rules.spacing := gather_of_full hmax hlast index fuel
      cases c₁.predecessor e <;> cases c₂.predecessor e <;> simp only [hfull]
    · obtain ⟨width, hwidth⟩ : ∃ width, maxBlocks rules - 1 - s.mass = width + 1 :=
        ⟨maxBlocks rules - 2 - s.mass, by omega⟩
      rw [hwidth] at h
      rw [← h.predecessor]
      cases hp : c₁.predecessor e with
      | none => rfl
      | some parent => exact ih ((h.step hp).mono (by simp only [Sample.add]; omega))

theorem RuleSet.interval_pos (hspacing : 0 < rules.spacing)
    (htimespan : rules.spacing ≤ rules.timespan) : 0 < rules.interval :=
  (interval_pos_iff hspacing).mpr htimespan

namespace DigiShield

theorem spacing_pos (hspacing : 0 < rules.spacing) (next : UInt32) : 0 < spacing rules next := by
  unfold spacing
  split
  · decide
  · split
    · decide
    · exact hspacing

theorem requiredBits_agree (hspacing : 0 < rules.spacing)
    (h : AgreeBelow c₁ c₂ tip.height.toNat 1) :
    requiredBits c₁.predecessor tip rules = requiredBits c₂.predecessor tip rules := by
  have hpos : 0 < spacing rules tip.nextHeight := spacing_pos hspacing tip.nextHeight
  have hlookback : (lookback tip rules).toNat ≤ 1 := by
    rw [lookback, interval_of_spacing hpos]
    split <;> decide
  have hstart : windowStart? c₁.predecessor tip rules = windowStart? c₂.predecessor tip rules :=
    windowStart?_agree (h.mono hlookback)
  simp only [requiredBits, isDue_of_spacing hpos, ↓reduceIte, hstart]

end DigiShield

theorem DarkGravity.requiredBits_agree (h : AgreeBelow c₁ c₂ tip.height.toNat 23) :
    requiredBits c₁.predecessor tip rules = requiredBits c₂.predecessor tip rules := by
  simp only [requiredBits, sample, window, gather_agree h]

theorem Kimoto.requiredBits_agree {envelope : Kimoto.Envelope} (hmax : 0 < maxBlocks rules)
    (h : AgreeBelow c₁ c₂ tip.height.toNat (maxBlocks rules - 1)) :
    requiredBits envelope c₁.predecessor tip rules =
      requiredBits envelope c₂.predecessor tip rules := by
  simp only [requiredBits, sample, gather_agree (s := .none) hmax h]

namespace Legacy

/-- Heights that the periodic retarget looks at below the tip. -/
def historyWidth (tip : ChainEntry) (rules : RuleSet) : Nat :=
  if isDue tip rules then (lookback tip rules).toNat
  else tip.height.toNat % rules.interval.toNat

theorem requiredBits_agree (hinterval : 0 < rules.interval) (time : UInt32)
    (h : AgreeBelow c₁ c₂ tip.height.toNat (historyWidth tip rules)) :
    requiredBits c₁.predecessor tip time rules = requiredBits c₂.predecessor tip time rules := by
  unfold requiredBits
  rw [historyWidth] at h
  split
  next hdue =>
    rw [if_pos hdue] at h
    have hstart : windowStart? c₁.predecessor tip rules = windowStart? c₂.predecessor tip rules :=
      windowStart?_agree h
    rw [hstart]
  next hdue =>
    rw [if_neg hdue] at h
    have hcast : (rules.interval.toNat : Int) = rules.interval := Int.toNat_of_nonneg (by omega)
    have hwalk := ordinaryBits_agree h rules.workLimitBits tip.height.toNat
    rw [hcast] at hwalk
    simp only [bitsBetween, lastOrdinaryBits, hwalk]

end Legacy

/-- How many heights below the tip the required bits depend on. -/
def historyWidth (tip : ChainEntry) (rules : RuleSet) : Nat :=
  match RetargetAlgorithm.select rules tip.nextHeight with
  | .noRetarget => 0
  | .fork2Pause => 0
  | .darkGravityWave => 23
  | .digiShield => 1
  | .kimotoGravityWell => Kimoto.maxBlocks rules - 1
  | .legacy => Legacy.historyWidth tip rules

theorem requiredBits_agree (hspacing : 0 < rules.spacing)
    (htimespan : rules.spacing ≤ rules.timespan)
    (hbounded : RetargetAlgorithm.select rules tip.nextHeight = .kimotoGravityWell →
      0 < Kimoto.maxBlocks rules)
    (h : AgreeBelow c₁ c₂ tip.height.toNat (historyWidth tip rules))
    (envelope : Kimoto.Envelope) (candidate : Header) :
    requiredBits envelope c₁.predecessor tip candidate rules =
      requiredBits envelope c₂.predecessor tip candidate rules := by
  unfold requiredBits
  unfold historyWidth at h
  cases hs : RetargetAlgorithm.select rules tip.nextHeight with
  | noRetarget => rfl
  | fork2Pause => rfl
  | darkGravityWave =>
    rw [hs] at h
    exact DarkGravity.requiredBits_agree h
  | digiShield =>
    rw [hs] at h
    exact DigiShield.requiredBits_agree hspacing h
  | kimotoGravityWell =>
    rw [hs] at h
    exact Kimoto.requiredBits_agree (hbounded hs) h
  | legacy =>
    rw [hs] at h
    exact Legacy.requiredBits_agree (RuleSet.interval_pos hspacing htimespan) _ h

/-- Chains that agree at `historyWidth` heights below the tip require the same bits. So blocks
pushed at or above the height of the tip do not matter, and neither do entries of a headers file
that are older than that. -/
theorem requiredBits_depend_on_bounded_history (rules : RuleSet) (tip : ChainEntry)
    (hspacing : 0 < rules.spacing) (htimespan : rules.spacing ≤ rules.timespan)
    (hbounded : RetargetAlgorithm.select rules tip.nextHeight = .kimotoGravityWell →
      0 < Kimoto.maxBlocks rules) (envelope : Kimoto.Envelope) (candidate : Header) :
    (∀ c₁ c₂ : Segment, AgreeBelow c₁ c₂ tip.height.toNat (historyWidth tip rules) →
      requiredBits envelope c₁.predecessor tip candidate rules =
        requiredBits envelope c₂.predecessor tip candidate rules) ∧
    (∀ (c : Segment) (blocks : List (UInt32 × CompactTarget)),
      tip.height.toNat ≤ c.base.toNat + c.size →
      requiredBits envelope (c.pushAll blocks).predecessor tip candidate rules =
        requiredBits envelope c.predecessor tip candidate rules) ∧
    (∀ (entries : List ChainEntry) (c : Segment) (older : Nat),
      Segment.ofEntries? entries = some c →
      (∀ e ∈ entries.take older, e.height.toNat + historyWidth tip rules < tip.height.toNat) →
      ∃ recent, Segment.ofEntries? (entries.drop older) = some recent ∧
        requiredBits envelope recent.predecessor tip candidate rules =
          requiredBits envelope c.predecessor tip candidate rules) := by
  have hagree (c₁ c₂ : Segment) (h : AgreeBelow c₁ c₂ tip.height.toNat (historyWidth tip rules)) :=
    requiredBits_agree hspacing htimespan hbounded h envelope candidate
  refine ⟨hagree, fun c blocks hpush => ?_, fun entries c older hc hold => ?_⟩
  · apply hagree
    intro h hlt _
    exact Segment.get?_pushAll_of_lt (by omega) blocks
  · obtain ⟨recent, hrecent⟩ := Segment.ofEntries?_drop hc older
    refine ⟨recent, hrecent, hagree recent c ?_⟩
    intro h _ hwidth
    apply Segment.get?_drop hc hrecent
    rintro e he rfl
    have := hold e he
    omega

/-- One entry below the tip is all that a tip of the main network after the second fork needs. -/
theorem requiredBits_depend_on_parent_after_fork2 :
    let rules := Network.mainRules[0]
    let parent := ChainEntry.unhashed 250000 1500000000 ⟨0x1b0404cb⟩
    let tip := ChainEntry.unhashed 250001 1500000100 ⟨0x1b0500a0⟩
    let older := ChainEntry.unhashed 249999 4000000000 ⟨0x1e0fffff⟩
    0 < rules.spacing ∧ rules.spacing ≤ rules.timespan ∧ historyWidth tip rules = 1 ∧
    ∃ c recent, Segment.ofEntries? [older, parent, tip] = some c ∧
      Segment.ofEntries? [parent, tip] = some recent ∧
      requiredBits Kimoto.standardEnvelope recent.predecessor tip (.candidate tip 0) rules =
        requiredBits Kimoto.standardEnvelope c.predecessor tip (.candidate tip 0) rules := by
  intro rules parent tip older
  have hspacing : 0 < rules.spacing := by decide
  have htimespan : rules.spacing ≤ rules.timespan := by decide
  have hwidth : historyWidth tip rules = 1 := by decide
  have hconsecutive : (Segment.ofEntries? [older, parent, tip]).isSome := by decide
  obtain ⟨c, hc⟩ := Option.isSome_iff_exists.mp hconsecutive
  obtain ⟨recent, hrecent, heq⟩ := (requiredBits_depend_on_bounded_history rules tip hspacing
    htimespan (fun _ => by decide) Kimoto.standardEnvelope (.candidate tip 0)).2.2
    [older, parent, tip] c 1 hc (by decide)
  exact ⟨hspacing, htimespan, hwidth, c, recent, hc, hrecent, heq⟩

end PowConsensus
