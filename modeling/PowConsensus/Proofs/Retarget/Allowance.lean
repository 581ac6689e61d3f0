import PowConsensus.Network.Rules
import PowConsensus.Proofs.Chain.Growth
import PowConsensus.Proofs.Chain.Walk
import PowConsensus.Proofs.Retarget.History

/-! # The allowance for stalled chains

Where the rules help a stalled chain, a late block may carry the ceiling. The bits in force are
looked for behind such blocks, back to the last retarget at the latest, so a run of them between two
retargets does not make the next timely block easier.
-/
namespace PowConsensus
variable {rules : RuleSet} {index : ChainIndex} {c : Segment} {e parent tip found : ChainEntry}
variable {interval : Int} {ceiling : CompactTarget}

/-- The first block that passes, from `e` over predecessors, and the number of steps to it. -/
inductive FirstBehind (index : ChainIndex) (P : ChainEntry → Prop) :
    ChainEntry → Nat → ChainEntry → Prop
  | here {e : ChainEntry} : P e → FirstBehind index P e 0 e
  | behind {e parent found : ChainEntry} {steps : Nat} : ¬ P e → index e = some parent →
      FirstBehind index P parent steps found → FirstBehind index P e (steps + 1) found

/-- What ends a search for the bits in force: a height of a retarget, bits of no allowance, or
nothing known behind. -/
def EndsSearch (index : ChainIndex) (interval : Int) (ceiling : CompactTarget)
    (e : ChainEntry) : Prop :=
  interval ∣ (e.height.toNat : Int) ∨ e.bits ≠ ceiling ∨ index e = none

section Search

theorem ordinaryBits_of_ends (h : EndsSearch index interval ceiling e) (fuel : Nat) :
    ordinaryBits index interval ceiling fuel e = e.bits := by
  cases fuel with
  | zero => rfl
  | succ fuel =>
    rcases h with hdvd | hbits | hnone
    · exact if_neg fun hwalk => hwalk.1 (Int.tmod_eq_zero_of_dvd hdvd)
    · exact if_neg fun hwalk => hbits hwalk.2
    · rw [ordinaryBits, hnone]
      exact ite_self _

theorem ordinaryBits_succ (hheight : ¬ interval ∣ (e.height.toNat : Int)) (hbits : e.bits = ceiling)
    (hparent : index e = some parent) (fuel : Nat) :
    ordinaryBits index interval ceiling (fuel + 1) e =
      ordinaryBits index interval ceiling fuel parent := by
  have hmod : (e.height.toNat : Int).tmod interval ≠ 0 :=
    fun h0 => hheight (Int.dvd_of_tmod_eq_zero h0)
  rw [ordinaryBits, if_pos ⟨hmod, hbits⟩, hparent]

theorem FirstBehind.ordinaryBits_eq {steps : Nat}
    (h : FirstBehind index (EndsSearch index interval ceiling) e steps found) {fuel : Nat}
    (hfuel : steps ≤ fuel) : ordinaryBits index interval ceiling fuel e = found.bits := by
  induction h generalizing fuel with
  | here hends => exact ordinaryBits_of_ends hends fuel
  | behind hgoes hparent _ ih =>
    obtain ⟨more, rfl⟩ : ∃ more, fuel = more + 1 := Nat.exists_eq_add_one.mpr (by omega)
    have hheight : ¬ interval ∣ _ := fun hdvd => hgoes (Or.inl hdvd)
    have hbits : _ = ceiling := Classical.not_not.mp fun hne => hgoes (Or.inr (Or.inl hne))
    rw [ordinaryBits_succ hheight hbits hparent]
    exact ih (by omega)

/-- Over a segment the heights go down by one, so that the search is over at the last multiple of
the interval. -/
theorem exists_firstBehind (c : Segment) (interval : Nat) (ceiling : CompactTarget)
    (e : ChainEntry) : ∃ steps found, steps ≤ e.height.toNat % interval ∧
      FirstBehind c.predecessor (EndsSearch c.predecessor interval ceiling) e steps found := by
  -- The parent is as much closer to that multiple as the search has steps left.
  induction hleft : e.height.toNat % interval generalizing e with
  | zero =>
    have hdvd : (interval : Int) ∣ e.height.toNat :=
      Int.natCast_dvd_natCast.mpr (Nat.dvd_of_mod_eq_zero hleft)
    exact ⟨0, e, Nat.le_refl 0, .here (Or.inl hdvd)⟩
  | succ left ih =>
    by_cases hends : EndsSearch c.predecessor interval ceiling e
    · exact ⟨0, e, Nat.zero_le _, .here hends⟩
    · obtain ⟨parent, hparent⟩ : ∃ parent, c.predecessor e = some parent :=
        Option.ne_none_iff_exists'.mp fun hnone => hends (Or.inr (Or.inr hnone))
      have hheight := Segment.height_of_predecessor hparent
      have hmod : (parent.height.toNat + 1) % interval ≠ 0 := by
        rw [hheight, hleft]
        exact Nat.succ_ne_zero left
      have hparentLeft : parent.height.toNat % interval = left := by
        have hsucc := mod_succ_of_ne_zero hmod
        rw [hheight, hleft] at hsucc
        exact (Nat.succ.inj hsucc).symm
      obtain ⟨steps, found, hsteps, hfound⟩ := ih parent hparentLeft
      exact ⟨steps + 1, found, Nat.succ_le_succ hsteps, .behind hends hparent hfound⟩

end Search

section Pushing

theorem Segment.Fits.base_add_size (hfits : c.Fits) (htip : c.tip? = some tip) :
    c.base.toNat + c.size = tip.height.toNat + 1 := by
  have hne := size_ne_zero_of_tip? htip
  rw [tip?, Array.back?_eq_getElem?] at htip
  have hheight := hfits.height_of_getElem? htip
  unfold size at hne ⊢
  omega

theorem Segment.Fits.height_nextEntry (hfits : c.Fits) (htip : c.tip? = some tip)
    (hroom : tip.height.toNat + 1 < UInt32.size) (time : UInt32) (bits : CompactTarget) :
    (c.nextEntry time bits).height.toNat = tip.height.toNat + 1 := by
  rw [← hfits.base_add_size htip] at hroom ⊢
  exact toNat_nextHeight hroom

/-- A block at the ceiling, at a height of no retarget, leaves the bits in force. -/
theorem lastOrdinaryBits_push {interval : Nat} (hfits : c.Fits) (htip : c.tip? = some tip)
    (hroom : tip.height.toNat + 1 < UInt32.size) (hheight : ¬ interval ∣ tip.height.toNat + 1)
    (time : UInt32) :
    lastOrdinaryBits (c.push time ceiling).predecessor (c.nextEntry time ceiling) interval ceiling =
      lastOrdinaryBits c.predecessor tip interval ceiling := by
  have hnext := hfits.base_add_size htip
  have hpushed := hfits.height_nextEntry htip hroom time ceiling
  have hheld : (c.push time ceiling).Holds tip := by
    rw [Segment.Holds, Segment.get?_push_of_lt (by omega)]
    exact hfits.holds_iff_mem.mpr (Segment.mem_of_tip? htip)
  have hparent : (c.push time ceiling).predecessor (c.nextEntry time ceiling) = some tip :=
    hheld.predecessor_eq hpushed.symm
  have hquiet : ¬ (interval : Int) ∣ (c.nextEntry time ceiling).height.toNat := by
    rw [hpushed, Int.natCast_dvd_natCast]
    exact hheight
  have hbits : (c.nextEntry time ceiling).bits = ceiling := rfl
  have hagree : Segment.AgreeBelow (c.push time ceiling) c tip.height.toNat
      (tip.height.toNat % interval) :=
    fun height hlt _ => Segment.get?_push_of_lt (by omega) time ceiling
  rw [lastOrdinaryBits, hpushed, ordinaryBits_succ hquiet hbits hparent]
  exact ordinaryBits_agree hagree ceiling _

/-- So does a run of such blocks. -/
theorem lastOrdinaryBits_pushAll {interval : Nat} (hfits : c.Fits) (htip : c.tip? = some tip)
    (ceiling : CompactTarget) (times : List UInt32)
    (hroom : tip.height.toNat + times.length < UInt32.size)
    (hquiet : ∀ n, tip.height.toNat < n → n ≤ tip.height.toNat + times.length → ¬ interval ∣ n) :
    let grown := c.pushAll (times.map fun time => (time, ceiling))
    ∃ last, grown.tip? = some last ∧
      last.height.toNat = tip.height.toNat + times.length ∧
      lastOrdinaryBits grown.predecessor last interval ceiling =
        lastOrdinaryBits c.predecessor tip interval ceiling := by
  induction times generalizing c tip with
  | nil => exact ⟨tip, htip, rfl, rfl⟩
  | cons time times ih =>
    rw [List.length_cons] at hroom hquiet
    have hnext := hfits.base_add_size htip
    have hpushed := hfits.height_nextEntry htip (by omega) time ceiling
    obtain ⟨last, hlast, hheight, hbits⟩ := ih
      (Segment.fits_push (by omega) time ceiling) (Segment.tip?_push c time ceiling)
      (by omega) (fun n hlow hhigh => hquiet n (by omega) (by omega))
    refine ⟨last, hlast, by rw [hheight, hpushed, List.length_cons]; omega, hbits.trans ?_⟩
    exact lastOrdinaryBits_push hfits htip (by omega) (hquiet _ (by omega) (by omega)) time

end Pushing

/-- A height of the periodic era at which no retarget is due. -/
def BetweenRetargets (rules : RuleSet) (height : Nat) : Prop :=
  ∃ next : UInt32, next.toNat = height ∧ RetargetAlgorithm.select rules next = .legacy ∧
    ¬ rules.interval ∣ (height : Int)

namespace BetweenRetargets
variable {height : Nat}

theorem lt (h : BetweenRetargets rules height) : height < UInt32.size := by
  obtain ⟨next, rfl, -⟩ := h
  exact next.toNat_lt

/-- There a candidate that is not late is asked for the bits in force. -/
theorem requiredBits_eq (h : BetweenRetargets rules (tip.height.toNat + 1))
    (hallow : rules.allowMinDifficulty = true) (envelope : Kimoto.Envelope) (candidate : Header)
    (htimely : (candidate.time.toNat : Int) ≤ tip.time.toNat + rules.spacing * 90) :
    requiredBits envelope index tip candidate rules =
      lastOrdinaryBits index tip rules.interval rules.workLimitBits := by
  obtain ⟨next, hheight, hera, hquiet⟩ := h
  have hlt := next.toNat_lt
  have hnext : tip.nextHeight.toNat = tip.height.toNat + 1 := by
    have hsaturated := tip.toNat_nextHeight
    simp only [UInt32.size] at hsaturated
    omega
  have hsame : tip.nextHeight = next := UInt32.toNat_inj.mp (hnext.trans hheight.symm)
  have hundue : ¬ Legacy.isDue tip rules = true := by
    rw [Legacy.isDue_iff, hnext]
    exact hquiet
  calc requiredBits envelope index tip candidate rules
    _ = Legacy.requiredBits index tip candidate.time rules := requiredBits_of_select (hsame ▸ hera)
    _ = _ := Legacy.requiredBits_of_timely hundue htimely
    _ = _ := if_pos hallow

end BetweenRetargets

/-- Easy blocks between two retargets leave the difficulty. The bits in force are those of the first
block, from the tip back, that ends the search, and there are no more steps to it than blocks since
the last multiple of the interval. Hence after blocks at the ceiling, as many and at such times as
may be, a candidate that is not late is asked for the bits that one was asked for before them. -/
theorem easy_blocks_keep_bits_between_retargets (rules : RuleSet) (hspacing : 0 < rules.spacing)
    (hle : rules.spacing ≤ rules.timespan) (hallow : rules.allowMinDifficulty = true)
    (c : Segment) (tip : ChainEntry) :
    (∃ steps found, steps ≤ tip.height.toNat % rules.interval.toNat ∧
      FirstBehind c.predecessor (EndsSearch c.predecessor rules.interval rules.workLimitBits)
        tip steps found ∧
      lastOrdinaryBits c.predecessor tip rules.interval rules.workLimitBits = found.bits) ∧
    (c.Fits → c.tip? = some tip → ∀ times : List UInt32,
      (∀ n, tip.height.toNat < n → n ≤ tip.height.toNat + times.length + 1 →
        BetweenRetargets rules n) →
      let grown := c.pushAll (times.map fun time => (time, rules.workLimitBits))
      ∃ last, grown.tip? = some last ∧
        last.height.toNat = tip.height.toNat + times.length ∧
        ∀ envelope before after,
          (before.time.toNat : Int) ≤ tip.time.toNat + rules.spacing * 90 →
          (after.time.toNat : Int) ≤ last.time.toNat + rules.spacing * 90 →
          requiredBits envelope grown.predecessor last after rules =
            requiredBits envelope c.predecessor tip before rules) := by
  have hpos : 0 < rules.interval := RuleSet.interval_pos hspacing hle
  obtain ⟨interval, hinterval⟩ := Int.eq_ofNat_of_zero_le (Int.le_of_lt hpos)
  refine ⟨?_, fun hfits htip times hquiet => ?_⟩
  · rw [hinterval, Int.toNat_natCast]
    obtain ⟨steps, found, hsteps, hfound⟩ :=
      exists_firstBehind c interval rules.workLimitBits tip
    have hfuel : steps ≤ tip.height.toNat := Nat.le_trans hsteps (Nat.mod_le _ _)
    exact ⟨steps, found, hsteps, hfound, hfound.ordinaryBits_eq hfuel⟩
  · have hroom := (hquiet (tip.height.toNat + times.length + 1) (by omega) (by omega)).lt
    have hundue (n : Nat) (hlow : tip.height.toNat < n)
        (hhigh : n ≤ tip.height.toNat + times.length) : ¬ interval ∣ n := by
      obtain ⟨_, _, _, hne⟩ := hquiet n hlow (by omega)
      rwa [hinterval, Int.natCast_dvd_natCast] at hne
    obtain ⟨last, hlast, hheight, hbits⟩ :=
      lastOrdinaryBits_pushAll hfits htip rules.workLimitBits times (by omega) hundue
    refine ⟨last, hlast, hheight, fun envelope before after hbefore hafter => ?_⟩
    have hold := hquiet (tip.height.toNat + 1) (by omega) (by omega)
    have hnew := hquiet (last.height.toNat + 1) (by omega) (by omega)
    rw [hold.requiredBits_eq hallow envelope before hbefore,
      hnew.requiredBits_eq hallow envelope after hafter, hinterval, hbits]

/-- Five easy blocks on the main network, were the allowance in force there. -/
theorem easy_blocks_keep_bits_between_retargets_five_times :
    let rules := { Network.mainRules[0] with allowMinDifficulty := true }
    let c := (Segment.startingAt 60).pushAll <|
      [1400000000, 1400000040, 1400000080].map (·, ⟨0x1c1a1206⟩)
    let tip := ChainEntry.unhashed 62 1400000080 ⟨0x1c1a1206⟩
    let times : List UInt32 := [1400009000, 0, 4294967295, 1400009100, 1400009200]
    let grown := c.pushAll (times.map (·, rules.workLimitBits))
    c.Fits ∧ c.tip? = some tip ∧ (∀ n, 62 < n → n ≤ 68 → BetweenRetargets rules n) ∧
      ∃ last, grown.tip? = some last ∧ last.height.toNat = 67 ∧
        ∀ envelope after, (after.time.toNat : Int) ≤ last.time.toNat + 3600 →
          requiredBits envelope grown.predecessor last after rules = ⟨0x1c1a1206⟩ := by
  intro rules c tip times grown
  have hfits : c.Fits := by decide
  have htip : c.tip? = some tip := by decide
  have hquiet (n : Nat) (hlow : 62 < n) (hhigh : n ≤ 68) : BetweenRetargets rules n := by
    have hsize : n < UInt32.size := Nat.lt_of_le_of_lt hhigh (by decide)
    have hnext : (UInt32.ofNat n).toNat = n := UInt32.toNat_ofNat_of_lt' hsize
    have hall : ∀ m, m < 69 → 62 < m → RetargetAlgorithm.select rules (UInt32.ofNat m) = .legacy ∧
        ¬ rules.interval ∣ (m : Int) := by decide
    exact ⟨UInt32.ofNat n, hnext, hall n (by omega) hlow⟩
  obtain ⟨-, hgrow⟩ := easy_blocks_keep_bits_between_retargets rules (by decide) (by decide) rfl
    c tip
  obtain ⟨last, hlast, hheight, hbits⟩ := hgrow hfits htip times hquiet
  have hera : RetargetAlgorithm.select rules tip.nextHeight = .legacy := by decide
  have hbefore : Legacy.requiredBits c.predecessor tip 1400000120 rules = ⟨0x1c1a1206⟩ := by
    decide
  refine ⟨hfits, htip, hquiet, last, hlast, hheight, fun envelope after hafter => ?_⟩
  rw [hbits envelope (.candidate tip 1400000120) after (by decide) hafter]
  exact (requiredBits_of_select hera).trans hbefore

/-- Heights that went on at zero after the largest one are not found below the base, so that an easy
block is the last one known and its bits are asked for again. -/
theorem easy_block_past_largest_height_resets_bits :
    let rules := { Network.mainRules[0] with allowMinDifficulty := true }
    let c := (Segment.startingAt 4294967295).pushAll <|
      [1400000000, 1400000040, 1400000080].map (·, ⟨0x1c1a1206⟩)
    let tip := ChainEntry.unhashed 1 1400000080 ⟨0x1c1a1206⟩
    let grown := c.push 1400000120 rules.workLimitBits
    let last := ChainEntry.unhashed 2 1400000120 rules.workLimitBits
    c.tip? = some tip ∧ grown.tip? = some last ∧
      BetweenRetargets rules 2 ∧ BetweenRetargets rules 3 ∧ ∀ envelope,
      requiredBits envelope c.predecessor tip (.candidate tip 1400000120) rules = ⟨0x1c1a1206⟩ ∧
      requiredBits envelope grown.predecessor last (.candidate last 1400000160) rules =
        ⟨0x1e0fffff⟩ := by
  intro rules c tip grown last
  have hsecond : BetweenRetargets rules 2 := ⟨2, by decide⟩
  have hthird : BetweenRetargets rules 3 := ⟨3, by decide⟩
  have hera : RetargetAlgorithm.select rules tip.nextHeight = .legacy := by decide
  have hlast : RetargetAlgorithm.select rules last.nextHeight = .legacy := by decide
  have hbefore : Legacy.requiredBits c.predecessor tip 1400000120 rules = ⟨0x1c1a1206⟩ := by
    decide
  have hafter : Legacy.requiredBits grown.predecessor last 1400000160 rules = ⟨0x1e0fffff⟩ := by
    decide
  exact ⟨by decide, by decide, hsecond, hthird, fun envelope =>
    ⟨(requiredBits_of_select hera).trans hbefore, (requiredBits_of_select hlast).trans hafter⟩⟩

end PowConsensus
