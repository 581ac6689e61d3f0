import Mathlib.Order.Monotone.Basic
import PowConsensus.Network.Rules
import PowConsensus.Proofs.Retarget.Averages
import PowConsensus.Proofs.Retarget.Rounds

/-! # The running average of Kimoto Gravity Well

A target that is not below the running average moves it up by a share of the difference, and no
further than that target. The first target below it makes the difference wrap, and a share of almost
the whole modulus takes the average far above any target. It only climbs from there, always by a
share of what is left below the modulus, and so it never wraps back.
-/
namespace PowConsensus.Kimoto
variable {tip e : ChainEntry} {spacing : Int} {blocks : List ChainEntry} {limit high i j : Nat}

/-- The average after so many of the blocks. -/
def runningAverage (tip : ChainEntry) (spacing : Int) (blocks : List ChainEntry) (rounds : Nat) :
    Nat :=
  (Sample.ofBlocks tip spacing (blocks.take rounds)).average

theorem runningAverage_add_one_of_none (h : blocks[i]? = none) :
    runningAverage tip spacing blocks (i + 1) = runningAverage tip spacing blocks i := by
  rw [runningAverage, runningAverage, List.take_add_one, h, Option.toList_none, List.append_nil]

theorem runningAverage_add_one (h : blocks[i]? = some e) :
    runningAverage tip spacing blocks (i + 1) =
      (Sample.ofBlocks tip spacing (blocks.take i)).nextAverage e.bits.target :=
  congrArg Sample.average (foldl_take_succ (step tip spacing) .none h)

section Run
variable (hblocks : ∀ x ∈ blocks, x.bits.target ≤ limit) (hroom : blocks.length * limit < 2 ^ 256)
include hblocks hroom

theorem rising_take (h0 : i ≠ 0) (hi : i ≤ blocks.length) :
    ∃ low, (Sample.ofBlocks tip spacing (blocks.take i)).Rising low limit := by
  have hlength := List.length_take_of_le hi
  have hnewest : ∀ x ∈ blocks.take i, x.bits.target ≤ limit :=
    fun x hx => hblocks x (List.mem_of_mem_take hx)
  cases htake : blocks.take i with
  | nil =>
    rw [htake, List.length_nil] at hlength
    exact absurd hlength.symm h0
  | cons first older =>
    rw [htake] at hlength hnewest
    rw [← hlength, List.length_cons] at hi
    exact ⟨_, rising_ofBlocks hnewest
      (Nat.lt_of_le_of_lt (Nat.mul_le_mul_right limit hi) hroom) spacing⟩

/-- Each target moves the average up, and the sum is exact. -/
theorem runningAverage_step (h : blocks[i]? = some e) :
    runningAverage tip spacing blocks (i + 1) = runningAverage tip spacing blocks i +
      wrapSub e.bits.target (runningAverage tip spacing blocks i) / (i + 1) := by
  obtain ⟨hi, rfl⟩ := List.getElem?_eq_some_iff.mp h
  rw [runningAverage_add_one h]
  cases i with
  | zero => simp [runningAverage, Sample.ofBlocks, Sample.nextAverage, Sample.none, wrapSub]
  | succ i =>
    have hmass : (Sample.ofBlocks tip spacing (blocks.take (i + 1))).mass = i + 1 := by
      rw [mass_ofBlocks, List.length_take, Nat.min_eq_left (Nat.le_of_lt hi)]
    have hstep :
        ((Sample.ofBlocks tip spacing (blocks.take (i + 1))).mass + 1) * limit < 2 ^ 256 := by
      rw [hmass]
      exact Nat.lt_of_le_of_lt (Nat.mul_le_mul_right limit hi) hroom
    obtain ⟨low, hrising⟩ : ∃ low,
        (Sample.ofBlocks tip spacing (blocks.take (i + 1))).Rising low limit :=
      rising_take hblocks hroom (Nat.succ_ne_zero i) (Nat.le_of_lt hi)
    have hsum := (hrising.nextAverage_eq (by omega) (hblocks _ (List.getElem_mem hi)) hstep).1
    rwa [hmass] at hsum

theorem runningAverage_mono : Monotone (runningAverage tip spacing blocks) := by
  apply monotone_nat_of_le_succ
  intro i
  cases h : blocks[i]? with
  | none => exact Nat.le_of_eq (runningAverage_add_one_of_none h).symm
  | some e =>
    rw [runningAverage_step hblocks hroom h]
    exact Nat.le_add_right _ _

theorem runningAverage_le_of_le (h : blocks[i]? = some e)
    (hle : runningAverage tip spacing blocks i ≤ e.bits.target) :
    runningAverage tip spacing blocks (i + 1) ≤ e.bits.target := by
  have hshare := Nat.div_le_self (e.bits.target - runningAverage tip spacing blocks i) (i + 1)
  rw [runningAverage_step hblocks hroom h, wrapSub, if_pos hle]
  omega

theorem runningAverage_le {greatest : Nat}
    (hnone : ∀ i e, blocks[i]? = some e → runningAverage tip spacing blocks i ≤ e.bits.target)
    (hgreatest : ∀ e ∈ blocks, e.bits.target ≤ greatest) (i : Nat) :
    runningAverage tip spacing blocks i ≤ greatest := by
  induction i with
  | zero => exact Nat.zero_le greatest
  | succ i ih =>
    cases h : blocks[i]? with
    | none => rwa [runningAverage_add_one_of_none h]
    | some e =>
      exact Nat.le_trans (runningAverage_le_of_le hblocks hroom h (hnone i e h))
        (hgreatest e (List.mem_of_getElem? h))

section Wrapped
variable (hhigh : high * blocks.length + limit ≤ 2 ^ 256)
include hhigh

/-- The share of a wrapped difference leads from the targets to above `high`. -/
theorem high_le_of_lt (h : blocks[i]? = some e)
    (hlt : e.bits.target < runningAverage tip spacing blocks i)
    (hregime : runningAverage tip spacing blocks i ≤ limit ∨
      high ≤ runningAverage tip spacing blocks i) :
    high ≤ runningAverage tip spacing blocks (i + 1) := by
  rw [runningAverage_step hblocks hroom h]
  rcases hregime with hlow | hhigh'
  · obtain ⟨hi, -⟩ := List.getElem?_eq_some_iff.mp h
    have hmul : high * (i + 1) ≤ high * blocks.length := Nat.mul_le_mul_left high hi
    have hshare : high ≤ wrapSub e.bits.target (runningAverage tip spacing blocks i) / (i + 1) := by
      rw [Nat.le_div_iff_mul_le (show 0 < i + 1 by omega), wrapSub, if_neg (by omega), wordModulus]
      omega
    exact Nat.le_trans hshare (Nat.le_add_left _ _)
  · exact Nat.le_trans hhigh' (Nat.le_add_right _ _)

/-- Within the targets or far above: no average lies between. -/
theorem regime (i : Nat) : runningAverage tip spacing blocks i ≤ limit ∨
    high ≤ runningAverage tip spacing blocks i := by
  induction i with
  | zero => exact Or.inl (Nat.zero_le limit)
  | succ i ih =>
    cases h : blocks[i]? with
    | none => rwa [runningAverage_add_one_of_none h]
    | some e =>
      by_cases hle : runningAverage tip spacing blocks i ≤ e.bits.target
      · have he := hblocks e (List.mem_of_getElem? h)
        exact Or.inl (Nat.le_trans (runningAverage_le_of_le hblocks hroom h hle) he)
      · exact Or.inr (high_le_of_lt hblocks hroom hhigh h (Nat.lt_of_not_le hle) ih)

theorem high_le_after (h : blocks[i]? = some e)
    (hlt : e.bits.target < runningAverage tip spacing blocks i) (hij : i < j) :
    high ≤ runningAverage tip spacing blocks j :=
  Nat.le_trans (high_le_of_lt hblocks hroom hhigh h hlt (regime hblocks hroom hhigh i))
    (runningAverage_mono hblocks hroom hij)

end Wrapped
end Run

/-- The long window of the main network bounds a sample, and the tip is in it unless it is block
zero. -/
theorem sample_mass_main (envelope : Envelope) (index : ChainIndex) (tip : ChainEntry) :
    (sample envelope index tip Network.mainRules[0]).mass ≤ 499 ∧
      (tip.height ≠ 0 → 0 < (sample envelope index tip Network.mainRules[0]).mass) := by
  have hmin : minBlocks Network.mainRules[0] = 39 := rfl
  have hmax : maxBlocks Network.mainRules[0] = 499 := rfl
  obtain ⟨blocks, htaken, hsample⟩ : ∃ blocks,
      Taken Network.mainRules[0] 0 (tip.trail index tip.height.toNat) blocks ∧
      sample envelope index tip Network.mainRules[0] = .ofBlocks tip 40 blocks :=
    sample_eq (by decide) tip
  rw [hsample, mass_ofBlocks]
  refine ⟨?_, fun hheight => ?_⟩
  · have hlong := htaken.long (by omega) (Nat.zero_le _)
    omega
  · have hpos : tip.height.toNat ≠ 0 := toNat_ne_zero_iff.mpr hheight
    obtain ⟨older, htrail⟩ : ∃ older, tip.trail index tip.height.toNat = tip :: older :=
      ChainEntry.trail_eq_cons hheight (Nat.pos_of_ne_zero hpos)
    obtain ⟨rest, rfl⟩ := (htrail ▸ htaken).exists_cons (by omega)
    exact Nat.succ_pos _

/-- On the main network, over any blocks with targets within the limit and whatever the envelope
decides, the running average never falls from one block read to the next, and no sum wraps. As long
as no target is below the average, it stays within the targets read; from the first that is, it is
at least `2 ^ 247` and stays there. -/
theorem kimoto_average_never_falls (c : Segment) (tip : ChainEntry) (envelope : Envelope) :
    let rules := Network.mainRules[0]
    let sample := sample envelope c.predecessor tip rules
    let read := tip.trail c.predecessor sample.mass
    let average (rounds : Nat) : Nat :=
      (gather envelope c.predecessor tip rules rounds tip .none).average
    (∀ e ∈ read, e.bits.target ≤ rules.workLimit) →
    sample.mass ≤ 499 ∧ read.length = sample.mass ∧ average sample.mass = sample.average ∧
    (∀ i e, read[i]? = some e →
      average (i + 1) = average i + wrapSub e.bits.target (average i) / (i + 1)) ∧
    (∀ i j, i ≤ j → j ≤ sample.mass → average i ≤ average j) ∧
    (tip.height ≠ 0 → tip.bits.target ≤ sample.average) ∧
    ((∀ i e, read[i]? = some e → average i ≤ e.bits.target) →
      ∀ greatest, (∀ e ∈ read, e.bits.target ≤ greatest) → sample.average ≤ greatest) ∧
    (∀ i e, read[i]? = some e → e.bits.target < average i →
      ∀ j, i < j → j ≤ sample.mass → rules.workLimit < 2 ^ 247 ∧ 2 ^ 247 ≤ average j) := by
  intro rules sample read average htargets
  have hspacing : 0 < rules.spacing := by decide
  have hlimit : rules.workLimit = 2 ^ 236 - 1 := by decide
  obtain ⟨hmass, hpos⟩ : sample.mass ≤ 499 ∧ (tip.height ≠ 0 → 0 < sample.mass) :=
    sample_mass_main envelope c.predecessor tip
  obtain ⟨hsample, hlength⟩ : sample = .ofBlocks tip rules.spacing read ∧
      read.length = sample.mass := gather_eq_ofBlocks hspacing tip.height.toNat
  have hroom : read.length * rules.workLimit < 2 ^ 256 := by
    rw [hlength, hlimit]
    omega
  have hhigh : 2 ^ 247 * read.length + rules.workLimit ≤ 2 ^ 256 := by
    rw [hlength, hlimit]
    omega
  have haverage {rounds : Nat} (h : rounds ≤ sample.mass) :
      average rounds = runningAverage tip rules.spacing read rounds :=
    congrArg Sample.average (gather_eq_take hspacing h)
  have hfinal : sample.average = runningAverage tip rules.spacing read sample.mass := by
    rw [runningAverage, ← hlength, List.take_length, ← hsample]
  have hmono : Monotone (runningAverage tip rules.spacing read) :=
    runningAverage_mono htargets hroom
  have hbefore {i : Nat} {e : ChainEntry} (h : read[i]? = some e) : i < sample.mass :=
    hlength ▸ (List.getElem?_eq_some_iff.mp h).1
  refine ⟨hmass, hlength, (haverage (Nat.le_refl _)).trans hfinal.symm, fun i e h => ?_,
    fun i j hij hj => ?_, fun hheight => ?_, fun hnone greatest hgreatest => ?_,
    fun i e h hlt j hij hj => ⟨by decide, ?_⟩⟩
  · rw [haverage (hbefore h), haverage (Nat.le_of_lt (hbefore h))]
    exact runningAverage_step htargets hroom h
  · rw [haverage (Nat.le_trans hij hj), haverage hj]
    exact hmono hij
  · obtain ⟨older, hread⟩ : ∃ older, read = tip :: older :=
      ChainEntry.trail_eq_cons hheight (hpos hheight)
    have hfirst : runningAverage tip rules.spacing read 1 = tip.bits.target := by
      rw [hread]
      rfl
    rw [hfinal, ← hfirst]
    exact hmono (hpos hheight)
  · rw [hfinal]
    refine runningAverage_le htargets hroom (fun i e h => ?_) hgreatest _
    rw [← haverage (Nat.le_of_lt (hbefore h))]
    exact hnone i e h
  · rw [haverage hj]
    rw [haverage (Nat.le_of_lt (hbefore h))] at hlt
    exact high_le_after htargets hroom hhigh h hlt hij

/-- Three blocks: the target of the second is below that of the newest one, and with it the average
leaves the targets for good. -/
theorem kimoto_average_never_falls_after_easier_tip :
    let rules := Network.mainRules[0]
    let c := (Segment.startingAt 100000).pushAll [(1400000000, ⟨0x1c1a1206⟩),
      (1400000040, ⟨0x1c19f000⟩), (1400000080, ⟨0x1c1b0000⟩)]
    let tip := ChainEntry.unhashed 100002 1400000080 ⟨0x1c1b0000⟩
    let sample := sample standardEnvelope c.predecessor tip rules
    c.Holds tip ∧ sample.mass = 3 ∧
      (∀ e ∈ tip.trail c.predecessor sample.mass, e.bits.target ≤ rules.workLimit) ∧
      tip.bits.target ≤ sample.average ∧ 2 ^ 247 ≤ sample.average := by
  intro rules c tip sample
  have hmass : sample.mass = 3 := by decide
  have htargets : ∀ e ∈ tip.trail c.predecessor sample.mass, e.bits.target ≤ rules.workLimit := by
    decide
  have hsecond : (tip.trail c.predecessor sample.mass)[1]? =
      some (.unhashed 100001 1400000040 ⟨0x1c19f000⟩) := by decide
  obtain ⟨-, -, hwhole, -, -, htip, -, hhigh⟩ :=
    kimoto_average_never_falls c tip standardEnvelope htargets
  have hlast := (hhigh 1 _ hsecond (by decide) 3 (by decide) (Nat.le_of_eq hmass.symm)).2
  rw [← hmass, hwhole] at hlast
  exact ⟨by decide, hmass, htargets, htip (by decide), hlast⟩

end PowConsensus.Kimoto
