import PowConsensus.Network.Rules
import PowConsensus.Proofs.Retarget.Averages
import PowConsensus.Proofs.Retarget.Rounds
import PowConsensus.Proofs.Retarget.Scaled

/-! # Dark Gravity Wave as a weighted mean

The running average times its weight is the sum of the targets, with the newest counted twice, less
the rests of all divisions so far. A rest is less than its divisor, and the divisors go up from
three to twenty-five, so the mean of a full window is never more than twelve below the exact one.
-/
namespace PowConsensus.DarkGravity
variable {tip e : ChainEntry} {high : Nat}

def targetSum : List ChainEntry → Nat
  | [] => 0
  | e :: older => e.bits.target + targetSum older

/-- The sum of the targets of these blocks, newest first, with the newest counted twice. -/
def weightedSum : List ChainEntry → Nat
  | [] => 0
  | newest :: older => 2 * newest.bits.target + targetSum older

namespace Sample
variable {s : Sample} {sum : Nat}

/-- An average whose weight in targets is no more than their sum, and less by at most the greatest
rest of each division. -/
structure Weighs (sum : Nat) (s : Sample) : Prop where
  le_sum : s.average * (s.count + 1) ≤ sum
  sum_le : 2 * sum + 2 ≤ 2 * (s.average * (s.count + 1)) + s.count * (s.count + 1)

theorem Weighs.add (h : s.Weighs sum) (h0 : s.count ≠ 0) (hs : s.average ≤ high)
    (he : e.bits.target ≤ high) (hroom : high * (s.count + 2) < 2 ^ 256) :
    (s.add e).Weighs (sum + e.bits.target) := by
  have haverage : (s.add e).average =
      (s.average * (s.count + 1) + e.bits.target) / (s.count + 2) := nextAverage_eq h0 hs he hroom
  have hdivision := Nat.div_add_mod' (s.average * (s.count + 1) + e.bits.target) (s.count + 2)
  have hrest := Nat.mod_lt (s.average * (s.count + 1) + e.bits.target)
    (show 0 < s.count + 2 by omega)
  have hslack : (s.count + 1) * (s.count + 2) = s.count * (s.count + 1) + 2 * (s.count + 1) := by
    rw [Nat.mul_add, Nat.mul_comm (s.count + 1) s.count, Nat.mul_comm (s.count + 1) 2]
  obtain ⟨hle, hge⟩ := h
  rw [← haverage] at hdivision
  constructor
  · change (s.add e).average * (s.count + 2) ≤ sum + e.bits.target
    omega
  · change _ ≤ 2 * ((s.add e).average * (s.count + 2)) + (s.count + 1) * (s.count + 2)
    omega

theorem weighs_foldl {blocks : List ChainEntry} (h : s.Weighs sum) (h0 : s.count ≠ 0)
    (hs : s.average ≤ high) (hblocks : ∀ e ∈ blocks, e.bits.target ≤ high)
    (hroom : high * (s.count + blocks.length + 1) < 2 ^ 256) :
    (blocks.foldl add s).Weighs (sum + targetSum blocks) := by
  induction blocks generalizing s sum with
  | nil => exact h
  | cons e blocks ih =>
    obtain ⟨he, hrest⟩ := List.forall_mem_cons.mp hblocks
    rw [List.length_cons] at hroom
    have hstep : high * (s.count + 2) < 2 ^ 256 :=
      Nat.lt_of_le_of_lt (Nat.mul_le_mul_left high (by omega)) hroom
    have hbetween : s.Between 0 high := fun _ => ⟨Nat.zero_le _, hs⟩
    have haverage : (s.add e).average ≤ high :=
      (hbetween.add ⟨Nat.zero_le _, he⟩ hstep (Nat.succ_ne_zero _)).2
    have hcount : (s.add e).count + blocks.length + 1 = s.count + (blocks.length + 1) + 1 := by
      simp only [add]
      omega
    rw [targetSum, ← Nat.add_assoc]
    exact ih (h.add h0 hs he hstep) (Nat.succ_ne_zero _) haverage hrest (hcount ▸ hroom)

end Sample

theorem weighs_ofBlocks {blocks : List ChainEntry} (hne : blocks ≠ [])
    (hblocks : ∀ e ∈ blocks, e.bits.target ≤ high)
    (hroom : high * (blocks.length + 1) < 2 ^ 256) :
    (Sample.ofBlocks blocks).Weighs (weightedSum blocks) := by
  obtain ⟨newest, older, rfl⟩ := List.exists_cons_of_ne_nil hne
  obtain ⟨hnewest, holder⟩ := List.forall_mem_cons.mp hblocks
  have hfirst : (Sample.none.add newest).Weighs (2 * newest.bits.target) := by
    have haverage : (Sample.none.add newest).average = newest.bits.target := rfl
    have hcount : (Sample.none.add newest).count = 1 := rfl
    exact ⟨by rw [haverage, hcount]; omega, by rw [haverage, hcount]; omega⟩
  have hcount : (Sample.none.add newest).count + older.length + 1 =
      (newest :: older).length + 1 := by
    simp only [Sample.add, Sample.none, List.length_cons]
    omega
  exact Sample.weighs_foldl hfirst (Nat.succ_ne_zero 0) hnewest holder (hcount ▸ hroom)

/-- No sum of a product and a target wraps, nor does the product. -/
theorem average_add_one {blocks : List ChainEntry} (hblocks : ∀ e ∈ blocks, e.bits.target ≤ high)
    (hroom : high * (blocks.length + 1) < 2 ^ 256) {i : Nat} (hi : 0 < i)
    (h : blocks[i]? = some e) :
    (Sample.ofBlocks (blocks.take i)).average * (i + 1) + e.bits.target < 2 ^ 256 ∧
      (Sample.ofBlocks (blocks.take (i + 1))).average =
        ((Sample.ofBlocks (blocks.take i)).average * (i + 1) + e.bits.target) / (i + 2) := by
  obtain ⟨hlt, -⟩ := List.getElem?_eq_some_iff.mp h
  have he := hblocks e (List.mem_of_getElem? h)
  have hlength : (blocks.take i).length = i := List.length_take_of_le (Nat.le_of_lt hlt)
  have hcount : (Sample.ofBlocks (blocks.take i)).count = i := by rw [count_ofBlocks, hlength]
  have hne : blocks.take i ≠ [] := List.ne_nil_of_length_pos (hlength.symm ▸ hi)
  have hstep : high * (i + 2) < 2 ^ 256 :=
    Nat.lt_of_le_of_lt (Nat.mul_le_mul_left high (by omega)) hroom
  have hnewest : ∀ x ∈ blocks.take i, 0 ≤ x.bits.target ∧ x.bits.target ≤ high :=
    fun x hx => ⟨Nat.zero_le _, hblocks x (List.mem_of_mem_take hx)⟩
  have haverage : (Sample.ofBlocks (blocks.take i)).average ≤ high :=
    (average_ofBlocks_between hne hnewest
      (Nat.lt_of_le_of_lt (Nat.mul_le_mul_left high (by omega)) hstep)).2
  have hweight := Sample.weighted_le haverage he
  have hnext : (Sample.ofBlocks (blocks.take (i + 1))).average =
      (Sample.ofBlocks (blocks.take i)).nextAverage e.bits.target :=
    congrArg Sample.average (foldl_take_succ Sample.add .none h)
  have hstep' : high * ((Sample.ofBlocks (blocks.take i)).count + 2) < 2 ^ 256 :=
    hcount.symm ▸ hstep
  rw [hcount] at hweight
  rw [hnext, Sample.nextAverage_eq (by omega) haverage he hstep', hcount]
  exact ⟨Nat.lt_of_le_of_lt hweight hstep, rfl⟩

section Full
variable {blocks : List ChainEntry} (hlength : blocks.length = 24)
  (htargets : ∀ e ∈ blocks, e.bits.target < 2 ^ 240)
include hlength htargets

theorem average_of_full_between {least greatest : Nat}
    (h : ∀ e ∈ blocks, least ≤ e.bits.target ∧ e.bits.target ≤ greatest) :
    least ≤ (Sample.ofBlocks blocks).average ∧ (Sample.ofBlocks blocks).average ≤ greatest ∧
      (Sample.ofBlocks blocks).average < 2 ^ 240 := by
  have hne : blocks ≠ [] := List.ne_nil_of_length_pos (by omega)
  have hwithin : ∀ e ∈ blocks,
      least ≤ e.bits.target ∧ e.bits.target ≤ min greatest (2 ^ 240 - 1) := by
    intro e he
    have htarget := htargets e he
    obtain ⟨hleast, hgreatest⟩ := h e he
    omega
  have hroom : min greatest (2 ^ 240 - 1) * (blocks.length + 1) < 2 ^ 256 := by
    rw [hlength]
    omega
  obtain ⟨hlow, hhigh⟩ := average_ofBlocks_between hne hwithin hroom
  omega

theorem weighs_of_full : (Sample.ofBlocks blocks).Weighs (weightedSum blocks) := by
  apply weighs_ofBlocks (List.ne_nil_of_length_pos (by omega))
  · exact fun e he => Nat.le_sub_one_of_lt (htargets e he)
  · rw [hlength]
    decide

theorem average_add_one_of_full {i : Nat} (hi : 0 < i) (h : blocks[i]? = some e) :
    (Sample.ofBlocks (blocks.take i)).average * (i + 1) + e.bits.target < 2 ^ 256 ∧
      (Sample.ofBlocks (blocks.take (i + 1))).average =
        ((Sample.ofBlocks (blocks.take i)).average * (i + 1) + e.bits.target) / (i + 2) := by
  apply average_add_one (fun e he => Nat.le_sub_one_of_lt (htargets e he)) ?_ hi h
  rw [hlength]
  decide

end Full

/-- Three times the expected time of a full window is well below `2 ^ 16` seconds. -/
theorem mul_clamped_lt {average : Nat} (h : average < 2 ^ 240) (actual : Int) :
    average * (max 960 (min actual 8640)).toNat < 2 ^ 256 :=
  calc average * (max 960 (min actual 8640)).toNat ≤ average * 2 ^ 16 :=
        Nat.mul_le_mul_left _ (by omega)
    _ < 2 ^ 256 := by omega

/-- The target of a full window before it is capped, as an exact quotient. -/
theorem uncapped_of_full {s : Sample} (hcount : s.count = 24) (haverage : s.average < 2 ^ 240) :
    s.uncapped = s.average * (max 960 (min s.actual 8640)).toNat / 2880 := by
  have hexpected : (s.count : Int) * spacing = 2880 := by rw [hcount]; rfl
  have hthird : Int.tdiv 2880 3 = 960 := rfl
  have hclamp : clamp (Int.tdiv 2880 3) (2880 * 3) s.actual =
      ((max 960 (min s.actual 8640)).toNat : Int) := by
    rw [clamp_eq (by decide), hthird]
    omega
  rw [Sample.uncapped, hexpected, hclamp, scaledTarget_of_lt (by omega)
    (mul_clamped_lt haverage s.actual)]
  rfl

/-- Over a full window of times that are not zero and targets that leave room, no intermediate
result wraps. The average is a mean in which the newest target counts twice: it lies between the
least and the greatest target, and its weight is at most 299 below the sum. It is scaled by the time
between the oldest block and the tip, moved into the range from a third of the expected time to
three times it, so before the limit is applied the target is at least a third of the least and at
most three times the greatest. -/
theorem dark_gravity_is_weighted_mean (rules : RuleSet) (c : Segment) (tip : ChainEntry)
    (hheld : c.Holds tip) (hheight : 24 ≤ tip.height.toNat) (blocks : List ChainEntry)
    (hblocks : c.Descends tip blocks) (hlength : blocks.length = 24)
    (htargets : ∀ e ∈ blocks, e.bits.target < 2 ^ 240) (htimes : ∀ e ∈ blocks, e.time ≠ 0)
    (oldest : ChainEntry) (holdest : c.Holds oldest)
    (hback : oldest.height.toNat + 23 = tip.height.toNat) :
    let sample := sample c.predecessor tip
    let average (rounds : Nat) : Nat := (gather c.predecessor rounds tip .none).average
    let seconds : Int := (tip.time.toNat : Int) - oldest.time.toNat
    let elapsed : Nat := (max 960 (min seconds 8640)).toNat
    let uncapped : Nat := sample.average * elapsed / 2880
    average 1 = tip.bits.target ∧ average 24 = sample.average ∧
    (∀ i e, 0 < i → blocks[i]? = some e → average i * (i + 1) + e.bits.target < 2 ^ 256 ∧
      average (i + 1) = (average i * (i + 1) + e.bits.target) / (i + 2)) ∧
    weightedSum blocks ≤ 25 * sample.average + 299 ∧
    25 * sample.average ≤ weightedSum blocks ∧
    sample.actual = seconds ∧ sample.average * elapsed < 2 ^ 256 ∧
    requiredBits c.predecessor tip rules = .encode (min rules.workLimit uncapped) ∧
    ∀ least greatest, (∀ e ∈ blocks, least ≤ e.bits.target ∧ e.bits.target ≤ greatest) →
      least ≤ sample.average ∧ sample.average ≤ greatest ∧
      least / 3 ≤ uncapped ∧ uncapped ≤ 3 * greatest := by
  intro sample average seconds elapsed uncapped
  have htrail : tip.trail c.predecessor window = blocks := by
    rw [hblocks.eq_trail hheld, hlength, window]
  obtain ⟨older, hcons⟩ : ∃ older, blocks = tip :: older := by
    rw [← htrail]
    exact ChainEntry.trail_eq_cons (toNat_ne_zero_iff.mp (by omega)) (by decide)
  have hsample : sample = .ofBlocks blocks := by rw [← htrail]; exact sample_eq tip
  have haverage {rounds : Nat} (h : rounds ≤ 24) :
      average rounds = (Sample.ofBlocks (blocks.take rounds)).average := by
    rw [← htrail]
    exact congrArg Sample.average (gather_eq_take h)
  have hbetween {least greatest : Nat}
      (h : ∀ e ∈ blocks, least ≤ e.bits.target ∧ e.bits.target ≤ greatest) :
      least ≤ sample.average ∧ sample.average ≤ greatest ∧ sample.average < 2 ^ 240 :=
    hsample ▸ average_of_full_between hlength htargets h
  have hmean : sample.average < 2 ^ 240 :=
    (hbetween fun e he => ⟨Nat.zero_le _, Nat.le_of_lt (htargets e he)⟩).2.2
  have hactual : sample.actual = seconds := by
    have hlast : blocks.getLast? = some oldest := hblocks.getLast?_eq hlength holdest hback
    rw [hsample, hcons]
    exact actual_ofBlocks (hcons ▸ hlast) (hcons ▸ htimes)
  have hcount : sample.count = 24 := by rw [hsample, count_ofBlocks, hlength]
  have huncapped : sample.uncapped = uncapped := by
    rw [uncapped_of_full hcount hmean, hactual]
  have helapsed : 960 ≤ elapsed ∧ elapsed ≤ 8640 := by omega
  obtain ⟨hle, hge⟩ : sample.Weighs (weightedSum blocks) :=
    hsample ▸ weighs_of_full hlength htargets
  rw [hcount] at hle hge
  refine ⟨?_, ?_, fun i e hi h => ?_, by omega, by omega, hactual,
    mul_clamped_lt hmean seconds, ?_, fun least greatest h => ?_⟩
  · rw [haverage (by decide), hcons]
    rfl
  · rw [haverage (Nat.le_refl _), hsample, ← hlength, List.take_length]
  · obtain ⟨hlt, -⟩ := List.getElem?_eq_some_iff.mp h
    rw [haverage (by omega), haverage (by omega)]
    exact average_add_one_of_full hlength htargets hi h
  · rw [requiredBits_of_height hheight, ← huncapped, ← RuleSet.cap_eq, ← bitsOfSample_eq_cap,
      hsample, ← htrail]
    rfl
  · obtain ⟨hleast, hgreatest, -⟩ := hbetween h
    have hlow : sample.average / 3 ≤ uncapped := div_le_scaled (by decide) (by omega)
    have hup : uncapped ≤ 3 * sample.average := scaled_le_mul (by omega)
    omega

/-- Twenty-four blocks of two kinds of bits, somewhat less than two minutes apart. -/
theorem dark_gravity_is_weighted_mean_after_fork4 :
    let rules := Network.mainRules[0]
    let c := (Segment.startingAt 400000).pushAll ((List.range 24).map fun i =>
      (UInt32.ofNat (1500000000 + 110 * i),
        if i % 3 = 0 then ⟨0x1b0404cb⟩ else ⟨0x1b0500a0⟩))
    let tip := ChainEntry.unhashed 400023 1500002530 ⟨0x1b0500a0⟩
    let oldest := ChainEntry.unhashed 400000 1500000000 ⟨0x1b0404cb⟩
    let blocks := tip.trail c.predecessor 24
    let sample := sample c.predecessor tip
    c.Holds tip ∧ c.Descends tip blocks ∧ blocks.length = 24 ∧ c.Holds oldest ∧
      weightedSum blocks ≤ 25 * sample.average + 299 ∧
      25 * sample.average ≤ weightedSum blocks ∧
      requiredBits c.predecessor tip rules =
        .encode (min rules.workLimit (sample.average * 2530 / 2880)) := by
  intro rules c tip oldest blocks sample
  have hheld : c.Holds tip := by decide
  have holdest : c.Holds oldest := by decide
  have hblocks : c.Descends tip blocks := hheld.descends_trail 24
  have hlength : blocks.length = 24 := by decide
  obtain ⟨-, -, -, hsum, hweight, -, -, hbits, -⟩ := dark_gravity_is_weighted_mean rules c tip hheld
    (by decide) blocks hblocks hlength (by decide) (by decide) oldest holdest (by decide)
  have helapsed :
      (max 960 (min ((tip.time.toNat : Int) - oldest.time.toNat) 8640)).toNat = 2530 := by decide
  rw [helapsed] at hbits
  exact ⟨hheld, hblocks, hlength, holdest, hsum, hweight, hbits⟩

end PowConsensus.DarkGravity
