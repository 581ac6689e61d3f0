import Mathlib.Data.List.Forall2
import PowConsensus.Proofs.Retarget.Blocks

/-! # Running averages

The average of Dark Gravity Wave is a true weighted mean as long as the targets leave room for the
weights: it lies between the least and the greatest of them, and it grows with each of them. The
average of Kimoto Gravity Well is none, because the difference that it moves by wraps below zero.
But a wrapped difference only moves it up, by a share of what is left below the modulus, so that it
never falls and, for targets that leave room for the count, never wraps itself.
-/
namespace PowConsensus

namespace DarkGravity
namespace Sample
variable {s s₁ s₂ : Sample} {low high t : Nat}

theorem weighted_le (hs : s.average ≤ high) (ht : t ≤ high) :
    s.average * (s.count + 1) + t ≤ high * (s.count + 2) :=
  calc s.average * (s.count + 1) + t ≤ high * (s.count + 1) + high :=
        Nat.add_le_add (Nat.mul_le_mul_right _ hs) ht
    _ = high * (s.count + 2) := (Nat.mul_succ high (s.count + 1)).symm

/-- Without a wrap the average so far counts once more than there are blocks. -/
theorem nextAverage_eq (h0 : s.count ≠ 0) (hs : s.average ≤ high) (ht : t ≤ high)
    (hroom : high * (s.count + 2) < 2 ^ 256) :
    s.nextAverage t = (s.average * (s.count + 1) + t) / (s.count + 2) := by
  have hsum := weighted_le hs ht
  have hproduct : s.average * (s.count + 1) < wordModulus := by
    simp only [wordModulus]
    omega
  rw [nextAverage, if_neg h0, wrapMul, Nat.mod_eq_of_lt hproduct, wrapAdd, Nat.mod_eq_of_lt]
  exact Nat.lt_of_le_of_lt hsum hroom

/-- The average of one block or more lies within these bounds. -/
def Between (low high : Nat) (s : Sample) : Prop :=
  s.count ≠ 0 → low ≤ s.average ∧ s.average ≤ high

theorem Between.add (h : s.Between low high) {e : ChainEntry}
    (he : low ≤ e.bits.target ∧ e.bits.target ≤ high) (hroom : high * (s.count + 2) < 2 ^ 256) :
    (s.add e).Between low high := by
  intro _
  change low ≤ s.nextAverage e.bits.target ∧ s.nextAverage e.bits.target ≤ high
  by_cases h0 : s.count = 0
  · rw [nextAverage, if_pos h0]
    exact he
  · obtain ⟨hlow, hhigh⟩ := h h0
    have hle := weighted_le hhigh he.2
    have hge : low * (s.count + 2) ≤ s.average * (s.count + 1) + e.bits.target :=
      calc low * (s.count + 2) = low * (s.count + 1) + low := Nat.mul_succ low (s.count + 1)
        _ ≤ s.average * (s.count + 1) + e.bits.target :=
          Nat.add_le_add (Nat.mul_le_mul_right _ hlow) he.1
    rw [nextAverage_eq h0 hhigh he.2 hroom]
    constructor
    · exact (Nat.le_div_iff_mul_le (Nat.succ_pos _)).mpr hge
    · exact Nat.div_le_of_le_mul (Nat.mul_comm high _ ▸ hle)

theorem between_foldl {blocks : List ChainEntry} (h : s.Between low high)
    (hblocks : ∀ e ∈ blocks, low ≤ e.bits.target ∧ e.bits.target ≤ high)
    (hroom : high * (s.count + blocks.length + 1) < 2 ^ 256) :
    (blocks.foldl add s).Between low high := by
  induction blocks generalizing s with
  | nil => exact h
  | cons e blocks ih =>
    obtain ⟨he, hrest⟩ := List.forall_mem_cons.mp hblocks
    rw [List.length_cons] at hroom
    have hstep : high * (s.count + 2) < 2 ^ 256 :=
      Nat.lt_of_le_of_lt (Nat.mul_le_mul_left high (by omega)) hroom
    have hcount : (s.add e).count + blocks.length + 1 = s.count + (blocks.length + 1) + 1 := by
      simp only [add]
      omega
    exact ih (h.add he hstep) hrest (hcount ▸ hroom)

/-- The average of the blocks of one sample is at most that of as many blocks of another. -/
structure AtMost (high : Nat) (s₁ s₂ : Sample) : Prop where
  count_eq : s₁.count = s₂.count
  average_le : s₁.average ≤ s₂.average
  le_high : s₂.average ≤ high

theorem AtMost.add (h : AtMost high s₁ s₂) {e₁ e₂ : ChainEntry}
    (hle : e₁.bits.target ≤ e₂.bits.target) (he : e₂.bits.target ≤ high)
    (hroom : high * (s₂.count + 2) < 2 ^ 256) : AtMost high (s₁.add e₁) (s₂.add e₂) := by
  have hcount := h.count_eq
  refine ⟨congrArg (· + 1) hcount, ?_, ?_⟩
  · change s₁.nextAverage e₁.bits.target ≤ s₂.nextAverage e₂.bits.target
    by_cases h0 : s₂.count = 0
    · rw [nextAverage, if_pos (hcount.trans h0), nextAverage, if_pos h0]
      exact hle
    · rw [nextAverage_eq h0 h.le_high he hroom,
        nextAverage_eq (hcount ▸ h0) (Nat.le_trans h.average_le h.le_high) (Nat.le_trans hle he)
          (hcount ▸ hroom), hcount]
      exact Nat.div_le_div_right (Nat.add_le_add (Nat.mul_le_mul_right _ h.average_le) hle)
  · have hbetween : s₂.Between 0 high := fun _ => ⟨Nat.zero_le _, h.le_high⟩
    exact (hbetween.add ⟨Nat.zero_le _, he⟩ hroom (Nat.succ_ne_zero _)).2

theorem atMost_foldl {blocks₁ blocks₂ : List ChainEntry}
    (hle : List.Forall₂ (fun e₁ e₂ => e₁.bits.target ≤ e₂.bits.target) blocks₁ blocks₂)
    (hblocks : ∀ e ∈ blocks₂, e.bits.target ≤ high) (h : AtMost high s₁ s₂)
    (hroom : high * (s₂.count + blocks₂.length + 1) < 2 ^ 256) :
    AtMost high (blocks₁.foldl add s₁) (blocks₂.foldl add s₂) := by
  induction hle generalizing s₁ s₂ with
  | nil => exact h
  | @cons e₁ e₂ blocks₁ blocks₂ hfirst _ ih =>
    obtain ⟨he, hrest⟩ := List.forall_mem_cons.mp hblocks
    rw [List.length_cons] at hroom
    have hstep : high * (s₂.count + 2) < 2 ^ 256 :=
      Nat.lt_of_le_of_lt (Nat.mul_le_mul_left high (by omega)) hroom
    have hcount : (s₂.add e₂).count + blocks₂.length + 1 =
        s₂.count + (blocks₂.length + 1) + 1 := by
      simp only [add]
      omega
    exact ih hrest (h.add hfirst he hstep) (hcount ▸ hroom)

end Sample

theorem average_ofBlocks_between {low high : Nat} {blocks : List ChainEntry} (hne : blocks ≠ [])
    (hblocks : ∀ e ∈ blocks, low ≤ e.bits.target ∧ e.bits.target ≤ high)
    (hroom : high * (blocks.length + 1) < 2 ^ 256) :
    low ≤ (Sample.ofBlocks blocks).average ∧ (Sample.ofBlocks blocks).average ≤ high := by
  have hnone : Sample.none.Between low high := fun h0 => absurd rfl h0
  have hstart : Sample.none.count + blocks.length + 1 = blocks.length + 1 := by
    simp only [Sample.none]
    omega
  apply Sample.between_foldl hnone hblocks (hstart ▸ hroom)
  change (Sample.ofBlocks blocks).count ≠ 0
  rw [count_ofBlocks]
  exact fun h0 => hne (List.eq_nil_of_length_eq_zero h0)

theorem average_ofBlocks_mono {high : Nat} {blocks₁ blocks₂ : List ChainEntry}
    (hle : List.Forall₂ (fun e₁ e₂ => e₁.bits.target ≤ e₂.bits.target) blocks₁ blocks₂)
    (hblocks : ∀ e ∈ blocks₂, e.bits.target ≤ high)
    (hroom : high * (blocks₂.length + 1) < 2 ^ 256) :
    (Sample.ofBlocks blocks₁).average ≤ (Sample.ofBlocks blocks₂).average ∧
      (Sample.ofBlocks blocks₂).average ≤ high := by
  have hnone : Sample.AtMost high .none .none := ⟨rfl, Nat.le_refl _, Nat.zero_le _⟩
  have hstart : Sample.none.count + blocks₂.length + 1 = blocks₂.length + 1 := by
    simp only [Sample.none]
    omega
  have hfold := Sample.atMost_foldl hle hblocks hnone (hstart ▸ hroom)
  exact ⟨hfold.average_le, hfold.le_high⟩

end DarkGravity

namespace Kimoto
namespace Sample
variable {s : Sample} {low limit t : Nat}

/-- An average that has not fallen below `low`, nor risen by more than a share for each block of
what is left below the modulus. -/
structure Rising (low limit : Nat) (s : Sample) : Prop where
  low_le : low ≤ s.average
  room : s.average * s.mass + 2 ^ 256 ≤ s.mass * (2 ^ 256 + limit)

/-- Such an average of `n` blocks is a word, if their targets leave room for the count. -/
theorem lt_of_room {average n : Nat} (h : average * n + 2 ^ 256 ≤ n * (2 ^ 256 + limit))
    (hroom : n * limit < 2 ^ 256) : average < 2 ^ 256 := by
  refine Nat.lt_of_not_le fun hle => ?_
  have hmul : 2 ^ 256 * n ≤ average * n := Nat.mul_le_mul_right _ hle
  rw [Nat.mul_add, Nat.mul_comm n] at h
  omega

/-- The average moves up by a share of the difference, or of what it wraps to, and the sum of the
two words does not wrap. -/
theorem Rising.nextAverage_eq (h : s.Rising low limit) (h0 : s.mass ≠ 0) (ht : t ≤ limit)
    (hroom : (s.mass + 1) * limit < 2 ^ 256) :
    s.nextAverage t = s.average + wrapSub t s.average / (s.mass + 1) ∧
      s.nextAverage t * (s.mass + 1) + 2 ^ 256 ≤ (s.mass + 1) * (2 ^ 256 + limit) := by
  have hshare : s.nextAverage t = wrapAdd (wrapSub t s.average / (s.mass + 1)) s.average :=
    if_neg h0
  have hbound : (s.average + wrapSub t s.average / (s.mass + 1)) * (s.mass + 1) + 2 ^ 256 ≤
      (s.mass + 1) * (2 ^ 256 + limit) := by
    have hdiv := Nat.div_mul_le_self (wrapSub t s.average) (s.mass + 1)
    have hinv := h.room
    have hword := lt_of_room hinv (Nat.lt_of_le_of_lt (Nat.mul_le_mul_right _ (by omega)) hroom)
    generalize wrapSub t s.average / (s.mass + 1) = share at hdiv
    rw [Nat.add_mul, Nat.mul_succ s.average, Nat.succ_mul s.mass]
    rw [wrapSub, wordModulus] at hdiv
    split at hdiv
    · have hlow : s.average * s.mass ≤ limit * s.mass := Nat.mul_le_mul_right _ (by omega)
      have hcomm : limit * s.mass = s.mass * limit := Nat.mul_comm _ _
      have hdist : s.mass * (2 ^ 256 + limit) = s.mass * 2 ^ 256 + s.mass * limit :=
        Nat.mul_add _ _ _
      omega
    · omega
  have hword : s.average + wrapSub t s.average / (s.mass + 1) < 2 ^ 256 :=
    lt_of_room hbound hroom
  have hsum : s.nextAverage t = s.average + wrapSub t s.average / (s.mass + 1) := by
    rw [hshare, wrapAdd, Nat.add_comm, Nat.mod_eq_of_lt hword]
  exact ⟨hsum, hsum ▸ hbound⟩

theorem Rising.add (h : s.Rising low limit) (h0 : s.mass ≠ 0) {tip e : ChainEntry}
    (he : e.bits.target ≤ limit) (hroom : (s.mass + 1) * limit < 2 ^ 256) (spacing : Int) :
    (s.add tip e spacing).Rising low limit := by
  obtain ⟨hsum, hinv⟩ := h.nextAverage_eq h0 he hroom
  have hle : s.average ≤ s.nextAverage e.bits.target := hsum ▸ Nat.le_add_right _ _
  exact ⟨Nat.le_trans h.low_le hle, hinv⟩

theorem rising_foldl {tip : ChainEntry} {blocks : List ChainEntry} {spacing : Int}
    (h : s.Rising low limit) (h0 : s.mass ≠ 0) (hblocks : ∀ e ∈ blocks, e.bits.target ≤ limit)
    (hroom : (s.mass + blocks.length) * limit < 2 ^ 256) :
    (blocks.foldl (step tip spacing) s).Rising low limit := by
  induction blocks generalizing s with
  | nil => exact h
  | cons e blocks ih =>
    obtain ⟨he, hrest⟩ := List.forall_mem_cons.mp hblocks
    rw [List.length_cons] at hroom
    have hstep : (s.mass + 1) * limit < 2 ^ 256 :=
      Nat.lt_of_le_of_lt (Nat.mul_le_mul_right limit (by omega)) hroom
    have hmass : (s.add tip e spacing).mass + blocks.length = s.mass + (blocks.length + 1) := by
      simp only [add]
      omega
    exact ih (h.add h0 he hstep spacing) (Nat.succ_ne_zero _) hrest (hmass ▸ hroom)

end Sample

theorem rising_ofBlocks {tip e : ChainEntry} {limit : Nat} {blocks : List ChainEntry}
    (hblocks : ∀ x ∈ e :: blocks, x.bits.target ≤ limit)
    (hroom : (blocks.length + 1) * limit < 2 ^ 256) (spacing : Int) :
    (Sample.ofBlocks tip spacing (e :: blocks)).Rising e.bits.target limit := by
  obtain ⟨he, hrest⟩ := List.forall_mem_cons.mp hblocks
  have hfirst : (Sample.none.add tip e spacing).Rising e.bits.target limit := by
    refine ⟨Nat.le_refl _, ?_⟩
    change e.bits.target * 1 + 2 ^ 256 ≤ 1 * (2 ^ 256 + limit)
    omega
  have hmass : (Sample.none.add tip e spacing).mass + blocks.length = blocks.length + 1 :=
    Nat.add_comm 1 _
  rw [Sample.ofBlocks, List.foldl_cons]
  exact Sample.rising_foldl hfirst (Nat.succ_ne_zero 0) hrest (hmass ▸ hroom)

/-- The average of a sample is no less than the target of its newest block. -/
theorem target_le_average_ofBlocks {tip e : ChainEntry} {limit : Nat} {blocks : List ChainEntry}
    (hblocks : ∀ x ∈ e :: blocks, x.bits.target ≤ limit)
    (hroom : (blocks.length + 1) * limit < 2 ^ 256) (spacing : Int) :
    e.bits.target ≤ (Sample.ofBlocks tip spacing (e :: blocks)).average :=
  (rising_ofBlocks hblocks hroom spacing).low_le

end Kimoto
end PowConsensus
