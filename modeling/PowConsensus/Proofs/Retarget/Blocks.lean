import PowConsensus.Proofs.Chain.Trail
import PowConsensus.Retarget.DarkGravity
import PowConsensus.Retarget.Kimoto

/-! # Samples as folds over the blocks read

What either sampling loop returns is the fold of its step over the blocks it read, newest first.
Dark Gravity Wave reads the trail of the tip as far as its window goes. Kimoto Gravity Well reads
some beginning of the trail: all of it or at least a short window, and never more than a long one,
whatever the envelope decides.
-/
namespace PowConsensus
variable {index : ChainIndex}

namespace DarkGravity

theorem gather_eq_foldl (more : Nat) (e : ChainEntry) (s : Sample) :
    gather index more e s = (e.trail index more).foldl Sample.add s := by
  induction more generalizing e s with
  | zero => rfl
  | succ more ih =>
    rw [gather, ChainEntry.trail]
    split
    · rfl
    · rw [List.foldl_cons]
      cases index e with
      | none => rfl
      | some parent => exact ih parent (s.add e)

/-- The sample that these blocks make up, newest first. -/
def Sample.ofBlocks (blocks : List ChainEntry) : Sample := blocks.foldl Sample.add .none

theorem sample_eq (tip : ChainEntry) :
    sample index tip = .ofBlocks (tip.trail index window) := gather_eq_foldl window tip .none

/-- Deep enough a tip is retargeted by what its trail holds. -/
theorem requiredBits_of_height {tip : ChainEntry} {rules : RuleSet} (h : 24 ≤ tip.height.toNat) :
    requiredBits index tip rules =
      bitsOfSample (.ofBlocks (tip.trail index 24)) rules := by
  have hne : tip.height ≠ 0 := toNat_ne_zero_iff.mp (by omega)
  have happlies : applies tip = true := decide_eq_true ⟨hne, h⟩
  rw [requiredBits, if_pos happlies, sample_eq, window]

theorem count_foldl (blocks : List ChainEntry) (s : Sample) :
    (blocks.foldl Sample.add s).count = s.count + blocks.length := by
  induction blocks generalizing s with
  | nil => rfl
  | cons e blocks ih =>
    have hcount : (s.add e).count = s.count + 1 := rfl
    rw [List.foldl_cons, ih, hcount, List.length_cons]
    omega

@[simp] theorem count_ofBlocks (blocks : List ChainEntry) :
    (Sample.ofBlocks blocks).count = blocks.length := by
  rw [Sample.ofBlocks, count_foldl]
  exact Nat.zero_add _

/-- A tip high enough is sampled itself. -/
theorem sample_count_pos {tip : ChainEntry} (h : applies tip = true) :
    0 < (sample index tip).count := by
  have hheight : tip.height ≠ 0 := (of_decide_eq_true h).1
  obtain ⟨older, htrail⟩ : ∃ older, tip.trail index window = tip :: older :=
    ChainEntry.trail_eq_cons hheight (by decide)
  rw [sample_eq, count_ofBlocks, htrail]
  exact Nat.succ_pos _

/-- Differences of successive times cancel, as long as no time is zero. -/
theorem clock_foldl {blocks : List ChainEntry} (htimes : ∀ e ∈ blocks, e.time ≠ 0) {s : Sample}
    (hs : 0 < s.lastTime) :
    (blocks.foldl Sample.add s).actual + (blocks.foldl Sample.add s).lastTime =
      s.actual + s.lastTime := by
  induction blocks generalizing s with
  | nil => rfl
  | cons e blocks ih =>
    obtain ⟨htime, hrest⟩ := List.forall_mem_cons.mp htimes
    have hpos : e.time.toNat ≠ 0 := toNat_ne_zero_iff.mpr htime
    have hactual : (s.add e).actual = s.actual + (s.lastTime - e.time.toNat) := if_pos hs
    have hlast : (s.add e).lastTime = e.time.toNat := rfl
    rw [List.foldl_cons, ih hrest (by omega), hactual, hlast]
    omega

theorem lastTime_foldl {blocks : List ChainEntry} {oldest : ChainEntry}
    (h : blocks.getLast? = some oldest) (s : Sample) :
    (blocks.foldl Sample.add s).lastTime = oldest.time.toNat := by
  obtain ⟨newer, rfl⟩ := List.getLast?_eq_some_iff.mp h
  rw [List.foldl_append]
  rfl

/-- The seconds of a sample are those from its oldest block to its newest. -/
theorem actual_ofBlocks {tip oldest : ChainEntry} {older : List ChainEntry}
    (hlast : (tip :: older).getLast? = some oldest) (htimes : ∀ e ∈ tip :: older, e.time ≠ 0) :
    (Sample.ofBlocks (tip :: older)).actual = (tip.time.toNat : Int) - oldest.time.toNat := by
  obtain ⟨htip, holder⟩ := List.forall_mem_cons.mp htimes
  have hpos : tip.time.toNat ≠ 0 := toNat_ne_zero_iff.mpr htip
  have hstart : (Sample.none.add tip).actual = 0 ∧
      (Sample.none.add tip).lastTime = tip.time.toNat := ⟨rfl, rfl⟩
  have hclock := clock_foldl holder (s := Sample.none.add tip) (by omega)
  have hend := lastTime_foldl hlast Sample.none
  rw [List.foldl_cons] at hend
  rw [Sample.ofBlocks, List.foldl_cons]
  omega

theorem actual_ofTrail {tip oldest : ChainEntry} {n : Nat} (hne : tip.height ≠ 0) (hn : 0 < n)
    (hlast : (tip.trail index n).getLast? = some oldest)
    (htimes : ∀ e ∈ tip.trail index n, e.time ≠ 0) :
    (Sample.ofBlocks (tip.trail index n)).actual = (tip.time.toNat : Int) - oldest.time.toNat := by
  obtain ⟨older, htrail⟩ : ∃ older, tip.trail index n = tip :: older :=
    ChainEntry.trail_eq_cons hne hn
  rw [htrail] at hlast htimes ⊢
  exact actual_ofBlocks hlast htimes

end DarkGravity

namespace Kimoto
variable {envelope : Envelope} {tip : ChainEntry} {rules : RuleSet}

theorem minBlocks_le_maxBlocks (hspacing : 0 < rules.spacing) :
    minBlocks rules ≤ maxBlocks rules := by
  have hle : shortSeconds.tdiv rules.spacing ≤ longSeconds.tdiv rules.spacing := by
    rw [Int.tdiv_eq_ediv_of_nonneg (by decide), Int.tdiv_eq_ediv_of_nonneg (by decide)]
    exact Int.ediv_le_ediv hspacing (by decide)
  unfold minBlocks maxBlocks
  omega

/-- One more block in the sample of this tip, as a step of a fold. -/
abbrev step (tip : ChainEntry) (spacing : Int) (s : Sample) (e : ChainEntry) : Sample :=
  s.add tip e spacing

/-- The sample that these blocks make up below a tip, newest first. -/
def Sample.ofBlocks (tip : ChainEntry) (spacing : Int) (blocks : List ChainEntry) : Sample :=
  blocks.foldl (step tip spacing) .none

/-- The blocks that the loop takes from a trail: a beginning of it, no longer than a long window
allows, which is all of the trail unless it fills a short window. -/
structure Taken (rules : RuleSet) (before : Nat) (trail blocks : List ChainEntry) : Prop where
  isTake : ∃ n, blocks = trail.take n
  long : 0 < maxBlocks rules → before ≤ maxBlocks rules → before + blocks.length ≤ maxBlocks rules
  short : blocks = trail ∨ minBlocks rules ≤ before + blocks.length

theorem Taken.nil {before : Nat} {trail : List ChainEntry}
    (h : trail = [] ∨ minBlocks rules ≤ before) : Taken rules before trail [] where
  isTake := ⟨0, rfl⟩
  long _ hbefore := hbefore
  short := by
    rcases h with rfl | hmin
    · exact Or.inl rfl
    · exact Or.inr hmin

theorem Taken.cons {before : Nat} {trail blocks : List ChainEntry} {e : ChainEntry}
    (hroom : ¬ (0 < maxBlocks rules ∧ maxBlocks rules < before + 1))
    (h : Taken rules (before + 1) trail blocks) :
    Taken rules before (e :: trail) (e :: blocks) where
  isTake := by
    obtain ⟨n, rfl⟩ := h.isTake
    exact ⟨n + 1, rfl⟩
  long hmax _ := by
    have hlong := h.long hmax (by omega)
    rw [List.length_cons]
    omega
  short := by
    rcases h.short with hall | hmin
    · exact Or.inl (by rw [hall])
    · refine Or.inr ?_
      rw [List.length_cons]
      omega

/-- A short window is not empty, so the newest block of the trail is taken. -/
theorem Taken.exists_cons {e : ChainEntry} {older blocks : List ChainEntry}
    (h : Taken rules 0 (e :: older) blocks) (hmin : 0 < minBlocks rules) :
    ∃ rest, blocks = e :: rest := by
  obtain ⟨n, hn⟩ := h.isTake
  cases n with
  | zero =>
    rcases h.short with hall | hfull
    · exact ⟨older, hall⟩
    · rw [hn, List.take_zero, List.length_nil] at hfull
      omega
  | succ n => exact ⟨older.take n, hn⟩

theorem gather_eq_foldl (hspacing : 0 < rules.spacing) (fuel : Nat) (e : ChainEntry) (s : Sample) :
    ∃ blocks, Taken rules s.mass (e.trail index fuel) blocks ∧
      gather envelope index tip rules fuel e s = blocks.foldl (step tip rules.spacing) s := by
  induction fuel generalizing e s with
  | zero => exact ⟨[], .nil (Or.inl rfl), rfl⟩
  | succ fuel ih =>
    have hshort := minBlocks_le_maxBlocks hspacing
    rw [gather, ChainEntry.trail]
    by_cases hground : e.height = 0
    · rw [if_pos hground, if_pos hground]
      exact ⟨[], .nil (Or.inl rfl), rfl⟩
    rw [if_neg hground, if_neg hground]
    by_cases hroom : 0 < maxBlocks rules ∧ maxBlocks rules < s.mass + 1
    · rw [if_pos hroom]
      exact ⟨[], .nil (Or.inr (by omega)), rfl⟩
    rw [if_neg hroom]
    dsimp only
    by_cases hstop : minBlocks rules ≤ (s.add tip e rules.spacing).mass ∧
        envelope (s.add tip e rules.spacing).mass (s.add tip e rules.spacing).actual
          (s.add tip e rules.spacing).expected
    · rw [if_pos hstop]
      exact ⟨[e], Taken.cons hroom (.nil (Or.inr hstop.1)), rfl⟩
    rw [if_neg hstop]
    cases index e with
    | none => exact ⟨[e], Taken.cons hroom (.nil (Or.inl rfl)), rfl⟩
    | some parent =>
      obtain ⟨blocks, htaken, heq⟩ := ih parent (s.add tip e rules.spacing)
      exact ⟨e :: blocks, Taken.cons hroom htaken, heq⟩

theorem sample_eq (hspacing : 0 < rules.spacing) (tip : ChainEntry) : ∃ blocks,
    Taken rules 0 (tip.trail index tip.height.toNat) blocks ∧
      sample envelope index tip rules = .ofBlocks tip rules.spacing blocks :=
  gather_eq_foldl hspacing tip.height.toNat tip .none

theorem mass_foldl (spacing : Int) (blocks : List ChainEntry) (s : Sample) :
    (blocks.foldl (step tip spacing) s).mass = s.mass + blocks.length := by
  induction blocks generalizing s with
  | nil => rfl
  | cons e blocks ih =>
    have hmass : (s.add tip e spacing).mass = s.mass + 1 := rfl
    rw [List.foldl_cons, ih, hmass, List.length_cons]
    omega

@[simp] theorem mass_ofBlocks (spacing : Int) (blocks : List ChainEntry) :
    (Sample.ofBlocks tip spacing blocks).mass = blocks.length := by
  rw [Sample.ofBlocks, mass_foldl]
  exact Nat.zero_add _

theorem expected_ofBlocks (spacing : Int) (blocks : List ChainEntry) :
    (Sample.ofBlocks tip spacing blocks).expected = spacing * blocks.length := by
  have hfold (s : Sample) (h : s.expected = spacing * s.mass) :
      (blocks.foldl (step tip spacing) s).expected =
        spacing * (blocks.foldl (step tip spacing) s).mass :=
    List.foldlRecOn (motive := fun s : Sample => s.expected = spacing * s.mass) blocks _ h
      fun _ _ _ _ => rfl
  have hmass : (Sample.ofBlocks tip spacing blocks).mass = blocks.length :=
    mass_ofBlocks spacing blocks
  rw [← hmass]
  exact hfold .none (Int.mul_zero spacing).symm

/-- The seconds of a sample are never negative, and are a 32-bit number. -/
theorem actual_ofBlocks (spacing : Int) (blocks : List ChainEntry) :
    0 ≤ (Sample.ofBlocks tip spacing blocks).actual ∧
      (Sample.ofBlocks tip spacing blocks).actual < 2 ^ 32 := by
  have hnone : 0 ≤ Sample.none.actual ∧ Sample.none.actual < 2 ^ 32 := by decide
  refine List.foldlRecOn (motive := fun s : Sample => 0 ≤ s.actual ∧ s.actual < 2 ^ 32) blocks _
    hnone fun s _ e _ => ?_
  have hlt := tip.time.toNat_lt
  simp only [step, Sample.add]
  omega

end Kimoto
end PowConsensus
