import PowConsensus.Proofs.Retarget.Blocks
import PowConsensus.Proofs.Retarget.Samples

/-! # Sampling loops cut off after some rounds

With less fuel a sampling loop stops after as many rounds, so the sample it returns is the one that
the full loop has by then. It is made up of the first of the blocks that the full loop reads.
-/
namespace PowConsensus
variable {index : ChainIndex} {tip e : ChainEntry} {rounds fuel : Nat}

theorem foldl_take_succ {α β : Type} (f : β → α → β) (init : β) {xs : List α} {i : Nat} {x : α}
    (h : xs[i]? = some x) : (xs.take (i + 1)).foldl f init = f ((xs.take i).foldl f init) x := by
  rw [List.take_add_one, h, Option.toList_some, List.foldl_append, List.foldl_cons, List.foldl_nil]

namespace DarkGravity

theorem gather_eq_take (h : rounds ≤ window) : gather index rounds tip .none =
    .ofBlocks ((tip.trail index window).take rounds) := by
  rw [ChainEntry.take_trail, Nat.min_eq_left h]
  exact gather_eq_foldl rounds tip .none

end DarkGravity

namespace Kimoto
variable {envelope : Envelope} {rules : RuleSet} {s : Sample}

theorem mass_le_gather (fuel : Nat) (e : ChainEntry) (s : Sample) :
    s.mass ≤ (gather envelope index tip rules fuel e s).mass := by
  obtain ⟨_, hmass⟩ := gather_preserves (P := fun _ t => s.mass ≤ t.mass)
    (fun _ _ _ h => Nat.le_succ_of_le h) (Nat.le_refl s.mass)
  exact hmass

/-- Whatever ends the full loop ends a loop of fewer rounds, unless those run out before. -/
theorem mass_gather (h : rounds ≤ fuel) : (gather envelope index tip rules rounds e s).mass =
    min (s.mass + rounds) (gather envelope index tip rules fuel e s).mass := by
  induction rounds generalizing fuel e s with
  | zero => exact (Nat.min_eq_left (mass_le_gather fuel e s)).symm
  | succ rounds ih =>
    obtain ⟨fuel, rfl⟩ := Nat.exists_eq_add_one_of_ne_zero (show fuel ≠ 0 by omega)
    have hnext : (s.add tip e rules.spacing).mass = s.mass + 1 := rfl
    rw [gather, gather]
    split
    · omega
    split
    · omega
    dsimp only
    split
    · omega
    cases index e with
    | none => dsimp only; omega
    | some parent =>
      dsimp only
      rw [ih (Nat.le_of_succ_le_succ h), hnext]
      omega

/-- The loop takes the newest blocks of the trail, as many as the sample counts. -/
theorem gather_eq_ofBlocks (hspacing : 0 < rules.spacing) (fuel : Nat) :
    let s := gather envelope index tip rules fuel tip .none
    s = .ofBlocks tip rules.spacing (tip.trail index s.mass) ∧
      (tip.trail index s.mass).length = s.mass := by
  intro s
  obtain ⟨blocks, htaken, hs⟩ : ∃ blocks, Taken rules 0 (tip.trail index fuel) blocks ∧
      s = .ofBlocks tip rules.spacing blocks := gather_eq_foldl hspacing fuel tip .none
  have hmass : blocks.length = s.mass := by rw [hs, mass_ofBlocks]
  have hlength : (tip.trail index fuel).length ≤ fuel := ChainEntry.length_trail_le fuel tip
  obtain ⟨n, hn⟩ := htaken.isTake
  have hcount : s.mass = min n (tip.trail index fuel).length := by
    rw [← hmass, hn, List.length_take]
  have hblocks : blocks = tip.trail index s.mass := by
    rw [hn, List.take_eq_take_min, ← hcount, ChainEntry.take_trail, Nat.min_eq_left (by omega)]
  rw [← hblocks]
  exact ⟨hs, hmass⟩

/-- The blocks that the full loop reads, cut off after the rounds of the shorter one. -/
theorem gather_eq_take (hspacing : 0 < rules.spacing)
    (h : rounds ≤ (gather envelope index tip rules fuel tip .none).mass) :
    gather envelope index tip rules rounds tip .none = .ofBlocks tip rules.spacing
      ((tip.trail index (gather envelope index tip rules fuel tip .none).mass).take rounds) := by
  have hnone : Sample.none.mass = 0 := rfl
  have hfull : (gather envelope index tip rules fuel tip .none).mass =
      min (Sample.none.mass + fuel) (gather envelope index tip rules fuel tip .none).mass :=
    mass_gather (Nat.le_refl fuel)
  have hshort : (gather envelope index tip rules rounds tip .none).mass =
      min (Sample.none.mass + rounds) (gather envelope index tip rules fuel tip .none).mass :=
    mass_gather (by omega)
  have hmass : (gather envelope index tip rules rounds tip .none).mass = rounds := by omega
  obtain ⟨hblocks, -⟩ : gather envelope index tip rules rounds tip .none =
      .ofBlocks tip rules.spacing
        (tip.trail index (gather envelope index tip rules rounds tip .none).mass) ∧ _ :=
    gather_eq_ofBlocks hspacing rounds
  rw [ChainEntry.take_trail, Nat.min_eq_left h, hblocks, hmass]

end Kimoto
end PowConsensus
