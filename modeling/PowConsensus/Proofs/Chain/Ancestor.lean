import PowConsensus.Proofs.Chain.Growth
import PowConsensus.Proofs.Chain.Walk

/-! # How far a walk gets

A walk can be cut in two at any step, whatever function gives the predecessors. Over a segment it
gets to the base from every entry whose parent is held, and nowhere from any other, be the entry
held or not. So the start of a window is there exactly when all heights are held that it spans.
-/
namespace PowConsensus

namespace ChainEntry
variable {index : ChainIndex} {e parent : ChainEntry}

theorem ancestor_of_no_parent (h : index e = none) (steps : Nat) :
    e.ancestor index steps = (e, 0) := by
  cases steps with
  | zero => rfl
  | succ steps => rw [ancestor, h]

theorem ancestor_of_parent (h : index e = some parent) (steps : Nat) :
    e.ancestor index (steps + 1) =
      ((parent.ancestor index steps).1, (parent.ancestor index steps).2 + 1) := by
  rw [ancestor, h]

/-- The second walk goes on where the first one stopped, and nowhere if it was cut short. -/
theorem ancestor_add (index : ChainIndex) (e : ChainEntry) (first second : Nat) :
    e.ancestor index (first + second) =
      (((e.ancestor index first).1.ancestor index second).1,
        (e.ancestor index first).2 + ((e.ancestor index first).1.ancestor index second).2) := by
  -- Over all entries, since after a step the first walk goes on from the parent.
  induction first generalizing e with
  | zero => simp only [Nat.zero_add, ancestor]
  | succ first ih =>
    cases hparent : index e with
    | none => simp only [ancestor_of_no_parent hparent]
    | some parent =>
      have hwhole := ancestor_of_parent hparent (first + second)
      rw [ih parent] at hwhole
      rw [Nat.add_right_comm, hwhole, ancestor_of_parent hparent first, Nat.add_right_comm]

end ChainEntry

namespace Segment
variable {c : Segment} {e tip first : ChainEntry}

/-- There is a parent of what is above the base, up to the height right above the tip. -/
theorem isSome_predecessor_iff : (c.predecessor e).isSome = true ↔
    c.base.toNat < e.height.toNat ∧ e.height.toNat ≤ c.base.toNat + c.size := by
  by_cases h0 : e.height = 0
  · have hzero : e.height.toNat = 0 := congrArg UInt32.toNat h0
    rw [predecessor, if_pos h0, hzero]
    simp
  · have hpos := toNat_ne_zero_iff.mpr h0
    rw [predecessor, if_neg h0, isSome_get?_iff, toNat_sub_one h0]
    omega

/-- However far a walk gets, it ends as many heights lower as it took steps. -/
theorem behind_ancestor (c : Segment) (e : ChainEntry) (steps : Nat) :
    c.Behind e (e.ancestor c.predecessor steps).2 (e.ancestor c.predecessor steps).1 := by
  induction steps generalizing e with
  | zero => exact behind_zero c e
  | succ steps ih =>
    cases hparent : c.predecessor e with
    | none =>
      rw [ChainEntry.ancestor_of_no_parent hparent]
      exact behind_zero c e
    | some parent =>
      rw [ChainEntry.ancestor_of_parent hparent]
      exact (ih parent).succ hparent

/-- As many steps as there are blocks behind the entry, down to the base. -/
theorem ancestor_count (c : Segment) (e : ChainEntry) (steps : Nat) :
    (e.ancestor c.predecessor steps).2 =
      if e.height.toNat ≤ c.base.toNat ∨ c.base.toNat + c.size < e.height.toNat then 0
      else min steps (e.height.toNat - c.base.toNat) := by
  cases hparent : c.predecessor e with
  | none =>
    have hnone : ¬ (c.predecessor e).isSome = true := by rw [hparent]; exact Bool.false_ne_true
    rw [isSome_predecessor_iff] at hnone
    rw [ChainEntry.ancestor_of_no_parent hparent, if_pos (by omega)]
  | some parent =>
    have hsome : (c.predecessor e).isSome = true := by rw [hparent]; rfl
    rw [isSome_predecessor_iff] at hsome
    rw [if_neg (by omega)]
    -- Only the entry itself may not be held: from its parent on the walk is over blocks that are.
    cases steps with
    | zero => exact (Nat.zero_min _).symm
    | succ steps =>
      have hheight := height_of_predecessor hparent
      have hcount := ((holds_of_predecessor hparent).ancestor steps).1
      rw [ChainEntry.ancestor_of_parent hparent]
      dsimp only at hcount ⊢
      omega

theorem not_lacksBelow_iff {width : Nat} : ¬ c.LacksBelow tip width ↔
    ∀ j, 0 < j → j ≤ width → ∃ x, c.Holds x ∧ x.height.toNat + j = tip.height.toNat := by
  constructor
  · intro hall j hpos hle
    exact Classical.byContradiction fun hnone =>
      hall ⟨j, hpos, hle, fun x hx hsum => hnone ⟨x, hx, hsum⟩⟩
  · rintro hall ⟨j, hpos, hle, hnone⟩
    obtain ⟨x, hx, hsum⟩ := hall j hpos hle
    exact hnone x hx hsum

section Window
variable {blocks : Int} (hblocks : blocks.toNat < UInt32.size)
include hblocks

theorem isSome_windowStart?_iff :
    (windowStart? c.predecessor tip blocks).isSome = true ↔ ¬ c.LacksBelow tip blocks.toNat := by
  constructor
  · intro hsome hlacks
    rw [windowStart?_of_lacks hblocks hlacks] at hsome
    exact Bool.false_ne_true hsome
  · intro hall
    obtain ⟨first, hstart, -⟩ := windowStart?_of_not_lacks hblocks hall
    rw [hstart]
    rfl

theorem behind_of_windowStart? (h : windowStart? c.predecessor tip blocks = some first) :
    c.Behind tip blocks.toNat first := by
  have hall : ¬ c.LacksBelow tip blocks.toNat :=
    (isSome_windowStart?_iff hblocks).mp (Option.isSome_iff_exists.mpr ⟨first, h⟩)
  obtain ⟨reached, hstart, hbehind⟩ := windowStart?_of_not_lacks hblocks hall
  cases hstart.symm.trans h
  exact hbehind

end Window
end Segment

open Segment in
/-- Under any index a walk of two counts of steps is a walk of the first and one of the second from
the block reached. Over a segment, from any entry, held or not: no step is taken from the base or
below it, nor from higher than right above the tip; from elsewhere as many are taken as asked for or
as there are to the base. The block reached is that many heights lower, and held if it is not the
entry itself. So the start of a window is found exactly if all heights below the tip that the window
spans are held, and it is the block at the lowest of them. -/
theorem walk_ends_at_held_ancestor :
    (∀ (index : ChainIndex) (e : ChainEntry) (first second : Nat),
      e.ancestor index (first + second) =
        (((e.ancestor index first).1.ancestor index second).1,
          (e.ancestor index first).2 + ((e.ancestor index first).1.ancestor index second).2)) ∧
    ∀ (c : Segment) (e : ChainEntry),
      (∀ steps : Nat,
        let reached := e.ancestor c.predecessor steps
        reached.2 =
          (if e.height.toNat ≤ c.base.toNat ∨ c.base.toNat + c.size < e.height.toNat then 0
          else min steps (e.height.toNat - c.base.toNat)) ∧
        (reached.2 = 0 → reached.1 = e) ∧
        (reached.2 ≠ 0 → c.Holds reached.1 ∧
          reached.1.height.toNat + reached.2 = e.height.toNat)) ∧
      ∀ blocks : Int, 0 ≤ blocks → blocks < 2 ^ 32 →
        ((windowStart? c.predecessor e blocks).isSome = true ↔
          ∀ j : Nat, 0 < j → (j : Int) ≤ blocks →
            ∃ x, c.Holds x ∧ x.height.toNat + j = e.height.toNat) ∧
        ∀ first, windowStart? c.predecessor e blocks = some first →
          c.Behind e blocks.toNat first := by
  refine ⟨ChainEntry.ancestor_add, fun c e => ⟨fun steps => ?_, fun blocks hpos hlt => ?_⟩⟩
  · have hbehind := behind_ancestor c e steps
    exact ⟨ancestor_count c e steps, hbehind.eq_start,
      fun htaken => ⟨hbehind.held htaken, hbehind.height_eq⟩⟩
  · have hblocks : blocks.toNat < UInt32.size := by
      simp only [UInt32.size]
      omega
    refine ⟨?_, fun first => behind_of_windowStart? hblocks⟩
    rw [isSome_windowStart?_iff hblocks, not_lacksBelow_iff]
    exact forall_congr' fun j => forall_congr' fun _ => imp_congr (by omega) Iff.rfl

open Segment in
/-- Walks from right above the tip of three blocks, by an entry that is not held. -/
theorem walk_ends_at_held_ancestor_from_entry_not_held :
    let c := (startingAt 5).pushAll [(100, ⟨1⟩), (140, ⟨2⟩), (180, ⟨3⟩)]
    let base := ChainEntry.unhashed 5 100 ⟨1⟩
    let e := ChainEntry.unhashed 8 0 ⟨0⟩
    ¬ c.Holds e ∧ e.ancestor c.predecessor (2 + 7) = (base, 3) ∧
      windowStart? c.predecessor e 3 = some base ∧ c.Behind e 3 base ∧
      (∃ x, c.Holds x ∧ x.height.toNat + 2 = 8) ∧
      ¬ ∀ j : Nat, 0 < j → (j : Int) ≤ 4 → ∃ x, c.Holds x ∧ x.height.toNat + j = 8 := by
  intro c base e
  obtain ⟨hadd, hwalk⟩ := walk_ends_at_held_ancestor
  obtain ⟨hthree, hbehind⟩ := (hwalk c e).2 3 (by decide) (by decide)
  obtain ⟨hfour, -⟩ := (hwalk c e).2 4 (by decide) (by decide)
  have hstart : windowStart? c.predecessor e 3 = some base := by decide
  have hnone : windowStart? c.predecessor e 4 = none := by decide
  have hheld := hthree.mp (Option.isSome_iff_exists.mpr ⟨base, hstart⟩)
  refine ⟨by decide, (hadd c.predecessor e 2 7).trans (by decide), hstart, hbehind base hstart,
    hheld 2 (by decide) (by decide), fun hall => ?_⟩
  have hsome := hfour.mpr hall
  rw [hnone] at hsome
  exact Bool.false_ne_true hsome

end PowConsensus
