import PowConsensus.Proofs.Chain.Trail

/-! # Walks from any entry

Predecessors are found by height, so that a walk back need not start from an entry that the segment
holds. It takes all its steps exactly when every height right below its start is held, and then it
ends at the block that many heights lower.
-/
namespace PowConsensus.Segment
variable {c : Segment} {e first parent tip x : ChainEntry} {steps : Nat}

theorem holds_of_predecessor (h : c.predecessor e = some parent) : c.Holds parent := by
  unfold predecessor at h
  split at h
  next => exact absurd h (by simp)
  next => exact holds_of_get? h

theorem Holds.predecessor_eq (h : c.Holds x) (hheight : x.height.toNat + 1 = e.height.toNat) :
    c.predecessor e = some x := by
  have hne : e.height ≠ 0 := toNat_ne_zero_iff.mp (by omega)
  have hbelow : e.height - 1 = x.height := by
    apply UInt32.toNat_inj.mp
    rw [toNat_sub_one hne]
    omega
  rw [Segment.predecessor, if_neg hne, hbelow]
  exact h

theorem not_lacksBelow_zero : ¬ c.LacksBelow e 0 := by
  rintro ⟨j, hpos, hle, -⟩
  omega

theorem lacksBelow_of_no_predecessor (h : c.predecessor e = none) :
    c.LacksBelow e (steps + 1) := by
  refine ⟨1, Nat.one_pos, Nat.succ_le_succ (Nat.zero_le _), fun x hx hheight => ?_⟩
  rw [hx.predecessor_eq hheight] at h
  exact absurd h (by simp)

theorem lacksBelow_succ_iff (h : c.predecessor e = some parent) :
    c.LacksBelow e (steps + 1) ↔ c.LacksBelow parent steps := by
  have hparent := height_of_predecessor h
  constructor
  · rintro ⟨j, hpos, hle, hnone⟩
    -- The height right below `e` is that of the parent, which is held.
    have hne : j ≠ 1 := fun hj => hnone parent (holds_of_predecessor h) (by omega)
    exact ⟨j - 1, by omega, by omega, fun x hx hsum => hnone x hx (by omega)⟩
  · rintro ⟨j, hpos, hle, hnone⟩
    exact ⟨j + 1, by omega, by omega, fun x hx hsum => hnone x hx (by omega)⟩

/-- The block at the end of a walk of so many steps from `e`, which is `e` itself for none. -/
structure Behind (c : Segment) (e : ChainEntry) (steps : Nat) (first : ChainEntry) : Prop where
  height_eq : first.height.toNat + steps = e.height.toNat
  held : steps ≠ 0 → c.Holds first
  eq_start : steps = 0 → first = e

theorem behind_zero (c : Segment) (e : ChainEntry) : c.Behind e 0 e :=
  ⟨rfl, fun h => absurd rfl h, fun _ => rfl⟩

theorem Behind.succ (hp : c.predecessor e = some parent) (h : c.Behind parent steps first) :
    c.Behind e (steps + 1) first where
  height_eq := by
    have hparent := height_of_predecessor hp
    have hheight := h.height_eq
    omega
  held _ := by
    by_cases h0 : steps = 0
    · rw [h.eq_start h0]
      exact holds_of_predecessor hp
    · exact h.held h0
  eq_start h0 := absurd h0 (Nat.succ_ne_zero steps)

/-- A walk is cut short exactly when a height on its way is not held. -/
theorem ancestor_cases (c : Segment) (e : ChainEntry) (steps : Nat) :
    let reached := e.ancestor c.predecessor steps
    (c.LacksBelow e steps ∧ reached.2 < steps) ∨
      (¬ c.LacksBelow e steps ∧ reached.2 = steps ∧ c.Behind e steps reached.1) := by
  -- Over all entries, since the rest of a walk starts from the parent.
  induction steps generalizing e with
  | zero => exact Or.inr ⟨not_lacksBelow_zero, rfl, behind_zero c e⟩
  | succ steps ih =>
    rw [ChainEntry.ancestor]
    cases hp : c.predecessor e with
    | none => exact Or.inl ⟨lacksBelow_of_no_predecessor hp, Nat.succ_pos steps⟩
    | some parent =>
      rw [lacksBelow_succ_iff hp]
      rcases ih parent with ⟨hlacks, hcount⟩ | ⟨hall, hcount, hbehind⟩
      · exact Or.inl ⟨hlacks, Nat.succ_lt_succ hcount⟩
      · exact Or.inr ⟨hall, congrArg Nat.succ hcount, hbehind.succ hp⟩

section Window
variable {blocks : Int} (hblocks : blocks.toNat < UInt32.size)
include hblocks

theorem windowStart?_of_lacks (h : c.LacksBelow tip blocks.toNat) :
    windowStart? c.predecessor tip blocks = none := by
  have hsteps : min blocks.toNat (UInt32.size - 1) = blocks.toNat := by omega
  simp only [windowStart?, hsteps]
  rcases ancestor_cases c tip blocks.toNat with ⟨-, hcount⟩ | ⟨hall, -⟩
  · exact if_neg (Nat.ne_of_lt hcount)
  · exact absurd h hall

theorem windowStart?_of_not_lacks (h : ¬ c.LacksBelow tip blocks.toNat) :
    ∃ first, windowStart? c.predecessor tip blocks = some first ∧
      c.Behind tip blocks.toNat first := by
  have hsteps : min blocks.toNat (UInt32.size - 1) = blocks.toNat := by omega
  simp only [windowStart?, hsteps]
  rcases ancestor_cases c tip blocks.toNat with ⟨hlacks, -⟩ | ⟨-, hcount, hbehind⟩
  · exact absurd hlacks h
  · exact ⟨_, if_pos hcount, hbehind⟩

end Window
end PowConsensus.Segment
