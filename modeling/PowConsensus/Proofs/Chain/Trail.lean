import PowConsensus.Proofs.Chain.Access
import PowConsensus.Retarget.Window

/-! # Walking back over a segment

From an entry that a segment holds, predecessors go down one height at a time as far as the base.
This settles what is found a number of blocks behind the tip, and which blocks a sampling loop can
read: those from the tip downwards without a gap, but not the one at height zero.
-/
namespace PowConsensus

namespace ChainEntry
variable {index : ChainIndex}

/-- At most so many blocks from an entry backwards, newest first, without the one at height zero. -/
def trail (index : ChainIndex) : Nat → ChainEntry → List ChainEntry
  | 0, _ => []
  | n + 1, e =>
    if e.height = 0 then []
    else e :: match index e with
      | none => []
      | some parent => trail index n parent

theorem length_trail_le (n : Nat) (e : ChainEntry) : (e.trail index n).length ≤ n := by
  induction n generalizing e with
  | zero => exact Nat.le_refl 0
  | succ n ih =>
    rw [trail]
    split
    · exact Nat.zero_le _
    · rw [List.length_cons]
      apply Nat.succ_le_succ
      cases index e with
      | none => exact Nat.zero_le _
      | some parent => exact ih parent

theorem trail_eq_cons {e : ChainEntry} (h : e.height ≠ 0) {n : Nat} (hn : 0 < n) :
    ∃ older, e.trail index n = e :: older := by
  obtain ⟨m, rfl⟩ := Nat.exists_eq_add_one_of_ne_zero (Nat.ne_of_gt hn)
  exact ⟨_, if_neg h⟩

/-- A longer trail goes on from a shorter one. -/
theorem take_trail (k n : Nat) (e : ChainEntry) :
    (e.trail index n).take k = e.trail index (min k n) := by
  induction n generalizing k e with
  | zero => rw [Nat.min_zero, trail, List.take_nil]
  | succ n ih =>
    cases k with
    | zero => rw [Nat.zero_min, trail, List.take_zero]
    | succ k =>
      rw [Nat.succ_min_succ, trail, trail]
      split
      · exact List.take_nil
      · rw [List.take_succ_cons]
        cases index e with
        | none => rw [List.take_nil]
        | some parent => rw [ih]

/-- What holds of an entry and of every predecessor holds of its trail. -/
theorem forall_mem_trail {P : ChainEntry → Prop}
    (hindex : ∀ {e parent}, index e = some parent → P parent) {e : ChainEntry} (he : P e)
    (n : Nat) : ∀ x ∈ e.trail index n, P x := by
  induction n generalizing e with
  | zero => exact List.forall_mem_nil P
  | succ n ih =>
    rw [trail]
    split
    · exact List.forall_mem_nil P
    · refine List.forall_mem_cons.mpr ⟨he, ?_⟩
      cases hp : index e with
      | none => exact List.forall_mem_nil P
      | some parent => exact ih (hindex hp)

end ChainEntry

namespace Segment
variable {c : Segment} {e tip : ChainEntry}

/-- The entry is what the segment answers at its height. -/
def Holds (c : Segment) (e : ChainEntry) : Prop := c.get? e.height = some e

instance (c : Segment) (e : ChainEntry) : Decidable (c.Holds e) :=
  inferInstanceAs (Decidable (c.get? e.height = some e))

theorem base_le_of_get? {height : UInt32} (h : c.get? height = some e) :
    c.base.toNat ≤ height.toNat := by
  unfold get? at h
  split at h
  next hbase => exact UInt32.le_iff_toNat_le.mp hbase
  next => exact absurd h (by simp)

/-- A segment has no gap: below a height that it answers at it answers down to the base. -/
theorem exists_get?_of_le {height lower : UInt32} (h : c.get? height = some e)
    (hbase : c.base.toNat ≤ lower.toNat) (hle : lower.toNat ≤ height.toNat) :
    ∃ x, c.get? lower = some x := by
  unfold get? at h ⊢
  split at h
  next =>
    obtain ⟨hsize, -⟩ := Array.getElem?_eq_some_iff.mp h
    rw [if_pos (UInt32.le_iff_toNat_le.mpr hbase)]
    exact ⟨_, Array.getElem?_eq_getElem (by omega)⟩
  next => exact absurd h (by simp)

theorem holds_of_get? {height : UInt32} (h : c.get? height = some e) : c.Holds e := by
  rw [Holds, height_of_get? h]
  exact h

theorem Holds.mem (h : c.Holds e) : e ∈ c.entries := mem_of_get? h

/-- Some of the `width` blocks right below the tip is not held. -/
def LacksBelow (c : Segment) (tip : ChainEntry) (width : Nat) : Prop :=
  ∃ j, 0 < j ∧ j ≤ width ∧ ∀ e, c.Holds e → e.height.toNat + j ≠ tip.height.toNat

section Held
variable (h : c.Holds e)
include h

theorem Holds.base_le : c.base.toNat ≤ e.height.toNat := base_le_of_get? h

/-- A segment has no gap, so the blocks that a tip lacks are those below the base. -/
theorem Holds.lacksBelow_iff {width : Nat} :
    c.LacksBelow e width ↔ e.height.toNat - c.base.toNat < width := by
  have hbase := h.base_le
  constructor
  · rintro ⟨j, hpos, hle, hnone⟩
    refine Nat.lt_of_not_le fun hwidth => ?_
    have hlt := e.height.toNat_lt
    have hlower : (e.height - UInt32.ofNat j).toNat = e.height.toNat - j := by
      rw [UInt32.toNat_sub, UInt32.toNat_ofNat']
      omega
    obtain ⟨x, hx⟩ : ∃ x, c.get? (e.height - UInt32.ofNat j) = some x :=
      exists_get?_of_le h (by omega) (by omega)
    apply hnone x (holds_of_get? hx)
    rw [height_of_get? hx]
    omega
  · intro hshort
    refine ⟨e.height.toNat - c.base.toNat + 1, Nat.succ_pos _, hshort, fun x hx hsum => ?_⟩
    have hlow : c.base.toNat ≤ x.height.toNat := base_le_of_get? hx
    omega

theorem Holds.predecessor (hbase : c.base.toNat < e.height.toNat) :
    ∃ parent, c.predecessor e = some parent ∧ c.Holds parent := by
  have hne : e.height ≠ 0 := toNat_ne_zero_iff.mp (by omega)
  have hlt := e.height.toNat_lt
  have hlower := toNat_sub_one hne
  obtain ⟨parent, hparent⟩ : ∃ parent, c.get? (e.height - 1) = some parent :=
    exists_get?_of_le h (by omega) (by omega)
  refine ⟨parent, ?_, holds_of_get? hparent⟩
  rw [Segment.predecessor, if_neg hne]
  exact hparent

omit h in
theorem predecessor_eq_none (hbase : e.height.toNat = c.base.toNat) : c.predecessor e = none := by
  cases hp : c.predecessor e with
  | none => rfl
  | some parent =>
    have hheight := height_of_predecessor hp
    unfold Segment.predecessor at hp
    split at hp
    next => exact absurd hp (by simp)
    next =>
      have hle := base_le_of_get? hp
      rw [← height_of_get? hp] at hle
      omega

/-- A walk back takes the steps asked for, or as many as there are to the base. -/
theorem Holds.ancestor (steps : Nat) :
    let reached := e.ancestor c.predecessor steps
    reached.2 = min steps (e.height.toNat - c.base.toNat) ∧ c.Holds reached.1 ∧
      reached.1.height.toNat + reached.2 = e.height.toNat := by
  induction steps generalizing e with
  | zero => exact ⟨(Nat.zero_min _).symm, h, rfl⟩
  | succ steps ih =>
    rw [ChainEntry.ancestor]
    rcases Nat.eq_or_lt_of_le h.base_le with hbase | hbase
    · rw [predecessor_eq_none hbase.symm]
      exact ⟨by dsimp only; omega, h, rfl⟩
    · obtain ⟨parent, hp, hheld⟩ := h.predecessor hbase
      have hheight := height_of_predecessor hp
      obtain ⟨hcount, hreached, hsum⟩ := ih hheld
      rw [hp]
      exact ⟨by dsimp only; omega, hreached, by dsimp only; omega⟩

theorem Holds.windowStart? {blocks : Int}
    (hblocks : blocks.toNat ≤ e.height.toNat - c.base.toNat) :
    ∃ first, windowStart? c.predecessor e blocks = some first ∧ c.Holds first ∧
      first.height.toNat + blocks.toNat = e.height.toNat := by
  have hlt := e.height.toNat_lt
  have hsteps : min blocks.toNat (UInt32.size - 1) = blocks.toNat :=
    Nat.min_eq_left (by simp only [UInt32.size]; omega)
  obtain ⟨hcount, hheld, hsum⟩ := h.ancestor blocks.toNat
  rw [Nat.min_eq_left hblocks] at hcount
  refine ⟨_, ?_, hheld, by omega⟩
  simp only [PowConsensus.windowStart?, hsteps]
  rw [if_pos hcount]

theorem Holds.windowStart?_eq_none {blocks : Int} (hheight : e.height.toNat < UInt32.size - 1)
    (hblocks : e.height.toNat - c.base.toNat < blocks.toNat) :
    PowConsensus.windowStart? c.predecessor e blocks = none := by
  obtain ⟨hcount, -, -⟩ := h.ancestor (min blocks.toNat (UInt32.size - 1))
  simp only [PowConsensus.windowStart?]
  rw [if_neg (by omega)]

theorem Holds.length_trail (n : Nat) : (e.trail c.predecessor n).length =
    min n (min e.height.toNat (e.height.toNat - c.base.toNat + 1)) := by
  induction n generalizing e with
  | zero => exact (Nat.zero_min _).symm
  | succ n ih =>
    rw [ChainEntry.trail]
    by_cases h0 : e.height = 0
    · rw [if_pos h0, h0]
      exact (Nat.min_eq_zero_iff.mpr (Or.inr (Nat.zero_min _))).symm
    · have hpos : e.height.toNat ≠ 0 := toNat_ne_zero_iff.mpr h0
      rw [if_neg h0, List.length_cons]
      rcases Nat.eq_or_lt_of_le h.base_le with hbase | hbase
      · rw [predecessor_eq_none hbase.symm, List.length_nil]
        omega
      · obtain ⟨parent, hp, hheld⟩ := h.predecessor hbase
        have hheight := height_of_predecessor hp
        rw [hp]
        dsimp only
        rw [ih hheld]
        omega

end Held

/-- Blocks held at the heights from the tip downwards without a gap, and above height zero. -/
structure Descends (c : Segment) (tip : ChainEntry) (blocks : List ChainEntry) : Prop where
  height_eq : ∀ (i : Nat) (h : i < blocks.length), blocks[i].height.toNat + i = tip.height.toNat
  height_ne_zero : ∀ e ∈ blocks, e.height ≠ 0
  held : ∀ e ∈ blocks, c.Holds e

theorem Descends.take {blocks : List ChainEntry} (h : c.Descends tip blocks) (n : Nat) :
    c.Descends tip (blocks.take n) where
  height_eq i hi := by
    rw [List.getElem_take]
    exact h.height_eq i (Nat.lt_of_lt_of_le hi (List.length_take_le' n blocks))
  height_ne_zero e he := h.height_ne_zero e (List.mem_of_mem_take he)
  held e he := h.held e (List.mem_of_mem_take he)

theorem descends_nil (c : Segment) (tip : ChainEntry) : c.Descends tip [] :=
  ⟨fun _ hi => absurd hi (Nat.not_lt_zero _), List.forall_mem_nil _, List.forall_mem_nil _⟩

theorem Descends.cons {blocks : List ChainEntry} {parent : ChainEntry} (htip : c.Holds tip)
    (hne : tip.height ≠ 0) (hparent : parent.height.toNat + 1 = tip.height.toNat)
    (h : c.Descends parent blocks) : c.Descends tip (tip :: blocks) where
  height_eq i hi := by
    cases i with
    | zero => rfl
    | succ i =>
      have hrest := h.height_eq i (Nat.lt_of_succ_lt_succ hi)
      rw [List.getElem_cons_succ]
      omega
  height_ne_zero := List.forall_mem_cons.mpr ⟨hne, h.height_ne_zero⟩
  held := List.forall_mem_cons.mpr ⟨htip, h.held⟩

theorem Holds.descends_trail (h : c.Holds e) (n : Nat) :
    c.Descends e (e.trail c.predecessor n) := by
  induction n generalizing e with
  | zero => exact descends_nil c e
  | succ n ih =>
    rw [ChainEntry.trail]
    split
    · exact descends_nil c e
    next hne =>
      cases hp : c.predecessor e with
      | none =>
        refine ⟨fun i hi => ?_, ?_, ?_⟩
        · cases i with
          | zero => rfl
          | succ i => exact absurd (Nat.lt_of_succ_lt_succ hi) (Nat.not_lt_zero i)
        · exact List.forall_mem_singleton.mpr hne
        · exact List.forall_mem_singleton.mpr h
      | some parent =>
        have hbase : c.base.toNat < e.height.toNat := by
          refine Nat.lt_of_le_of_ne h.base_le fun heq => ?_
          rw [predecessor_eq_none heq.symm] at hp
          exact absurd hp (by simp)
        obtain ⟨held, hheld, hholds⟩ := h.predecessor hbase
        cases hheld.symm.trans hp
        exact (ih hholds).cons h hne (height_of_predecessor hp)

/-- At one height a segment holds one entry. -/
theorem Holds.eq_of_height {x y : ChainEntry} (hx : c.Holds x) (hy : c.Holds y)
    (h : x.height.toNat = y.height.toNat) : x = y := by
  have hheight : x.height = y.height := UInt32.toNat_inj.mp h
  rw [Holds, hheight] at hx
  exact Option.some.inj (hx.symm.trans hy)

/-- Blocks that go down from a held tip are its trail. -/
theorem Descends.eq_trail {blocks : List ChainEntry} (htip : c.Holds tip)
    (h : c.Descends tip blocks) : blocks = tip.trail c.predecessor blocks.length := by
  have hdescends := htip.descends_trail blocks.length
  have hlength : blocks.length = (tip.trail c.predecessor blocks.length).length := by
    have htrail := htip.length_trail blocks.length
    by_cases h0 : blocks.length = 0
    · rw [h0] at htrail ⊢
      exact htrail.symm
    · have hlast : blocks.length - 1 < blocks.length := by omega
      have hheight := h.height_eq (blocks.length - 1) hlast
      have hne := toNat_ne_zero_iff.mpr (h.height_ne_zero _ (List.getElem_mem hlast))
      have hbase := (h.held _ (List.getElem_mem hlast)).base_le
      omega
  apply List.ext_getElem hlength
  intro i hi hi'
  have hheight := h.height_eq i hi
  have hheight' := hdescends.height_eq i hi'
  exact (h.held _ (List.getElem_mem hi)).eq_of_height (hdescends.held _ (List.getElem_mem hi'))
    (by omega)

/-- The oldest of so many blocks that go down from a tip is the one held at its height. -/
theorem Descends.getLast?_eq {blocks : List ChainEntry} {oldest : ChainEntry} {back : Nat}
    (h : c.Descends tip blocks) (hlength : blocks.length = back + 1) (holdest : c.Holds oldest)
    (hback : oldest.height.toNat + back = tip.height.toNat) : blocks.getLast? = some oldest := by
  have hlast : back < blocks.length := by omega
  have hheight := h.height_eq back hlast
  rw [List.getLast?_eq_getElem?, hlength, Nat.add_sub_cancel, List.getElem?_eq_getElem hlast,
    Option.some_inj]
  exact (h.held _ (List.getElem_mem hlast)).eq_of_height holdest (by omega)

end Segment
end PowConsensus
