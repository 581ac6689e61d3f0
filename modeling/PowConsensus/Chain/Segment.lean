import PowConsensus.Chain.Index

/-! # Segments

A run of entries at consecutive heights from a base height on; below the base the history is
unknown. A segment is found by `ofEntries?` or grown by `push`, which assigns the next height.
Heights are 32-bit numbers, and a run that reached the largest one would go on at zero.
-/
namespace PowConsensus

structure Segment where
  base : UInt32
  entries : Array ChainEntry
  height_eq : ∀ (i : Nat) (h : i < entries.size), entries[i].height = base + UInt32.ofNat i

namespace Segment

def startingAt (base : UInt32) : Segment := ⟨base, #[], fun i h => absurd h (Nat.not_lt_zero i)⟩

def empty : Segment := startingAt 0

def size (c : Segment) : Nat := c.entries.size

def tip? (c : Segment) : Option ChainEntry := c.entries.back?

/-- Whether the heights go up by one each, from `base` on. -/
def consecutive (base : Nat) : List ChainEntry → Bool
  | [] => true
  | e :: rest => e.height.toNat == base && consecutive (base + 1) rest

theorem height_of_consecutive {base : Nat} {entries : List ChainEntry}
    (h : consecutive base entries = true) (i : Nat) (hi : i < entries.length) :
    entries[i].height.toNat = base + i := by
  induction entries generalizing base i with
  | nil => exact absurd hi (Nat.not_lt_zero i)
  | cons e rest ih =>
    simp only [consecutive, Bool.and_eq_true, beq_iff_eq] at h
    cases i with
    | zero => exact h.1
    | succ i =>
      have hrest := ih h.2 i (Nat.lt_of_succ_lt_succ hi)
      simp only [List.getElem_cons_succ, hrest]
      omega

/-- Entries whose heights have gaps are no segment. -/
def ofEntries? (entries : List ChainEntry) : Option Segment :=
  let base := (entries.head?.map (·.height)).getD 0
  if h : consecutive base.toNat entries then
    some ⟨base, entries.toArray, by
      intro i hi
      have hi' := height_of_consecutive h i hi
      have hlt := (entries.get ⟨i, hi⟩).height.toNat_lt
      simp only [List.get_eq_getElem] at hlt
      apply UInt32.toNat_inj.mp
      simp only [UInt32.toNat_add, UInt32.toNat_ofNat', List.getElem_toArray] at hi' ⊢
      omega⟩
  else none

def nextHeight (c : Segment) : UInt32 := c.base + UInt32.ofNat c.size

def nextEntry (c : Segment) (time : UInt32) (bits : CompactTarget) : ChainEntry :=
  .unhashed c.nextHeight time bits

def push (c : Segment) (time : UInt32) (bits : CompactTarget) : Segment where
  base := c.base
  entries := c.entries.push (c.nextEntry time bits)
  height_eq i h := by
    rw [Array.getElem_push]
    split
    · exact c.height_eq i _
    · have hi : i = c.size := by
        rw [Array.size_push] at h
        unfold size
        omega
      rw [hi]
      rfl

/-- The entry held at a height. -/
def get? (c : Segment) (height : UInt32) : Option ChainEntry :=
  if c.base ≤ height then c.entries[height.toNat - c.base.toNat]? else none

theorem height_of_get? {c : Segment} {height : UInt32} {e : ChainEntry}
    (h : c.get? height = some e) : e.height = height := by
  unfold get? at h
  split at h
  next hbase =>
    obtain ⟨hi, rfl⟩ := Array.getElem?_eq_some_iff.mp h
    have hle : c.base.toNat ≤ height.toNat := UInt32.le_iff_toNat_le.mp hbase
    have hlt := height.toNat_lt
    rw [c.height_eq _ hi]
    apply UInt32.toNat_inj.mp
    simp only [UInt32.toNat_add, UInt32.toNat_ofNat']
    omega
  next => exact absurd h (by simp)

def predecessor (c : Segment) : ChainIndex := fun e =>
  if e.height = 0 then none else c.get? (e.height - 1)

/-- A predecessor is one lower, so walks over predecessors end. -/
theorem height_of_predecessor {c : Segment} {e parent : ChainEntry}
    (h : c.predecessor e = some parent) : parent.height.toNat + 1 = e.height.toNat := by
  unfold predecessor at h
  split at h
  next => exact absurd h (by simp)
  next hne =>
    have hpos : e.height.toNat ≠ 0 := fun h0 => hne (UInt32.toNat_inj.mp (by simpa using h0))
    have hlt := e.height.toNat_lt
    rw [height_of_get? h, UInt32.toNat_sub]
    simp only [UInt32.toNat_one]
    omega

end Segment
end PowConsensus
