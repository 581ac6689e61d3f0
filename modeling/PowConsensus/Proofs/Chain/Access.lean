import PowConsensus.Chain.Segment

/-! # What a segment answers at a height

The entry found at a height is held by the segment. Appending blocks leaves the heights below
them as they were, and taking entries away at the old end leaves the others as they were. Two
segments agree below a height over a width if they answer alike there; stepping to a predecessor
uses up one height of the width.
-/
namespace PowConsensus

theorem toNat_ne_zero_iff {x : UInt32} : x.toNat ≠ 0 ↔ x ≠ 0 := by
  rw [ne_eq, ne_eq, ← UInt32.toNat_inj, UInt32.toNat_zero]

theorem toNat_sub_one {x : UInt32} (h : x ≠ 0) : (x - 1).toNat = x.toNat - 1 := by
  have hpos := toNat_ne_zero_iff.mpr h
  have hlt := x.toNat_lt
  rw [UInt32.toNat_sub, UInt32.toNat_one]
  omega

namespace Segment
variable {c c₁ c₂ : Segment}

theorem mem_of_get? {height : UInt32} {e : ChainEntry} (h : c.get? height = some e) :
    e ∈ c.entries := by
  unfold get? at h
  split at h
  · exact Array.mem_of_getElem? h
  · exact absurd h (by simp)

theorem mem_of_predecessor {e parent : ChainEntry} (h : c.predecessor e = some parent) :
    parent ∈ c.entries := by
  unfold predecessor at h
  split at h
  · exact absurd h (by simp)
  · exact mem_of_get? h

theorem mem_of_tip? {tip : ChainEntry} (h : c.tip? = some tip) : tip ∈ c.entries :=
  Array.mem_of_back? h

section Push
variable {height : UInt32}

@[simp] theorem size_push (time : UInt32) (bits : CompactTarget) :
    (c.push time bits).size = c.size + 1 := Array.size_push ..

theorem forall_mem_push {P : ChainEntry → Prop} (h : ∀ e ∈ c.entries, P e) {time : UInt32}
    {bits : CompactTarget} (hnew : P (c.nextEntry time bits)) :
    ∀ e ∈ (c.push time bits).entries, P e := by
  intro e he
  rcases Array.mem_push.mp he with he | rfl
  · exact h e he
  · exact hnew

theorem get?_push_of_lt (h : height.toNat < c.base.toNat + c.size) (time : UInt32)
    (bits : CompactTarget) : (c.push time bits).get? height = c.get? height := by
  change (if c.base ≤ height then
    (c.entries.push (c.nextEntry time bits))[height.toNat - c.base.toNat]? else none) = _
  unfold get?
  by_cases hbase : c.base ≤ height
  · have hle := UInt32.le_iff_toNat_le.mp hbase
    have hne : height.toNat - c.base.toNat ≠ c.entries.size := by
      unfold size at h
      omega
    rw [if_pos hbase, if_pos hbase, Array.getElem?_push, if_neg hne]
  · rw [if_neg hbase, if_neg hbase]

/-- Appends blocks with the times and bits given, oldest first. -/
def pushAll (c : Segment) (blocks : List (UInt32 × CompactTarget)) : Segment :=
  blocks.foldl (fun c block => c.push block.1 block.2) c

theorem get?_pushAll_of_lt (h : height.toNat < c.base.toNat + c.size)
    (blocks : List (UInt32 × CompactTarget)) : (c.pushAll blocks).get? height = c.get? height := by
  induction blocks generalizing c with
  | nil => rfl
  | cons block blocks ih =>
    rw [← get?_push_of_lt h block.1 block.2]
    exact ih (by rw [size_push]; exact Nat.lt_succ_of_lt h)

end Push

section OfEntries
variable {entries : List ChainEntry}

theorem ofEntries?_spec (h : ofEntries? entries = some c) :
    c.entries.toList = entries ∧ consecutive c.base.toNat entries = true := by
  unfold ofEntries? at h
  dsimp only at h
  split at h
  next hcons =>
    cases h
    exact ⟨rfl, hcons⟩
  next => exact absurd h (by simp)

theorem get?_of_ofEntries? (h : ofEntries? entries = some c) {height : UInt32} {e : ChainEntry} :
    c.get? height = some e ↔ e ∈ entries ∧ e.height = height := by
  obtain ⟨hlist, hcons⟩ := ofEntries?_spec h
  constructor
  · intro hget
    have hmem := Array.mem_toList_iff.mpr (mem_of_get? hget)
    exact ⟨hlist ▸ hmem, height_of_get? hget⟩
  · rintro ⟨hmem, rfl⟩
    obtain ⟨i, hi, rfl⟩ := List.getElem_of_mem hmem
    have hheight := height_of_consecutive hcons i hi
    have hbase : c.base ≤ entries[i].height := UInt32.le_iff_toNat_le.mpr (by omega)
    rw [get?, if_pos hbase, hheight, Nat.add_sub_cancel_left, ← Array.getElem?_toList, hlist]
    exact List.getElem?_eq_getElem hi

theorem consecutive_drop {base : Nat} (h : consecutive base entries = true) (k : Nat) :
    consecutive (base + k) (entries.drop k) = true := by
  induction k generalizing base entries with
  | zero => exact h
  | succ k ih =>
    cases entries with
    | nil => rfl
    | cons e rest =>
      simp only [consecutive, Bool.and_eq_true] at h
      have hrest := ih h.2
      rwa [Nat.add_assoc, Nat.add_comm 1] at hrest

/-- Entries without a gap stay so when the oldest ones are dropped. -/
theorem ofEntries?_drop (h : ofEntries? entries = some c) (k : Nat) :
    ∃ recent, ofEntries? (entries.drop k) = some recent := by
  have hcons := consecutive_drop (ofEntries?_spec h).2 k
  have hdrop : consecutive (((entries.drop k).head?.map ChainEntry.height).getD 0).toNat
      (entries.drop k) = true := by
    cases hd : entries.drop k with
    | nil => rfl
    | cons e rest =>
      rw [hd] at hcons
      have hheight : e.height.toNat = c.base.toNat + k := by
        simp only [consecutive, Bool.and_eq_true, beq_iff_eq] at hcons
        exact hcons.1
      simpa [hheight] using hcons
  exact ⟨_, by rw [ofEntries?]; exact dif_pos hdrop⟩

theorem get?_drop {recent : Segment} {k : Nat} (h : ofEntries? entries = some c)
    (hr : ofEntries? (entries.drop k) = some recent) {height : UInt32}
    (hold : ∀ e ∈ entries.take k, e.height ≠ height) : recent.get? height = c.get? height := by
  have hmem (e : ChainEntry) (he : e.height = height) : e ∈ entries.drop k ↔ e ∈ entries := by
    refine ⟨List.mem_of_mem_drop, fun hin => ?_⟩
    rw [← List.take_append_drop k entries] at hin
    rcases List.mem_append.mp hin with hin | hin
    · exact absurd he (hold e hin)
    · exact hin
  apply Option.ext
  intro e
  rw [get?_of_ofEntries? h, get?_of_ofEntries? hr]
  exact ⟨fun ⟨hin, he⟩ => ⟨(hmem e he).mp hin, he⟩, fun ⟨hin, he⟩ => ⟨(hmem e he).mpr hin, he⟩⟩

end OfEntries

/-- The segments answer alike at the `width` heights right below `height`. -/
def AgreeBelow (c₁ c₂ : Segment) (height width : Nat) : Prop :=
  ∀ h : UInt32, h.toNat < height → height ≤ h.toNat + width → c₁.get? h = c₂.get? h

namespace AgreeBelow
variable {height width : Nat} {e parent : ChainEntry}

theorem mono (h : AgreeBelow c₁ c₂ height width) {narrow : Nat} (hle : narrow ≤ width) :
    AgreeBelow c₁ c₂ height narrow := fun x hx hlow => h x hx (by omega)

theorem predecessor (h : AgreeBelow c₁ c₂ e.height.toNat (width + 1)) :
    c₁.predecessor e = c₂.predecessor e := by
  unfold Segment.predecessor
  split
  · rfl
  next hne =>
    have hpos : e.height.toNat ≠ 0 := toNat_ne_zero_iff.mpr hne
    have hsub := toNat_sub_one hne
    exact h _ (by omega) (by omega)

theorem step (h : AgreeBelow c₁ c₂ e.height.toNat (width + 1))
    (hp : c₁.predecessor e = some parent) : AgreeBelow c₁ c₂ parent.height.toNat width := by
  have := height_of_predecessor hp
  exact fun x hx hlow => h x (by omega) (by omega)

end AgreeBelow
end Segment
end PowConsensus
