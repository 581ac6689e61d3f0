import PowConsensus.Proofs.Chain.Trail

/-! # Segments that grow

A segment starts empty at any height or from entries without a gap, and grows by one block at a
time. As long as every height that it gives out is a 32-bit number, its blocks stand at the heights
from the base on, so that a height is an index; a segment that went on past the largest height would
hold blocks that it cannot find.
-/
namespace PowConsensus.Segment
variable {c : Segment} {e parent : ChainEntry} {height : UInt32} {entries : List ChainEntry}

@[ext] theorem ext {c₁ c₂ : Segment} (hbase : c₁.base = c₂.base)
    (hentries : c₁.entries = c₂.entries) : c₁ = c₂ := by
  cases c₁
  cases c₂
  simp_all

/-! ## Entries without a gap -/

/-- Every entry is as many heights above the first one as it stands behind it. -/
def Gapless (entries : List ChainEntry) : Prop :=
  ∀ first, entries.head? = some first →
    ∀ i e, entries[i]? = some e → e.height.toNat = first.height.toNat + i

theorem gapless_nil : Gapless [] := fun _ hfirst => nomatch hfirst

theorem consecutive_iff {base : Nat} : consecutive base entries = true ↔
    ∀ i e, entries[i]? = some e → e.height.toNat = base + i := by
  constructor
  · intro h i e he
    obtain ⟨hi, rfl⟩ := List.getElem?_eq_some_iff.mp he
    exact height_of_consecutive h i hi
  · intro h
    induction entries generalizing base with
    | nil => rfl
    | cons first rest ih =>
      have hfirst : first.height.toNat = base := h 0 first rfl
      have hrest : consecutive (base + 1) rest = true := ih fun i e he => by
        rw [h (i + 1) e he]
        omega
      rw [consecutive, hfirst, beq_self_eq_true, hrest]
      rfl

theorem ofEntries?_of_consecutive {base : UInt32}
    (hbase : (entries.head?.map (·.height)).getD 0 = base)
    (h : consecutive base.toNat entries = true) :
    ∃ c, ofEntries? entries = some c ∧ c.base = base ∧ c.entries = entries.toArray := by
  subst hbase
  exact ⟨_, dif_pos h, rfl, rfl⟩

theorem base_of_ofEntries? (h : ofEntries? entries = some c) :
    c.base = (entries.head?.map (·.height)).getD 0 := by
  unfold ofEntries? at h
  dsimp only at h
  split at h
  · cases h
    rfl
  · exact absurd h (by simp)

theorem exists_ofEntries?_iff : (∃ c, ofEntries? entries = some c) ↔ Gapless entries := by
  constructor
  · rintro ⟨c, h⟩ first hfirst i e he
    have hbase := base_of_ofEntries? h
    rw [hfirst, Option.map_some, Option.getD_some] at hbase
    rw [← hbase]
    exact consecutive_iff.mp (ofEntries?_spec h).2 i e he
  · intro h
    have hcons :
        consecutive ((entries.head?.map ChainEntry.height).getD 0).toNat entries = true := by
      cases entries with
      | nil => rfl
      | cons first rest => exact consecutive_iff.mpr (h first rfl)
    obtain ⟨c, hc, -⟩ := ofEntries?_of_consecutive rfl hcons
    exact ⟨c, hc⟩

/-! ## Heights as indices -/

/-- What is got by loading entries or starting without any, and by pushing blocks whose heights are
32-bit numbers. -/
inductive Reachable : Segment → Prop
  | startingAt (base : UInt32) : Reachable (startingAt base)
  | ofEntries {entries : List ChainEntry} {c : Segment} :
      ofEntries? entries = some c → Reachable c
  | push {c : Segment} (time : UInt32) (bits : CompactTarget) :
      Reachable c → c.base.toNat + c.size < UInt32.size → Reachable (c.push time bits)

/-- No block is past the largest height. -/
def Fits (c : Segment) : Prop := c.base.toNat + c.size ≤ UInt32.size

instance (c : Segment) : Decidable c.Fits := inferInstanceAs (Decidable (_ ≤ _))

theorem fits_of_ofEntries? (h : ofEntries? entries = some c) : c.Fits := by
  obtain ⟨hlist, hcons⟩ := ofEntries?_spec h
  have hsize : c.size = entries.length := by rw [← hlist, Array.length_toList, size]
  have hbase := c.base.toNat_lt
  rw [Fits, hsize]
  simp only [UInt32.size]
  cases hlast : entries[entries.length - 1]? with
  | none =>
    have hnone := List.getElem?_eq_none_iff.mp hlast
    omega
  | some last =>
    have hheight := consecutive_iff.mp hcons _ last hlast
    have hlt := last.height.toNat_lt
    omega

theorem Reachable.fits (h : c.Reachable) : c.Fits := by
  cases h with
  | startingAt base => exact Nat.le_of_lt base.toNat_lt
  | ofEntries h => exact fits_of_ofEntries? h
  | push time bits _ hlt =>
    rw [Fits, size_push]
    exact hlt

theorem isSome_get?_iff : (c.get? height).isSome = true ↔
    c.base.toNat ≤ height.toNat ∧ height.toNat < c.base.toNat + c.size := by
  unfold get? size
  rw [← UInt32.le_iff_toNat_le]
  by_cases hbase : c.base ≤ height
  · have hle := UInt32.le_iff_toNat_le.mp hbase
    rw [if_pos hbase, isSome_getElem?, and_iff_right hbase]
    omega
  · rw [if_neg hbase]
    simp [hbase]

theorem Fits.height_of_getElem? (hfits : c.Fits) {i : Nat} (he : c.entries[i]? = some e) :
    e.height.toNat = c.base.toNat + i := by
  obtain ⟨hi, rfl⟩ := Array.getElem?_eq_some_iff.mp he
  unfold Fits size at hfits
  rw [c.height_eq i hi, UInt32.toNat_add, UInt32.toNat_ofNat']
  simp only [UInt32.size] at hfits
  omega

theorem Fits.holds_of_getElem? (hfits : c.Fits) {i : Nat} (he : c.entries[i]? = some e) :
    c.Holds e := by
  have hheight := hfits.height_of_getElem? he
  rw [Holds, get?, if_pos (UInt32.le_iff_toNat_le.mpr (by omega)), hheight,
    Nat.add_sub_cancel_left, he]

theorem Fits.holds_iff_mem (hfits : c.Fits) : c.Holds e ↔ e ∈ c.entries := by
  refine ⟨Holds.mem, fun hmem => ?_⟩
  obtain ⟨i, he⟩ := Array.mem_iff_getElem?.mp hmem
  exact hfits.holds_of_getElem? he

theorem Fits.consecutive (hfits : c.Fits) : consecutive c.base.toNat c.entries.toList = true :=
  consecutive_iff.mpr fun _ _ he => hfits.height_of_getElem? (Array.getElem?_toList ▸ he)

theorem head?_toList_height (hne : c.size ≠ 0) :
    (c.entries.toList.head?.map (·.height)).getD 0 = c.base := by
  have hzero : 0 < c.entries.size := Nat.pos_of_ne_zero hne
  rw [List.head?_eq_getElem?, Array.getElem?_toList, Array.getElem?_eq_getElem hzero,
    Option.map_some, Option.getD_some, c.height_eq 0 hzero]
  exact UInt32.add_zero _

theorem size_ne_zero_of_tip? {tip : ChainEntry} (htip : c.tip? = some tip) : c.size ≠ 0 := by
  intro hzero
  have hmem := mem_of_tip? htip
  rw [Array.eq_empty_of_size_eq_zero hzero] at hmem
  exact absurd hmem (Array.not_mem_empty tip)

/-- A segment that fits can be loaded from its own entries. -/
theorem Fits.ofEntries?_toList (hfits : c.Fits) (hne : c.size ≠ 0) :
    ofEntries? c.entries.toList = some c := by
  obtain ⟨c', hc', hbase', hentries'⟩ :=
    ofEntries?_of_consecutive (head?_toList_height hne) hfits.consecutive
  rw [hc', ext hbase' hentries']

theorem gapless_toList_iff : Gapless c.entries.toList ↔ c.Fits := by
  refine ⟨fun h => ?_, fun hfits => ?_⟩
  · obtain ⟨c', hc'⟩ := exists_ofEntries?_iff.mpr h
    by_cases hzero : c.size = 0
    · have hlt := c.base.toNat_lt
      rw [Fits, hzero]
      exact Nat.le_of_lt hlt
    · have hentries : c'.entries = c.entries := Array.toList_inj.mp (ofEntries?_spec hc').1
      have hbase : c'.base = c.base := by
        rw [base_of_ofEntries? hc', head?_toList_height hzero]
      rw [← ext hbase hentries]
      exact fits_of_ofEntries? hc'
  · intro first hfirst i e he
    rw [List.head?_eq_getElem?, Array.getElem?_toList] at hfirst
    rw [Array.getElem?_toList] at he
    rw [hfits.height_of_getElem? hfirst, hfits.height_of_getElem? he, Nat.add_zero]

theorem reachable_iff_fits : c.Reachable ↔ c.Fits := by
  refine ⟨Reachable.fits, fun hfits => ?_⟩
  by_cases hzero : c.size = 0
  · have hempty : c = Segment.startingAt c.base := ext rfl (Array.eq_empty_of_size_eq_zero hzero)
    rw [hempty]
    exact .startingAt c.base
  · exact .ofEntries (hfits.ofEntries?_toList hzero)

/-! ## Predecessors -/

theorem Holds.predecessor_eq_none_iff (h : c.Holds e) :
    c.predecessor e = none ↔ e.height = c.base := by
  constructor
  · intro hnone
    refine UInt32.toNat_inj.mp (Nat.le_antisymm (Nat.le_of_not_lt fun hlt => ?_) h.base_le)
    obtain ⟨parent, hparent, -⟩ := h.predecessor hlt
    rw [hnone] at hparent
    cases hparent
  · exact fun heq => predecessor_eq_none (congrArg UInt32.toNat heq)

/-! ## Pushing -/

section Push
variable (hroom : c.base.toNat + c.size < UInt32.size)
include hroom

theorem toNat_nextHeight : c.nextHeight.toNat = c.base.toNat + c.size := by
  rw [nextHeight, UInt32.toNat_add, UInt32.toNat_ofNat']
  simp only [UInt32.size] at hroom
  omega

theorem fits_push (time : UInt32) (bits : CompactTarget) : (c.push time bits).Fits := by
  rw [Fits, size_push]
  exact hroom

omit hroom in
theorem tip?_push (c : Segment) (time : UInt32) (bits : CompactTarget) :
    (c.push time bits).tip? = some (c.nextEntry time bits) := Array.back?_push ..

theorem holds_push (time : UInt32) (bits : CompactTarget) :
    (c.push time bits).Holds (c.nextEntry time bits) :=
  (fits_push hroom time bits).holds_iff_mem.mpr (mem_of_tip? (tip?_push c time bits))

end Push

/-! ## Runs -/

section Run
variable {blocks : List (UInt32 × CompactTarget)}

theorem Reachable.pushAll (h : c.Reachable)
    (hroom : c.base.toNat + c.size + blocks.length ≤ UInt32.size) :
    (c.pushAll blocks).Reachable := by
  induction blocks generalizing c with
  | nil => exact h
  | cons block blocks ih =>
    rw [List.length_cons] at hroom
    refine ih (h.push block.1 block.2 (by omega)) ?_
    rw [size_push]
    change c.base.toNat + (c.size + 1) + blocks.length ≤ UInt32.size
    omega

/-- Pushing leaves what is held, and what it adds is the blocks in their order. -/
theorem exists_pushAll_eq_append (c : Segment) (blocks : List (UInt32 × CompactTarget)) :
    ∃ pushed : List ChainEntry,
      (c.pushAll blocks).entries.toList = c.entries.toList ++ pushed ∧
      pushed.map (fun e => (e.time, e.bits)) = blocks := by
  induction blocks generalizing c with
  | nil => exact ⟨[], (List.append_nil _).symm, rfl⟩
  | cons block blocks ih =>
    obtain ⟨pushed, hentries, hpushed⟩ := ih (c.push block.1 block.2)
    refine ⟨c.nextEntry block.1 block.2 :: pushed, ?_, congrArg (block :: ·) hpushed⟩
    calc (c.pushAll (block :: blocks)).entries.toList
      _ = (c.push block.1 block.2).entries.toList ++ pushed := hentries
      _ = c.entries.toList ++ [c.nextEntry block.1 block.2] ++ pushed := by
        rw [push, Array.toList_push]
      _ = c.entries.toList ++ c.nextEntry block.1 block.2 :: pushed := by
        rw [List.append_assoc, List.singleton_append]

end Run
end Segment

open Segment in
/-- The index of blocks by height. In every segment that was started or loaded and then grew by any
pushes of 32-bit heights: a block stands as far behind the base as its height says, a height is
answered exactly from the base to the tip, and by the block of that height; a predecessor is held
and one lower, and of the blocks held only the one at the base has none. A push answers the next
height, which is the tip from then on, and no push changes what lower heights answer. Entries can be
loaded exactly if their heights have no gap, and are loaded unchanged. -/
theorem segment_is_indexed_by_height :
    (∀ c : Segment, c.Reachable →
      (∀ i e, c.entries[i]? = some e →
        e.height.toNat = c.base.toNat + i ∧ c.get? e.height = some e) ∧
      (∀ height, ((c.get? height).isSome = true ↔
          c.base.toNat ≤ height.toNat ∧ height.toNat < c.base.toNat + c.size) ∧
        ∀ e, c.get? height = some e → e.height = height ∧ e ∈ c.entries) ∧
      (∀ e parent, c.predecessor e = some parent →
        parent.height.toNat + 1 = e.height.toNat ∧ parent ∈ c.entries) ∧
      (∀ e ∈ c.entries, c.predecessor e = none ↔ e.height = c.base) ∧
      (∀ time bits, c.base.toNat + c.size < UInt32.size →
        let pushed := c.nextEntry time bits
        let grown := c.push time bits
        pushed.height.toNat = c.base.toNat + c.size ∧ pushed.time = time ∧ pushed.bits = bits ∧
        grown.get? pushed.height = some pushed ∧ grown.tip? = some pushed ∧
        ∀ height, height.toNat < c.base.toNat + c.size → grown.get? height = c.get? height) ∧
      ∀ blocks, c.base.toNat + c.size + blocks.length ≤ UInt32.size →
        let grown := c.pushAll blocks
        grown.Reachable ∧
        (∀ height, height.toNat < c.base.toNat + c.size → grown.get? height = c.get? height) ∧
        ∃ pushed, grown.entries.toList = c.entries.toList ++ pushed ∧
          pushed.map (fun e => (e.time, e.bits)) = blocks) ∧
    ∀ entries : List ChainEntry,
      ((∃ c, ofEntries? entries = some c) ↔ Gapless entries) ∧
      ∀ c, ofEntries? entries = some c → c.entries.toList = entries := by
  refine ⟨fun c hreach => ?_,
    fun entries => ⟨exists_ofEntries?_iff, fun c h => (ofEntries?_spec h).1⟩⟩
  have hfits := hreach.fits
  refine ⟨fun i e he => ⟨hfits.height_of_getElem? he, hfits.holds_of_getElem? he⟩,
    fun height => ⟨isSome_get?_iff, fun e h => ⟨height_of_get? h, mem_of_get? h⟩⟩,
    fun e parent h => ⟨height_of_predecessor h, mem_of_predecessor h⟩,
    fun e he => (hfits.holds_iff_mem.mpr he).predecessor_eq_none_iff,
    fun time bits hroom => ?_, fun blocks hroom => ?_⟩
  · exact ⟨toNat_nextHeight hroom, rfl, rfl, holds_push hroom time bits, tip?_push c time bits,
      fun height h => get?_push_of_lt h time bits⟩
  · exact ⟨hreach.pushAll hroom, fun height h => get?_pushAll_of_lt h blocks,
      exists_pushAll_eq_append c blocks⟩

open Segment in
/-- Two blocks at the two largest heights, the second the last one that fits, loaded again. -/
theorem segment_is_indexed_by_height_up_to_largest :
    let c := (startingAt 4294967294).push 10 ⟨0x1e0ffff0⟩
    let last := c.nextEntry 20 ⟨0x1c1a1206⟩
    let grown := c.push 20 ⟨0x1c1a1206⟩
    c.Reachable ∧ grown.Reachable ∧ last.height = 4294967295 ∧ grown.get? last.height = some last ∧
      grown.tip? = some last ∧ grown.get? 4294967294 = c.get? 4294967294 ∧
      (grown.predecessor last = none ↔ last.height = grown.base) ∧
      ∃ loaded, ofEntries? grown.entries.toList = some loaded ∧
        loaded.entries.toList = grown.entries.toList := by
  intro c last grown
  have hc : c.Reachable := (Reachable.startingAt _).push 10 _ (by decide)
  have hgrown : grown.Reachable := hc.push 20 _ (by decide)
  obtain ⟨-, -, -, -, hpush, -⟩ := segment_is_indexed_by_height.1 c hc
  obtain ⟨-, -, -, hget, htip, hbelow⟩ := hpush 20 ⟨0x1c1a1206⟩ (by decide)
  obtain ⟨-, -, -, hfirst, -⟩ := segment_is_indexed_by_height.1 grown hgrown
  obtain ⟨hgapless, hload⟩ := segment_is_indexed_by_height.2 grown.entries.toList
  obtain ⟨loaded, hloaded⟩ := hgapless.mpr (gapless_toList_iff.mpr hgrown.fits)
  exact ⟨hc, hgrown, by decide, hget, htip, hbelow _ (by decide), hfirst last (mem_of_tip? htip),
    loaded, hloaded, hload loaded hloaded⟩

end PowConsensus
