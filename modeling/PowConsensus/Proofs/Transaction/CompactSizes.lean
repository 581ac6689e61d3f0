import Mathlib.Tactic.SplitIfs
import PowConsensus.Proofs.Transaction.Delimited

/-! # Compact sizes in a row

What a reader takes for a number is one byte below the markers, or a marker and a field of the width
that it announces, whether or not a shorter field would do. Of these forms the written one is the
shortest. Since a reader knows where it ends, numbers written one behind the other are read back,
whatever bytes follow them.
-/
namespace PowConsensus
variable {n width : Nat} {marker : UInt8} {form tail rest text : List UInt8}

/-! ## Forms -/

/-- The bytes that are read as a number. -/
inductive CompactSizeForm (n : Nat) : List UInt8 → Prop
  | byte : n < 0xfd → CompactSizeForm n [UInt8.ofNat n]
  | two : n < 2 ^ 16 → CompactSizeForm n (0xfd :: littleEndian 2 n)
  | four : n < 2 ^ 32 → CompactSizeForm n (0xfe :: littleEndian 4 n)
  | eight : n < 2 ^ 64 → CompactSizeForm n (0xff :: littleEndian 8 n)

theorem compactSizeTail_cases (marker : UInt8) :
    (marker.toNat < 0xfd ∧ compactSizeTail marker = 0) ∨
      (marker = 0xfd ∧ compactSizeTail marker = 2) ∨
      (marker = 0xfe ∧ compactSizeTail marker = 4) ∨
      (marker = 0xff ∧ compactSizeTail marker = 8) := by
  unfold compactSizeTail
  split_ifs with htwo hfour height
  · exact Or.inr (Or.inl ⟨htwo, rfl⟩)
  · exact Or.inr (Or.inr (Or.inl ⟨hfour, rfl⟩))
  · exact Or.inr (Or.inr (Or.inr ⟨height, rfl⟩))
  · have hlt := marker.toNat_lt
    rw [← UInt8.toNat_inj] at htwo hfour height
    simp only [UInt8.reduceToNat] at htwo hfour height
    exact Or.inl ⟨by omega, rfl⟩

theorem readCompactSize?_byte (h : compactSizeTail marker = 0) :
    readCompactSize? (marker :: tail) = some (marker.toNat, tail) := by
  simp only [readCompactSize?, h, ↓reduceIte]

/-- A field that was read is the number that it gave, in as many bytes. -/
theorem eq_littleEndian_of_readCompactSize? (hwidth : compactSizeTail marker = width)
    (h0 : width ≠ 0) (h : readCompactSize? (marker :: tail) = some (n, rest)) :
    n < 256 ^ width ∧ tail = littleEndian width n ++ rest := by
  simp only [readCompactSize?, hwidth, if_neg h0] at h
  split at h
  · cases h
  · cases h
    have hlength : (tail.take width).length = width := by
      rw [List.length_take]
      omega
    have hfield := littleEndian_ofLittleEndian (tail.take width)
    have hlt := ofLittleEndian_lt (tail.take width)
    rw [hlength] at hfield hlt
    exact ⟨hlt, by rw [hfield, List.take_append_drop]⟩

theorem exists_form_of_readCompactSize? (h : readCompactSize? text = some (n, rest)) :
    ∃ form, CompactSizeForm n form ∧ text = form ++ rest := by
  cases text with
  | nil => cases h
  | cons marker tail =>
    rcases compactSizeTail_cases marker with
      ⟨hbyte, hwidth⟩ | ⟨rfl, hwidth⟩ | ⟨rfl, hwidth⟩ | ⟨rfl, hwidth⟩
    · rw [readCompactSize?_byte hwidth] at h
      cases h
      refine ⟨[UInt8.ofNat marker.toNat], .byte hbyte, ?_⟩
      rw [UInt8.ofNat_toNat, List.singleton_append]
    · obtain ⟨hlt, htail⟩ := eq_littleEndian_of_readCompactSize? hwidth (by decide) h
      exact ⟨_, .two hlt, congrArg _ htail⟩
    · obtain ⟨hlt, htail⟩ := eq_littleEndian_of_readCompactSize? hwidth (by decide) h
      exact ⟨_, .four hlt, congrArg _ htail⟩
    · obtain ⟨hlt, htail⟩ := eq_littleEndian_of_readCompactSize? hwidth (by decide) h
      exact ⟨_, .eight hlt, congrArg _ htail⟩

/-- Any other form is longer than the written one. -/
theorem CompactSizeForm.eq_or_longer (h : CompactSizeForm n form) :
    form = compactSize n ∨ (compactSize n).length < form.length := by
  unfold compactSize
  cases h with
  | byte hbyte => exact Or.inl (if_pos hbyte).symm
  | two htwo =>
    split_ifs with hbyte
    · exact Or.inr (by simp)
    · exact Or.inl rfl
  | four hfour =>
    split_ifs with hbyte htwo
    · exact Or.inr (by simp)
    · exact Or.inr (by simp)
    · exact Or.inl rfl
  | eight =>
    split_ifs with hbyte htwo hfour
    · exact Or.inr (by simp)
    · exact Or.inr (by simp)
    · exact Or.inr (by simp)
    · exact Or.inl rfl

/-! ## Rows -/

/-- The buffer after so many numbers were written to it, one behind the other. -/
def appendCompactSizes (buffer : List UInt8) (numbers : List UInt64) : List UInt8 :=
  numbers.foldl (fun buffer n => buffer ++ compactSize n.toNat) buffer

/-- Reads so many numbers and gives the bytes after them. -/
def readCompactSizes? : Nat → List UInt8 → Option (List UInt64 × List UInt8)
  | 0, text => some ([], text)
  | count + 1, text =>
    match readCompactSize? text with
    | none => none
    | some (n, text) =>
      (readCompactSizes? count text).map fun row => (UInt64.ofNat n :: row.1, row.2)

/-- What a buffer held stays in front. -/
theorem appendCompactSizes_eq (buffer : List UInt8) (numbers : List UInt64) :
    appendCompactSizes buffer numbers =
      buffer ++ numbers.flatMap fun n => compactSize n.toNat := by
  rw [appendCompactSizes, List.foldl_append_eq_append, List.flatMap_def]

theorem word64_compactSize_delimited :
    Delimited (fun _ => True) fun n : UInt64 => compactSize n.toNat := by
  intro a b _ _ rest rest' heq
  obtain ⟨hnumber, hrest⟩ := compactSize_delimited a.toNat_lt b.toNat_lt heq
  exact ⟨UInt64.toNat_inj.mp hnumber, hrest⟩

theorem readCompactSizes?_flatMap (numbers : List UInt64) (rest : List UInt8) :
    readCompactSizes? numbers.length (numbers.flatMap (fun n => compactSize n.toNat) ++ rest) =
      some (numbers, rest) := by
  induction numbers with
  | nil => rfl
  | cons n numbers ih =>
    rw [List.length_cons, readCompactSizes?, List.flatMap_cons, List.append_assoc,
      readCompactSize?_append n.toNat_lt]
    dsimp only
    rw [ih, Option.map_some, UInt64.ofNat_toNat]

/-- Rows of numbers in their compact forms. Two rows of one length that were written to empty
buffers are equal, and so is what follows them, if the bytes together are; a reader gets every row
back and leaves what follows it. A number is written in a form that is read as this number, and any
other form that is read so is longer. What a buffer held before is in front of what is written to
it. -/
theorem compact_sizes_are_delimited_and_shortest :
    (∀ (numbers numbers' : List UInt64) (rest rest' : List UInt8),
      numbers.length = numbers'.length →
      appendCompactSizes [] numbers ++ rest = appendCompactSizes [] numbers' ++ rest' →
      numbers = numbers' ∧ rest = rest') ∧
    (∀ (numbers : List UInt64) (rest : List UInt8),
      readCompactSizes? numbers.length (appendCompactSizes [] numbers ++ rest) =
        some (numbers, rest)) ∧
    (∀ (n : UInt64) (rest : List UInt8),
      readCompactSize? (compactSize n.toNat ++ rest) = some (n.toNat, rest) ∧
      ∀ form : List UInt8, readCompactSize? (form ++ rest) = some (n.toNat, rest) →
        form = compactSize n.toNat ∨ (compactSize n.toNat).length < form.length) ∧
    ∀ (buffer : List UInt8) (numbers : List UInt64),
      appendCompactSizes buffer numbers = buffer ++ appendCompactSizes [] numbers := by
  refine ⟨fun numbers numbers' rest rest' hlength heq => ?_, fun numbers rest => ?_,
    fun n rest => ⟨readCompactSize?_append n.toNat_lt rest, fun form hread => ?_⟩,
    fun buffer numbers => ?_⟩
  · simp only [appendCompactSizes_eq, List.nil_append] at heq
    exact word64_compactSize_delimited.flatMap hlength (fun _ _ => trivial) (fun _ _ => trivial) heq
  · rw [appendCompactSizes_eq, List.nil_append]
    exact readCompactSizes?_flatMap numbers rest
  · obtain ⟨form', hform, htext⟩ := exists_form_of_readCompactSize? hread
    obtain rfl : form = form' := List.append_cancel_right htext
    exact hform.eq_or_longer
  · rw [appendCompactSizes_eq, appendCompactSizes_eq, List.nil_append]

/-- Numbers on both sides of each bound, before bytes that could be taken for a marker and a field;
and a form with a field that the number does not need. -/
theorem compact_sizes_are_delimited_and_shortest_at_bounds :
    let numbers : List UInt64 := [0xfc, 0xfd, 0xffff, 0x10000, 0xffffffff, 0x100000000]
    let rest : List UInt8 := [0xfd, 0x00]
    let text := appendCompactSizes [] numbers ++ rest
    text.length = 28 ∧ readCompactSizes? 6 text = some (numbers, rest) ∧
      (∀ numbers' rest', numbers'.length = 6 → text = appendCompactSizes [] numbers' ++ rest' →
        numbers = numbers' ∧ rest = rest') ∧
      readCompactSize? ([0xfd, 0xfc, 0x00] ++ rest) = some (0xfc, rest) ∧
      (compactSize 0xfc).length < 3 ∧
      appendCompactSizes rest numbers = rest ++ appendCompactSizes [] numbers := by
  intro numbers rest text
  obtain ⟨hdelimited, hread, hshortest, happend⟩ := compact_sizes_are_delimited_and_shortest
  have hlonger : readCompactSize? ([0xfd, 0xfc, 0x00] ++ rest) = some (0xfc, rest) := by decide
  refine ⟨by decide, hread numbers rest, fun numbers' rest' hlength =>
    hdelimited numbers numbers' rest rest' hlength.symm, hlonger, ?_, happend rest numbers⟩
  rcases (hshortest 0xfc rest).2 [0xfd, 0xfc, 0x00] hlonger with heq | hlt
  · exact absurd heq (by decide)
  · exact hlt

end PowConsensus
