import PowConsensus.Hash.Digest

/-! # Digests read back from their text

The text of a digest is hexadecimal digits and nothing else: there is no blank to trim and no mark
to drop, every character is one byte, and each pair of digits is read as the byte that was written.
-/
namespace PowConsensus
namespace Text

/-- What is true of the sixteen digits is true of every digit written. -/
theorem hexDigit_of {P : Char → Prop} (h : ∀ k < 16, P (Nat.digitChar k)) (n : Nat) :
    P (hexDigit n) :=
  h _ (Nat.mod_lt n (by decide))

theorem isBlank_hexDigit (n : Nat) : isBlank (hexDigit n) = false :=
  hexDigit_of (P := fun c => isBlank c = false) (by decide) n

theorem hexDigit_ne_mark (n : Nat) : hexDigit n ≠ 'x' ∧ hexDigit n ≠ 'X' :=
  hexDigit_of (P := fun c => c ≠ 'x' ∧ c ≠ 'X') (by decide) n

theorem hexDigit_ne_quote (n : Nat) : hexDigit n ≠ '"' ∧ hexDigit n ≠ '\\' :=
  hexDigit_of (P := fun c => c ≠ '"' ∧ c ≠ '\\') (by decide) n

theorem le_toNat_hexDigit (n : Nat) : 0x20 ≤ (hexDigit n).toNat :=
  hexDigit_of (P := fun c => 0x20 ≤ c.toNat) (by decide) n

theorem utf8_hexDigit (n : Nat) : ∃ digit, String.utf8EncodeChar (hexDigit n) = [digit] ∧
    hexValue? digit = some (UInt8.ofNat (n % 16)) := by
  have hall : ∀ k < 16,
      String.utf8EncodeChar (Nat.digitChar k) = [UInt8.ofNat (Nat.digitChar k).toNat] ∧
      hexValue? (UInt8.ofNat (Nat.digitChar k).toNat) = some (UInt8.ofNat k) := by decide
  obtain ⟨hencode, hvalue⟩ := hall (n % 16) (Nat.mod_lt n (by decide))
  exact ⟨_, hencode, hvalue⟩

theorem forall_mem_hexChars {P : Char → Prop} (h : ∀ n, P (hexDigit n)) (bytes : List UInt8) :
    ∀ c ∈ hexChars bytes, P c := by
  intro c hc
  obtain ⟨b, -, hc⟩ := List.mem_flatMap.mp hc
  rcases List.mem_cons.mp hc with rfl | hc
  · exact h _
  · obtain rfl := List.mem_singleton.mp hc
    exact h _

theorem length_hexChars (bytes : List UInt8) : (hexChars bytes).length = 2 * bytes.length := by
  induction bytes with
  | nil => rfl
  | cons b bytes ih =>
    change (hexChars bytes).length + 2 = 2 * (bytes.length + 1)
    omega

theorem trim_of_not_blank {cs : List Char} (h : ∀ c ∈ cs, isBlank c = false) : trim cs = cs := by
  have hkeep (xs : List Char) (hxs : ∀ c ∈ xs, isBlank c = false) : xs.dropWhile isBlank = xs := by
    cases xs with
    | nil => rfl
    | cons c xs => rw [List.dropWhile_cons, if_neg (by simp [hxs])]
  rw [trim, hkeep cs h, hkeep cs.reverse (by simpa using h), List.reverse_reverse]

/-- Each byte is read from its two digits. -/
theorem exists_utf8_hexByte (b : UInt8) : ∃ high low x y,
    utf8 (hexByte b) = [high, low] ∧ hexValue? high = some x ∧ hexValue? low = some y ∧
      16 * x + y = b := by
  obtain ⟨high, hhigh, hx⟩ := utf8_hexDigit (b.toNat / 16)
  obtain ⟨low, hlow, hy⟩ := utf8_hexDigit b.toNat
  refine ⟨high, low, _, _, ?_, hx, hy, ?_⟩
  · simp only [utf8, hexByte, List.flatMap_cons, List.flatMap_nil, hhigh, hlow]
    rfl
  · have hlt := b.toNat_lt
    apply UInt8.toNat_inj.mp
    simp only [UInt8.toNat_add, UInt8.toNat_mul, UInt8.toNat_ofNat', UInt8.reduceToNat]
    omega

theorem utf8_hexChars_cons (b : UInt8) (bytes : List UInt8) :
    utf8 (hexChars (b :: bytes)) = utf8 (hexByte b) ++ utf8 (hexChars bytes) := by
  rw [utf8, hexChars, List.flatMap_cons, List.flatMap_append]
  rfl

theorem hexPairs_utf8_hexChars (bytes : List UInt8) (position : Nat) :
    hexPairs position (utf8 (hexChars bytes)) = .ok bytes := by
  induction bytes generalizing position with
  | nil => rfl
  | cons b bytes ih =>
    obtain ⟨high, low, x, y, hpair, hx, hy, hbyte⟩ := exists_utf8_hexByte b
    rw [utf8_hexChars_cons, hpair]
    simp only [List.cons_append, List.nil_append, hexPairs, hx, hy, ih, hbyte]
    rfl

theorem length_utf8_hexChars (bytes : List UInt8) :
    (utf8 (hexChars bytes)).length = 2 * bytes.length := by
  induction bytes with
  | nil => rfl
  | cons b bytes ih =>
    obtain ⟨high, low, x, y, hpair, -⟩ := exists_utf8_hexByte b
    rw [utf8_hexChars_cons, hpair, List.length_append, ih]
    simp only [List.length_cons, List.length_nil]
    omega

theorem unhex_utf8_hexChars (bytes : List UInt8) : unhex (utf8 (hexChars bytes)) = .ok bytes := by
  rw [unhex, length_utf8_hexChars, if_neg (by omega), hexPairs_utf8_hexChars]

end Text

namespace Digest

theorem length_chars (d : Digest) : d.chars.length = 64 := by
  rw [chars, Text.length_hexChars, List.length_reverse, d.length_bytes]

theorem bare_of_ne_mark {a b : Char} (hb : b ≠ 'x' ∧ b ≠ 'X') (rest : List Char) :
    bare (a :: b :: rest) = a :: b :: rest := by
  unfold bare
  split
  · next heq => exact absurd (List.cons.inj (List.cons.inj heq).2).1 hb.1
  · next heq => exact absurd (List.cons.inj (List.cons.inj heq).2).1 hb.2
  · rfl

theorem bare_hexChars (bytes : List UInt8) : bare (Text.hexChars bytes) = Text.hexChars bytes := by
  cases bytes with
  | nil => rfl
  | cons b bytes => exact bare_of_ne_mark (Text.hexDigit_ne_mark _) _

theorem parse_text (d : Digest) : parse d.text = .ok d := by
  have htrim : Text.trim d.text.toList = d.chars := by
    rw [text, String.toList_ofList]
    exact Text.trim_of_not_blank (Text.forall_mem_hexChars Text.isBlank_hexDigit _)
  have hlength : d.bytes.reverse.length = 32 := by rw [List.length_reverse, d.length_bytes]
  rw [parse, htrim, chars, bare_hexChars, Text.unhex_utf8_hexChars]
  simp only [hlength, ↓reduceDIte, List.reverse_reverse]

end Digest
end PowConsensus
