import PowConsensus.Error
import PowConsensus.Proofs.Text.HexDigits

/-! # What texts denote a digest

A digest is written as blanks, one mark at most, sixty-four digits and blanks. These texts are read
and no others, the digits in lower case are the text of the digest again, and they spell its number.
So the texts of digests are in the order of the numbers.
-/
namespace PowConsensus
namespace Text
variable {cs before middle after : List Char}

theorem dropWhile_of_not_blank (h : ∀ c ∈ middle, isBlank c = false) (hne : middle ≠ [])
    (rest : List Char) : (middle ++ rest).dropWhile isBlank = middle ++ rest := by
  cases middle with
  | nil => exact absurd rfl hne
  | cons c middle =>
    rw [List.cons_append, List.dropWhile_cons, if_neg (by simp [h c List.mem_cons_self])]

theorem trim_append (hbefore : ∀ c ∈ before, isBlank c = true) (hafter : ∀ c ∈ after, isBlank c = true)
    (hmiddle : ∀ c ∈ middle, isBlank c = false) (hne : middle ≠ []) :
    trim (before ++ middle ++ after) = middle := by
  have hafter' : ∀ c ∈ after.reverse, isBlank c = true := by simpa using hafter
  have hmiddle' : ∀ c ∈ middle.reverse, isBlank c = false := by simpa using hmiddle
  have hne' : middle.reverse ≠ [] := mt List.reverse_eq_nil_iff.mp hne
  rw [trim, List.append_assoc, List.dropWhile_append_of_pos hbefore,
    dropWhile_of_not_blank hmiddle hne, List.reverse_append, List.dropWhile_append_of_pos hafter']
  have hkeep := dropWhile_of_not_blank hmiddle' hne' []
  rw [List.append_nil] at hkeep
  rw [hkeep, List.reverse_reverse]

theorem exists_trim (cs : List Char) : ∃ before after, cs = before ++ trim cs ++ after ∧
    (∀ c ∈ before, isBlank c = true) ∧ ∀ c ∈ after, isBlank c = true := by
  refine ⟨cs.takeWhile isBlank, ((cs.dropWhile isBlank).reverse.takeWhile isBlank).reverse, ?_, ?_, ?_⟩
  · rw [trim, List.append_assoc, ← List.reverse_append, List.takeWhile_append_dropWhile,
      List.reverse_reverse, List.takeWhile_append_dropWhile]
  · intro c hc
    exact List.all_eq_true.mp List.all_takeWhile c hc
  · intro c hc
    exact List.all_eq_true.mp List.all_takeWhile c (List.mem_reverse.mp hc)

end Text

namespace Digest
variable {text : String} {digits : List Char} {d e : Digest}

/-- The marks that may stand before the digits. -/
def marks : List (List Char) := [[], ['0', 'x'], ['0', 'X']]

/-- Sixty-four digits, behind one mark at most, with blanks on both sides. -/
def Presents (text : String) (digits : List Char) : Prop :=
  ∃ before mark after : List Char, text.toList = before ++ (mark ++ digits) ++ after ∧
    (∀ c ∈ before, Text.isBlank c = true) ∧ (∀ c ∈ after, Text.isBlank c = true) ∧ mark ∈ marks ∧
    digits.length = 64 ∧ ∀ c ∈ digits, c ∈ Text.hexDigits

theorem exists_mark (cs : List Char) : ∃ mark ∈ marks, cs = mark ++ bare cs := by
  unfold bare
  split
  · exact ⟨['0', 'x'], by decide, rfl⟩
  · exact ⟨['0', 'X'], by decide, rfl⟩
  · exact ⟨[], by decide, rfl⟩

theorem bare_append {mark : List Char} (hmark : mark ∈ marks) (hlength : 2 ≤ digits.length)
    (hdigits : ∀ c ∈ digits, c ∈ Text.hexDigits) : bare (mark ++ digits) = digits := by
  match digits, hlength with
  | a :: b :: rest, _ =>
    have hb : b ∈ Text.hexDigits := hdigits b (List.mem_cons_of_mem a List.mem_cons_self)
    simp only [marks, List.mem_cons, List.not_mem_nil, or_false] at hmark
    rcases hmark with rfl | rfl | rfl
    · exact bare_of_ne_mark (Text.ne_mark_of_digit b hb) rest
    · rfl
    · rfl

theorem presents_iff : Presents text digits ↔
    bare (Text.trim text.toList) = digits ∧ digits.length = 64 ∧
      ∀ c ∈ digits, c ∈ Text.hexDigits := by
  constructor
  · rintro ⟨before, mark, after, htext, hbefore, hafter, hmark, hlength, hdigits⟩
    have hblank : ∀ c ∈ mark ++ digits, Text.isBlank c = false := by
      intro c hc
      rcases List.mem_append.mp hc with hc | hc
      · have hmarks : ∀ c ∈ marks.flatten, Text.isBlank c = false :=
          Text.forall_mem_of_all (by decide)
        exact hmarks c (List.mem_flatten_of_mem hmark hc)
      · exact Text.not_blank_of_digit c (hdigits c hc)
    have hne : mark ++ digits ≠ [] := by
      intro hnil
      rw [(List.append_eq_nil_iff.mp hnil).2] at hlength
      cases hlength
    rw [htext, Text.trim_append hbefore hafter hblank hne, bare_append hmark (by omega) hdigits]
    exact ⟨rfl, hlength, hdigits⟩
  · rintro ⟨rfl, hlength, hdigits⟩
    obtain ⟨before, after, htext, hbefore, hafter⟩ := Text.exists_trim text.toList
    obtain ⟨mark, hmark, htrim⟩ := exists_mark (Text.trim text.toList)
    rw [htrim] at htext
    exact ⟨before, mark, after, htext, hbefore, hafter, hmark, hlength, hdigits⟩

theorem text_injective (h : d.text = e.text) : d = e := by
  have hparse := parse_text d
  rw [h, parse_text] at hparse
  cases hparse
  rfl

/-- A text is read as a digest if it presents the digits of that digest, in either case. -/
theorem parse_eq_ok_iff : parse text = .ok d ↔
    ∃ digits, Presents text digits ∧ d.chars = digits.map Char.toLower := by
  constructor
  · intro h
    cases hread : Text.unhex (Text.utf8 (bare (Text.trim text.toList))) with
    | error fault =>
      rw [parse, hread] at h
      cases h
    | ok bytes =>
      by_cases hlength : bytes.length = 32
      · rw [parse, hread] at h
        simp only [hlength, ↓reduceDIte] at h
        cases h
        obtain ⟨hdigits, hchars⟩ := Text.unhex_eq_ok_iff.mp hread
        refine ⟨_, presents_iff.mpr ⟨rfl, ?_, hdigits⟩, ?_⟩
        · rw [← List.length_map Char.toLower, ← hchars, Text.length_hexChars, hlength]
        · rw [chars, List.reverse_reverse, hchars]
      · rw [parse, hread] at h
        simp only [hlength, ↓reduceDIte] at h
        cases h
  · rintro ⟨digits, hpresents, hchars⟩
    obtain ⟨hbare, -, hdigits⟩ := presents_iff.mp hpresents
    have hread := Text.unhex_eq_ok_iff.mpr ⟨hdigits, hchars⟩
    have hlength : d.bytes.reverse.length = 32 := by rw [List.length_reverse, d.length_bytes]
    rw [parse, hbare, hread]
    simp only [hlength, ↓reduceDIte, List.reverse_reverse]

/-- Digits of either case belong to a digest. -/
theorem exists_chars_eq (hlength : digits.length = 64) (hdigits : ∀ c ∈ digits, c ∈ Text.hexDigits) :
    ∃ d : Digest, d.chars = digits.map Char.toLower := by
  obtain ⟨bytes, -, hchars⟩ := Text.exists_hexPairs (n := 32) hdigits hlength 0
  have hbytes : bytes.reverse.length = 32 := by
    have hpairs := congrArg List.length hchars
    rw [Text.length_hexChars, List.length_map, hlength] at hpairs
    rw [List.length_reverse]
    omega
  refine ⟨⟨bytes.reverse, hbytes⟩, ?_⟩
  rw [chars, List.reverse_reverse, hchars]

theorem exists_ok_iff : (∃ d, parse text = .ok d) ↔ ∃ digits, Presents text digits := by
  constructor
  · rintro ⟨d, h⟩
    obtain ⟨digits, hpresents, -⟩ := parse_eq_ok_iff.mp h
    exact ⟨digits, hpresents⟩
  · rintro ⟨digits, hpresents⟩
    obtain ⟨-, hlength, hdigits⟩ := presents_iff.mp hpresents
    obtain ⟨d, hchars⟩ := exists_chars_eq hlength hdigits
    exact ⟨d, parse_eq_ok_iff.mpr ⟨digits, hpresents, hchars⟩⟩

theorem exists_error_iff : (∃ fault, parse text = .error fault) ↔ ¬ ∃ digits, Presents text digits := by
  rw [← exists_ok_iff]
  cases parse text with
  | error fault => simp
  | ok d => simp

/-- Where a digest is read for the rules, its fault is one of their errors. -/
theorem mapError_parse_eq_error_iff {error : ConsensusError} :
    (parse text).mapError ConsensusError.digest = .error error ↔
      ∃ fault, parse text = .error fault ∧ error = .digest fault := by
  cases parse text with
  | error fault => simp [Except.mapError, eq_comm]
  | ok d => simp [Except.mapError]

theorem exists_digestError_iff :
    (∃ error, (parse text).mapError ConsensusError.digest = .error error) ↔
      ¬ ∃ digits, Presents text digits := by
  rw [← exists_error_iff]
  constructor
  · rintro ⟨error, herror⟩
    obtain ⟨fault, hfault, -⟩ := mapError_parse_eq_error_iff.mp herror
    exact ⟨fault, hfault⟩
  · rintro ⟨fault, hfault⟩
    exact ⟨.digest fault, mapError_parse_eq_error_iff.mpr ⟨fault, hfault, rfl⟩⟩

/-- What is presented is no other digits. -/
theorem Presents.chars_eq (h : Presents text digits) (hparse : parse text = .ok d) :
    d.chars = digits.map Char.toLower := by
  obtain ⟨digits', h', hchars⟩ := parse_eq_ok_iff.mp hparse
  obtain ⟨hbare, -⟩ := presents_iff.mp h
  obtain ⟨hbare', -⟩ := presents_iff.mp h'
  rw [hchars, ← hbare, ← hbare']

theorem toNat_eq_spelled (d : Digest) : d.toNat = Text.spelled d.chars :=
  (Text.spelled_hexChars_reverse d.bytes).symm

theorem toNat_injective (h : d.toNat = e.toNat) : d = e := by
  apply ext
  rw [← littleEndian_ofLittleEndian d.bytes, ← littleEndian_ofLittleEndian e.bytes, d.length_bytes,
    e.length_bytes]
  exact congrArg (littleEndian 32) h

theorem written_chars (d : Digest) : Text.Written d.chars := Text.written_hexChars _

theorem text_lt_iff : d.text < e.text ↔ d.toNat < e.toNat := by
  have hlength : d.chars.length = e.chars.length := by rw [length_chars, length_chars]
  have hchars := Text.lt_iff_spelled_lt d.written_chars e.written_chars hlength
  rw [toNat_eq_spelled, toNat_eq_spelled, ← hchars]
  change d.text.toList < e.text.toList ↔ _
  rw [text, text, String.toList_ofList, String.toList_ofList]

theorem compare_text (d e : Digest) : compare d.text e.text = compare d.toNat e.toNat := by
  change compareOfLessAndEq d.text e.text = compareOfLessAndEq d.toNat e.toNat
  have heq : d.text = e.text ↔ d.toNat = e.toNat := by
    constructor
    · intro h
      rw [text_injective h]
    · intro h
      rw [toNat_injective h]
  simp only [compareOfLessAndEq, text_lt_iff, heq]

end Digest

open Digest in
/-- A text is read as a digest exactly if it is sixty-four hexadecimal digits of either case, behind
at most one mark and between blanks; any other is refused as an invalid header. The text of the
digest that is read is these digits in lower case, and its number is what they spell. The text of a
digest reads as that digest, and texts compare as the numbers do. -/
theorem digest_text_reads_as_number :
    (∀ text : String,
      ((∃ d, parse text = .ok d) ↔ ∃ digits, Presents text digits) ∧
      ((∃ error, (parse text).mapError ConsensusError.digest = .error error) ↔
        ¬ ∃ digits, Presents text digits) ∧
      (∀ error, (parse text).mapError ConsensusError.digest = .error error →
        ∃ fault, parse text = .error fault ∧ error = .digest fault ∧
          error.message = "Invalid block header: " ++ fault.message) ∧
      ∀ (digits : List Char) (d : Digest), Presents text digits → parse text = .ok d →
        d.text = String.ofList (digits.map Char.toLower) ∧ d.toNat = Text.spelled digits) ∧
    (∀ d : Digest, parse d.text = .ok d) ∧
    ∀ d e : Digest, compare d.text e.text = compare d.toNat e.toNat := by
  refine ⟨fun text => ⟨exists_ok_iff, exists_digestError_iff, fun error herror => ?_,
    fun digits d h hparse => ?_⟩, parse_text, compare_text⟩
  · obtain ⟨fault, hfault, rfl⟩ := mapError_parse_eq_error_iff.mp herror
    exact ⟨fault, hfault, rfl, rfl⟩
  · have hchars := h.chars_eq hparse
    obtain ⟨-, -, hdigits⟩ := presents_iff.mp h
    refine ⟨congrArg String.ofList hchars, ?_⟩
    rw [toNat_eq_spelled, hchars, Text.spelled_map_toLower hdigits]

open Digest in
/-- Blanks of several scripts, a mark with a capital letter, and digits of both cases. -/
theorem digest_text_reads_as_number_between_blanks :
    let digits : List Char := ['F', 'a'] ++ List.replicate 62 '0'
    let text := String.ofList (['\u3000', ' '] ++ (['0', 'X'] ++ digits) ++ ['\u00a0', '\n'])
    Presents text digits ∧ ∃ d, parse text = .ok d ∧
      d.text = String.ofList (['f', 'a'] ++ List.replicate 62 '0') ∧ d.toNat = 0xfa * 256 ^ 31 := by
  intro digits text
  have hpresents : Presents text digits :=
    ⟨['\u3000', ' '], ['0', 'X'], ['\u00a0', '\n'], String.toList_ofList,
      Text.forall_mem_of_all (by decide), Text.forall_mem_of_all (by decide), by decide, by decide,
      Text.forall_mem_of_all (by decide)⟩
  obtain ⟨haccepted, -, -, hread⟩ := digest_text_reads_as_number.1 text
  obtain ⟨d, hparse⟩ := haccepted.mpr ⟨digits, hpresents⟩
  obtain ⟨htext, hnumber⟩ := hread digits d hpresents hparse
  exact ⟨hpresents, d, hparse, htext, hnumber.trans (by decide)⟩

end PowConsensus
