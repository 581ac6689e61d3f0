import Mathlib.Data.Nat.Digits.Defs
import Mathlib.Tactic.SplitIfs
import PowConsensus.Proofs.Hash.DigestText

/-! # Hexadecimal digits as numbers

A text is read as bytes exactly if it is made of the digits 0 to 9 and a to f, of either case, and
has an even number of them; the bytes are those whose digits it holds. The number that digits spell
is that of the bytes, and digits of one length and of lower case are in the order of their numbers.
-/
namespace PowConsensus.Text
variable {c : Char} {cs digits : List Char} {bytes : List UInt8} {position : Nat}

/-- The digits, those above nine in either case. -/
def hexDigits : List Char :=
  ['0', '1', '2', '3', '4', '5', '6', '7', '8', '9', 'a', 'b', 'c', 'd', 'e', 'f',
    'A', 'B', 'C', 'D', 'E', 'F']

def digitValue (c : Char) : Nat := if c ≤ '9' then c.toNat - 0x30 else c.toLower.toNat - 0x57

/-- The number that digits spell, the most significant one first. -/
def spelled (digits : List Char) : Nat := Nat.ofDigits 16 (digits.reverse.map digitValue)

/-- Decides about the characters of a list by going through it, and not through all characters. -/
theorem forall_mem_of_all {p : Char → Prop} [DecidablePred p] (h : cs.all (p ·) = true) :
    ∀ c ∈ cs, p c := by
  intro c hc
  exact of_decide_eq_true (List.all_eq_true.mp h c hc)

theorem digitValue_lt : ∀ c ∈ hexDigits, digitValue c < 16 := forall_mem_of_all (by decide)

theorem toLower_eq_digitChar : ∀ c ∈ hexDigits, c.toLower = Nat.digitChar (digitValue c) :=
  forall_mem_of_all (by decide)

theorem digitValue_toLower : ∀ c ∈ hexDigits, digitValue c.toLower = digitValue c :=
  forall_mem_of_all (by decide)

theorem not_blank_of_digit : ∀ c ∈ hexDigits, isBlank c = false := forall_mem_of_all (by decide)

theorem ne_mark_of_digit : ∀ c ∈ hexDigits, c ≠ 'x' ∧ c ≠ 'X' := forall_mem_of_all (by decide)

theorem utf8_digit : ∀ c ∈ hexDigits, String.utf8EncodeChar c = [UInt8.ofNat c.toNat] :=
  forall_mem_of_all (by decide)

theorem hexValue?_digit :
    ∀ c ∈ hexDigits, hexValue? (UInt8.ofNat c.toNat) = some (UInt8.ofNat (digitValue c)) :=
  forall_mem_of_all (by decide)

theorem digitValue_digitChar : ∀ k < 16, digitValue (Nat.digitChar k) = k := by decide

theorem digitChar_lt_iff :
    ∀ k < 16, ∀ j < 16, (Nat.digitChar k < Nat.digitChar j ↔ k < j) := by decide

/-- Bytes above ASCII are no digits. -/
theorem hexValue?_of_le {b : UInt8} (h : 0x80 ≤ b.toNat) : hexValue? b = none := by
  have hlt (k : UInt8) (hk : k.toNat < 0x80) : ¬ b ≤ k := by
    rw [UInt8.le_iff_toNat_le]
    omega
  rw [hexValue?, if_neg (fun hrange => hlt 0x39 (by decide) hrange.2),
    if_neg (fun hrange => hlt 0x66 (by decide) hrange.2),
    if_neg (fun hrange => hlt 0x46 (by decide) hrange.2)]

theorem mem_hexDigits_of_ascii :
    ∀ k < 0x80, (hexValue? (UInt8.ofNat k)).isSome → Char.ofNat k ∈ hexDigits := by decide

theorem utf8EncodeChar_of_ascii (h : c.toNat ≤ 0x7f) :
    String.utf8EncodeChar c = [UInt8.ofNat c.toNat] := if_pos h

/-- The first byte of a character above ASCII is above ASCII. -/
theorem exists_high_byte (h : ¬ c.toNat ≤ 0x7f) :
    ∃ b ∈ String.utf8EncodeChar c, 0x80 ≤ b.toNat := by
  have hval : ¬ c.val.toNat ≤ 0x7f := h
  simp only [String.utf8EncodeChar, if_neg hval]
  split_ifs
  all_goals
    refine ⟨_, List.mem_cons_self, ?_⟩
    rw [UInt8.toNat_ofNat']
    omega

theorem mem_hexDigits_of_utf8 (h : ∀ b ∈ String.utf8EncodeChar c, (hexValue? b).isSome) :
    c ∈ hexDigits := by
  by_cases hascii : c.toNat ≤ 0x7f
  · rw [utf8EncodeChar_of_ascii hascii] at h
    have hdigit := mem_hexDigits_of_ascii c.toNat (by omega) (h _ List.mem_cons_self)
    rwa [Char.ofNat_toNat] at hdigit
  · obtain ⟨b, hb, hhigh⟩ := exists_high_byte hascii
    have hdigit := h b hb
    rw [hexValue?_of_le hhigh] at hdigit
    cases hdigit

theorem isSome_of_hexPairs {text : List UInt8} (h : hexPairs position text = .ok bytes) :
    ∀ b ∈ text, (hexValue? b).isSome := by
  fun_induction hexPairs position text generalizing bytes with
  | case1 =>
    intro b hb
    cases hb
  | case2 => cases h
  | case3 => cases h
  | case4 => cases h
  | case5 position a b rest x y hy hx ih =>
    cases hrest : hexPairs (position + 2) rest with
    | error fault =>
      rw [hrest] at h
      cases h
    | ok tail =>
      intro c hc
      rcases List.mem_cons.mp hc with rfl | hc
      · rw [hx]
        rfl
      rcases List.mem_cons.mp hc with rfl | hc
      · rw [hy]
        rfl
      · exact ih hrest c hc

theorem utf8_eq_map (h : ∀ c ∈ digits, c ∈ hexDigits) :
    utf8 digits = digits.map fun c => UInt8.ofNat c.toNat := by
  induction digits with
  | nil => rfl
  | cons c digits ih =>
    obtain ⟨hc, hdigits⟩ := List.forall_mem_cons.mp h
    rw [List.map_cons, ← ih hdigits, utf8, List.flatMap_cons, utf8_digit c hc]
    rfl

/-- Two digits are those of the byte they are read as, in lower case. -/
theorem hexByte_of_digits {a b : Char} (ha : a ∈ hexDigits) (hb : b ∈ hexDigits) :
    hexByte (16 * UInt8.ofNat (digitValue a) + UInt8.ofNat (digitValue b)) =
      [a.toLower, b.toLower] := by
  have hx := digitValue_lt a ha
  have hy := digitValue_lt b hb
  have hbyte : (16 * UInt8.ofNat (digitValue a) + UInt8.ofNat (digitValue b)).toNat =
      16 * digitValue a + digitValue b := by
    simp only [UInt8.toNat_add, UInt8.toNat_mul, UInt8.toNat_ofNat', UInt8.reduceToNat]
    omega
  have hhigh : (16 * digitValue a + digitValue b) / 16 % 16 = digitValue a := by omega
  have hlow : (16 * digitValue a + digitValue b) % 16 = digitValue b := by omega
  rw [hexByte, hexDigit, hexDigit, hbyte, hhigh, hlow, toLower_eq_digitChar a ha,
    toLower_eq_digitChar b hb]

/-- The induction takes two digits at a time. -/
theorem exists_hexPairs {n : Nat} (h : ∀ c ∈ digits, c ∈ hexDigits) (hlength : digits.length = 2 * n)
    (position : Nat) : ∃ bytes, hexPairs position (utf8 digits) = .ok bytes ∧
      hexChars bytes = digits.map Char.toLower := by
  induction n generalizing digits position with
  | zero =>
    obtain rfl := List.eq_nil_of_length_eq_zero hlength
    exact ⟨[], rfl, rfl⟩
  | succ n ih =>
    match digits, hlength with
    | a :: b :: rest, hlength =>
      obtain ⟨ha, hrest⟩ := List.forall_mem_cons.mp h
      obtain ⟨hb, hrest⟩ := List.forall_mem_cons.mp hrest
      obtain ⟨bytes, hread, hchars⟩ := ih hrest (by simpa [Nat.mul_succ] using hlength) (position + 2)
      refine ⟨(16 * UInt8.ofNat (digitValue a) + UInt8.ofNat (digitValue b)) :: bytes, ?_, ?_⟩
      · rw [utf8_eq_map h]
        simp only [List.map_cons, hexPairs, hexValue?_digit a ha, hexValue?_digit b hb]
        rw [← utf8_eq_map hrest, hread]
        rfl
      · rw [hexChars, List.flatMap_cons, hexByte_of_digits ha hb]
        exact congrArg ([a.toLower, b.toLower] ++ ·) hchars

theorem hexChars_injective {bytes bytes' : List UInt8} (h : hexChars bytes = hexChars bytes') :
    bytes = bytes' := by
  have hread := unhex_utf8_hexChars bytes
  rw [h, unhex_utf8_hexChars] at hread
  cases hread
  rfl

theorem forall_mem_hexDigits_of_unhex (h : unhex (utf8 cs) = .ok bytes) :
    ∀ c ∈ cs, c ∈ hexDigits := by
  unfold unhex at h
  split_ifs at h
  intro c hc
  apply mem_hexDigits_of_utf8
  intro b hb
  exact isSome_of_hexPairs h b (List.mem_flatMap.mpr ⟨c, hc, hb⟩)

/-- A text is read as bytes if it is digits in pairs, and holds the digits of the bytes. -/
theorem unhex_eq_ok_iff :
    unhex (utf8 cs) = .ok bytes ↔
      (∀ c ∈ cs, c ∈ hexDigits) ∧ hexChars bytes = cs.map Char.toLower := by
  constructor
  · intro h
    have hdigits := forall_mem_hexDigits_of_unhex h
    unfold unhex at h
    split_ifs at h with hodd
    rw [utf8_eq_map hdigits, List.length_map] at hodd
    have hhalf : cs.length = 2 * (cs.length / 2) := by omega
    obtain ⟨bytes', hread, hchars⟩ := exists_hexPairs hdigits hhalf 0
    rw [h] at hread
    cases hread
    exact ⟨hdigits, hchars⟩
  · rintro ⟨hdigits, hchars⟩
    have hlength : cs.length = 2 * bytes.length := by
      rw [← length_hexChars, hchars, List.length_map]
    obtain ⟨bytes', hread, hchars'⟩ := exists_hexPairs hdigits hlength 0
    obtain rfl := hexChars_injective (hchars.trans hchars'.symm)
    rw [unhex, utf8_eq_map hdigits, List.length_map, if_neg (by omega), ← utf8_eq_map hdigits, hread]

theorem spelled_append (digits digits' : List Char) :
    spelled (digits ++ digits') = 16 ^ digits'.length * spelled digits + spelled digits' := by
  rw [spelled, List.reverse_append, List.map_append, Nat.ofDigits_append, List.length_map,
    List.length_reverse, Nat.add_comm]
  rfl

theorem spelled_singleton (c : Char) : spelled [c] = digitValue c := Nat.ofDigits_singleton

theorem spelled_cons (c : Char) (digits : List Char) :
    spelled (c :: digits) = 16 ^ digits.length * digitValue c + spelled digits := by
  rw [← List.singleton_append, spelled_append, spelled_singleton]

theorem spelled_lt (h : ∀ c ∈ digits, c ∈ hexDigits) : spelled digits < 16 ^ digits.length := by
  induction digits with
  | nil => exact Nat.one_pos
  | cons c digits ih =>
    obtain ⟨hc, hdigits⟩ := List.forall_mem_cons.mp h
    have hrest := ih hdigits
    have hvalue := digitValue_lt c hc
    calc spelled (c :: digits) = 16 ^ digits.length * digitValue c + spelled digits :=
          spelled_cons c digits
      _ < 16 ^ digits.length * (digitValue c + 1) := by rw [Nat.mul_succ]; omega
      _ ≤ 16 ^ digits.length * 16 := Nat.mul_le_mul_left _ hvalue

theorem spelled_map_toLower (h : ∀ c ∈ digits, c ∈ hexDigits) :
    spelled (digits.map Char.toLower) = spelled digits := by
  have hvalues : ∀ c ∈ digits.reverse, (digitValue ∘ Char.toLower) c = digitValue c :=
    fun c hc => digitValue_toLower c (h c (List.mem_reverse.mp hc))
  rw [spelled, ← List.map_reverse, List.map_map, List.map_congr_left hvalues, spelled]

/-- Lower-case digits, as they are written. -/
def Written (digits : List Char) : Prop := ∀ c ∈ digits, ∃ k < 16, c = Nat.digitChar k

theorem written_hexChars (bytes : List UInt8) : Written (hexChars bytes) :=
  forall_mem_hexChars (fun n => ⟨n % 16, Nat.mod_lt n (by decide), rfl⟩) bytes

theorem digitChar_mem_hexDigits : ∀ k < 16, Nat.digitChar k ∈ hexDigits := by decide

theorem Written.mem_hexDigits (h : Written digits) : ∀ c ∈ digits, c ∈ hexDigits := by
  intro c hc
  obtain ⟨k, hk, rfl⟩ := h c hc
  exact digitChar_mem_hexDigits k hk

/-- Leading digits decide, unless they are equal. -/
theorem lead_lt_iff {unit k j x y : Nat} (hx : x < unit) (hy : y < unit) :
    k < j ∨ k = j ∧ x < y ↔ unit * k + x < unit * j + y := by
  rcases Nat.lt_trichotomy k j with hlt | rfl | hgt
  · have hstep : unit * (k + 1) ≤ unit * j := Nat.mul_le_mul_left unit hlt
    rw [Nat.mul_succ] at hstep
    omega
  · omega
  · have hstep : unit * (j + 1) ≤ unit * k := Nat.mul_le_mul_left unit hgt
    rw [Nat.mul_succ] at hstep
    omega

/-- The first digits that differ decide about the texts, and about the numbers too, since what
follows them stays below one unit of theirs. -/
theorem lt_iff_spelled_lt {digits' : List Char} (h : Written digits) (h' : Written digits')
    (hlength : digits.length = digits'.length) : digits < digits' ↔ spelled digits < spelled digits' := by
  induction digits generalizing digits' with
  | nil =>
    obtain rfl := List.eq_nil_of_length_eq_zero hlength.symm
    exact iff_of_false (List.not_lt_nil []) (Nat.lt_irrefl _)
  | cons c digits ih =>
    match digits', hlength with
    | c' :: digits', hlength =>
      obtain ⟨⟨k, hk, rfl⟩, hdigits⟩ := List.forall_mem_cons.mp h
      obtain ⟨⟨j, hj, rfl⟩, hdigits'⟩ := List.forall_mem_cons.mp h'
      have hrest := spelled_lt (Written.mem_hexDigits hdigits)
      have hrest' := spelled_lt (Written.mem_hexDigits hdigits')
      have hsame : digits.length = digits'.length := Nat.succ.inj hlength
      have hinj : Nat.digitChar k = Nat.digitChar j ↔ k = j := by
        constructor
        · intro heq
          rw [← digitValue_digitChar k hk, heq, digitValue_digitChar j hj]
        · rintro rfl
          rfl
      rw [List.cons_lt_cons_iff, digitChar_lt_iff k hk j hj, hinj, ih hdigits hdigits' hsame,
        spelled_cons, spelled_cons, digitValue_digitChar k hk, digitValue_digitChar j hj, hsame]
      exact lead_lt_iff (hsame ▸ hrest) hrest'

theorem spelled_hexByte (b : UInt8) : spelled (hexByte b) = b.toNat := by
  have hlt := b.toNat_lt
  have hvalue (n : Nat) : digitValue (hexDigit n) = n % 16 :=
    digitValue_digitChar _ (Nat.mod_lt n (by decide))
  rw [hexByte, spelled_cons, spelled_singleton, hvalue, hvalue, List.length_singleton]
  omega

/-- The first byte is written last, where the least significant digits stand. -/
theorem spelled_hexChars_reverse (bytes : List UInt8) :
    spelled (hexChars bytes.reverse) = ofLittleEndian bytes := by
  induction bytes with
  | nil => rfl
  | cons b bytes ih =>
    have hsplit : hexChars (b :: bytes).reverse = hexChars bytes.reverse ++ hexByte b := by
      rw [List.reverse_cons, hexChars, List.flatMap_append, List.flatMap_singleton]
      rfl
    have htwo : 16 ^ (hexByte b).length = 256 := rfl
    rw [hsplit, spelled_append, ih, spelled_hexByte, htwo, ofLittleEndian, Nat.add_comm]

end PowConsensus.Text
