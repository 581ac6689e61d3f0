import PowConsensus.Json.Document

/-! # Tokens read back from what is written

Marks and strings end by themselves, a string because a quote in it stands after a backslash. A
number ends where something stands that no number goes on with, such as a comma or a closing mark.
-/
namespace PowConsensus.Json

/-! ## Strings -/

/-- A character that is written as itself or after a backslash. -/
def Part.Plain : Part → Prop
  | .char c => 0x20 ≤ c.toNat
  | .unit _ => False

theorem scanString_renderPart {part : Part} (h : part.Plain) (cs : List Char) :
    scanString (Document.renderPart part ++ cs) =
      (scanString cs).map fun s => (part :: s.1, s.2) := by
  cases part with
  | unit n => exact h.elim
  | char c =>
    have hbind : ∀ s : Option (List Part × List Char),
        (s.bind fun s => some (Part.char c :: s.1, s.2)) =
          s.map fun s => (Part.char c :: s.1, s.2) := by
      intro s
      cases s <;> rfl
    by_cases hquote : c = '"'
    · subst hquote
      exact hbind _
    · by_cases hslash : c = '\\'
      · subst hslash
        exact hbind _
      · have hrender : Document.renderPart (.char c) = [c] := by
          unfold Document.renderPart
          split <;> simp_all
        rw [hrender, List.singleton_append, scanString]
        · rw [if_neg (Nat.not_lt.mpr h)]
          exact hbind _
        all_goals simp_all

theorem scanString_renderParts {parts : List Part} (h : ∀ part ∈ parts, part.Plain)
    (cs : List Char) :
    scanString (parts.flatMap Document.renderPart ++ '"' :: cs) = some (parts, cs) := by
  induction parts with
  | nil => rfl
  | cons part parts ih =>
    obtain ⟨hpart, hparts⟩ := List.forall_mem_cons.mp h
    rw [List.flatMap_cons, List.append_assoc, scanString_renderPart hpart, ih hparts]
    rfl

/-! ## Numbers -/

/-- Nothing that a number goes on with. -/
def EndsNumber (cs : List Char) : Prop :=
  ∀ c, cs.head? = some c → c.isDigit = false ∧ c ≠ '.' ∧ c ≠ 'e' ∧ c ≠ 'E'

theorem EndsNumber.of_cons {c : Char} (h : c ∈ [',', ']', '\x7d']) (cs : List Char) :
    EndsNumber (c :: cs) := by
  have hall : ∀ c ∈ [',', ']', '\x7d'], c.isDigit = false ∧ c ≠ '.' ∧ c ≠ 'e' ∧ c ≠ 'E' := by
    simp
  rintro _ ⟨⟩
  exact hall c h

section Number
variable {n : Nat} {cs : List Char}

theorem isDigit_of_mem_toDigits {c : Char} (h : c ∈ Nat.toDigits 10 n) : c.isDigit = true :=
  Nat.isDigit_of_mem_toDigits (by decide) (by decide) h

theorem takeWhile_digits (h : EndsNumber cs) : cs.takeWhile Char.isDigit = [] := by
  cases cs with
  | nil => rfl
  | cons c cs => rw [List.takeWhile_cons, (h c rfl).1]; rfl

theorem dropWhile_digits (h : EndsNumber cs) : cs.dropWhile Char.isDigit = cs := by
  cases cs with
  | nil => rfl
  | cons c cs => rw [List.dropWhile_cons, (h c rfl).1]; rfl

theorem scanDigits_toDigits (h : EndsNumber cs) :
    scanDigits (Nat.toDigits 10 n ++ cs) = some (Nat.toDigits 10 n, cs) := by
  have hdigits : ∀ c ∈ Nat.toDigits 10 n, c.isDigit = true := fun _ => isDigit_of_mem_toDigits
  rw [scanDigits, List.takeWhile_append_of_pos hdigits, List.dropWhile_append_of_pos hdigits,
    takeWhile_digits h, dropWhile_digits h, List.append_nil]
  exact if_neg Nat.toDigits_ne_nil

/-- Only zero begins with the digit zero. -/
theorem toDigits_eq_of_head? (h : (Nat.toDigits 10 n).head? = some '0') :
    Nat.toDigits 10 n = ['0'] := by
  induction n using Nat.strongRecOn with
  | ind n ih =>
    by_cases hlt : n < 10
    · rw [Nat.toDigits_of_lt_base hlt] at h ⊢
      rw [Option.some.inj h]
    · have hge : 10 ≤ n := by omega
      have hne : Nat.toDigits 10 (n / 10) ≠ [] := Nat.toDigits_ne_nil
      rw [Nat.toDigits_of_base_le (by decide) hge, List.head?_append, List.head?_eq_some_head hne,
        Option.some_or, ← List.head?_eq_some_head hne] at h
      have hzero : n / 10 = 0 := by
        rw [← Nat.ofDigitChars_ten_toDigits (n := n / 10), ih (n / 10) (by omega) h]
        rfl
      omega

theorem scanWhole_toDigits (h : EndsNumber cs) :
    scanWhole (Nat.toDigits 10 n ++ cs) = some (Nat.toDigits 10 n, cs) := by
  rw [scanWhole, scanDigits_toDigits h]
  exact if_neg fun hzero => hzero.2 (toDigits_eq_of_head? hzero.1)

theorem scanFraction_of_endsNumber (h : EndsNumber cs) : scanFraction cs = some ([], cs) := by
  cases cs with
  | nil => rfl
  | cons c cs =>
    unfold scanFraction
    split
    · next heq => exact absurd (List.cons.inj heq).1 (h c rfl).2.1
    · rfl

theorem scanExponent_of_endsNumber (h : EndsNumber cs) : scanExponent cs = some ([], cs) := by
  cases cs with
  | nil => rfl
  | cons c cs =>
    obtain ⟨-, -, he, hE⟩ := h c rfl
    rw [scanExponent, if_neg (not_or_intro he hE)]

theorem toDigits_eq_cons (n : Nat) :
    ∃ c digits, Nat.toDigits 10 n = c :: digits ∧ c.isDigit = true := by
  obtain ⟨c, digits, hcons⟩ := List.exists_cons_of_ne_nil (Nat.toDigits_ne_nil (n := n) (b := 10))
  exact ⟨c, digits, hcons, isDigit_of_mem_toDigits (hcons ▸ List.mem_cons_self)⟩

theorem scanMinus_of_isDigit {c : Char} (h : c.isDigit = true) (cs : List Char) :
    scanMinus (c :: cs) = ([], c :: cs) := by
  unfold scanMinus
  split
  · next heq =>
    obtain ⟨rfl, -⟩ := List.cons.inj heq
    exact absurd h (by decide)
  · rfl

theorem scanNumber_toDigits (h : EndsNumber cs) :
    scanNumber (Nat.toDigits 10 n ++ cs) = some (Nat.toDigits 10 n, cs) := by
  obtain ⟨c, digits, hcons, hdigit⟩ := toDigits_eq_cons n
  have hminus : scanMinus (Nat.toDigits 10 n ++ cs) = ([], Nat.toDigits 10 n ++ cs) := by
    rw [hcons]
    exact scanMinus_of_isDigit hdigit _
  simp [scanNumber, hminus, scanWhole_toDigits h, scanFraction_of_endsNumber h,
    scanExponent_of_endsNumber h]

/-- No other token begins with a digit. -/
theorem Token.scan_of_isDigit {c : Char} (h : c.isDigit = true) (cs : List Char) :
    scan (c :: cs) = (scanNumber (c :: cs)).map fun s => (.number s.1, s.2) := by
  have hmarks : ∀ d ∈ ['\x7b', '\x7d', '[', ']', ',', ':', 'n', 't', 'f', '"'],
      d.isDigit = false := by simp
  have hne : ∀ d ∈ ['\x7b', '\x7d', '[', ']', ',', ':', 'n', 't', 'f', '"'], c ≠ d := by
    rintro d hd rfl
    exact absurd h (ne_true_of_eq_false (hmarks c hd))
  unfold scan
  split <;> simp_all

theorem Token.scan_toDigits (h : EndsNumber cs) :
    scan (Nat.toDigits 10 n ++ cs) = some (.number (Nat.toDigits 10 n), cs) := by
  obtain ⟨c, digits, hcons, hdigit⟩ := toDigits_eq_cons n
  have hscan := scan_of_isDigit hdigit (digits ++ cs)
  rw [← List.cons_append, ← hcons, scanNumber_toDigits h] at hscan
  exact hscan

end Number

/-! ## Texts -/

/-- The characters are cut into these tokens, given fuel for each character. -/
def Scans (cs : List Char) (tokens : List Token) : Prop :=
  ∀ fuel, cs.length ≤ fuel → Token.scanAll fuel cs = some tokens

section Scans
variable {cs rest : List Char} {token : Token} {tokens : List Token}

theorem Scans.nil : Scans [] [] := by
  intro fuel _
  cases fuel <;> rfl

theorem Scans.cons {c : Char} (hblank : isBlank c = false)
    (hscan : Token.scan (c :: cs) = some (token, rest)) (hlength : rest.length ≤ cs.length)
    (h : Scans rest tokens) : Scans (c :: cs) (token :: tokens) := by
  intro fuel hfuel
  have hdrop : (c :: cs).dropWhile isBlank = c :: cs := by
    rw [List.dropWhile_cons, hblank]
    rfl
  cases fuel with
  | zero => exact absurd hfuel (Nat.not_succ_le_zero _)
  | succ fuel =>
    have hrest := h fuel (Nat.le_trans hlength (Nat.le_of_succ_le_succ hfuel))
    unfold Token.scanAll
    simp only [hdrop, hscan, Option.bind_eq_bind, Option.bind_some, hrest]

/-- A token of one character. -/
theorem Scans.mark {c : Char} (hblank : isBlank c = false)
    (hscan : Token.scan (c :: cs) = some (token, cs)) (h : Scans cs tokens) :
    Scans (c :: cs) (token :: tokens) :=
  h.cons hblank hscan (Nat.le_refl _)

theorem Scans.text {parts : List Part} (hparts : ∀ part ∈ parts, part.Plain)
    (h : Scans cs tokens) :
    Scans (Document.renderParts parts ++ cs) (.text parts :: tokens) := by
  have hscan : Token.scan ('"' :: (parts.flatMap Document.renderPart ++ '"' :: cs)) =
      some (.text parts, cs) := by
    rw [Token.scan, scanString_renderParts hparts]
    rfl
  rw [Document.renderParts, List.cons_append, List.append_assoc, List.singleton_append]
  exact h.cons (by decide) hscan (by simp; omega)

theorem Scans.number (n : Nat) (hends : EndsNumber cs) (h : Scans cs tokens) :
    Scans (Nat.toDigits 10 n ++ cs) (.number (Nat.toDigits 10 n) :: tokens) := by
  obtain ⟨c, digits, hcons, hdigit⟩ := toDigits_eq_cons n
  have hscan := Token.scan_toDigits (n := n) hends
  have hblank : isBlank c = false := by
    refine decide_eq_false ?_
    rintro (rfl | rfl | rfl | rfl) <;> exact absurd hdigit (by decide)
  rw [hcons, List.cons_append] at hscan ⊢
  exact h.cons hblank hscan (by simp)

end Scans

end PowConsensus.Json
