import Mathlib.Order.Bounds.Defs
import PowConsensus.Transaction.ScriptNumber

/-! # Script numbers are minimal and unique

Bytes with a sign in their top bit leave room for half of the magnitudes they could hold otherwise.
A number is written in the least width that has room for its magnitude, and apart from zero no other
bytes of that width denote it, so that the written bytes are the one shortest form.
-/
namespace PowConsensus.ScriptNumber
variable {n : Int} {m k : Nat} {bs : List UInt8}

/-- How many magnitudes there is room for beside a sign. No bytes are room for zero alone. -/
def room (width : Nat) : Nat := 2 ^ (8 * width - 1)

theorem room_succ (k : Nat) : room (k + 1) = 128 * 256 ^ k := by
  have hexponent : 8 * (k + 1) - 1 = 7 + 8 * k := by omega
  rw [room, hexponent, Nat.pow_add, Nat.pow_mul]

theorem room_add_two (k : Nat) : room (k + 2) = 256 * room (k + 1) := by
  rw [room_succ, room_succ, Nat.pow_succ]
  omega

theorem room_mono {j : Nat} (h : j ≤ k) : room j ≤ room k :=
  Nat.pow_le_pow_right (by decide) (by omega)

theorem room_le (k : Nat) : room k ≤ 256 ^ k := by
  rw [room, show 256 = 2 ^ 8 from rfl, ← Nat.pow_mul]
  exact Nat.pow_le_pow_right (by decide) (by omega)

theorem le_two_mul_room (k : Nat) : 256 ^ k ≤ 2 * room k := by
  cases k with
  | zero => decide
  | succ k =>
    rw [room_succ, Nat.pow_succ]
    omega

/-- The top bit of the last byte is the upper half of the numbers of a width. -/
theorem le_getLastD_iff (bs : List UInt8) :
    0x80 ≤ bs.getLastD 0 ↔ room bs.length ≤ ofLittleEndian bs := by
  induction bs with
  | nil => decide
  | cons b rest ih =>
    have hb := b.toNat_lt
    cases rest with
    | nil =>
      rw [UInt8.le_iff_toNat_le]
      simp [room, ofLittleEndian]
    | cons c rest =>
      change 0x80 ≤ (c :: rest).getLastD 0 ↔
        room (rest.length + 2) ≤ b.toNat + 256 * ofLittleEndian (c :: rest)
      rw [ih, room_add_two, List.length_cons]
      omega

/-- Without its sign, a number is what the bytes are without their top bit. -/
theorem denoted_eq (bs : List UInt8) :
    denoted bs = if ofLittleEndian bs < room bs.length then (ofLittleEndian bs : Int)
      else -((ofLittleEndian bs : Int) - room bs.length) := by
  induction bs with
  | nil => rfl
  | cons b rest ih =>
    cases rest with
    | nil =>
      simp [denoted, ofLittleEndian, room, UInt8.lt_iff_toNat_lt]
    | cons c rest =>
      have hb := b.toNat_lt
      have hstep : denoted (b :: c :: rest) = if 0x80 ≤ (c :: rest).getLastD 0
          then 256 * denoted (c :: rest) - b.toNat else 256 * denoted (c :: rest) + b.toNat := rfl
      have hbytes : ofLittleEndian (b :: c :: rest) = b.toNat + 256 * ofLittleEndian (c :: rest) :=
        rfl
      have hroom : room (b :: c :: rest).length = 256 * room (c :: rest).length :=
        room_add_two rest.length
      rw [hstep, ih, hbytes, hroom]
      simp only [le_getLastD_iff]
      by_cases hsign : room (c :: rest).length ≤ ofLittleEndian (c :: rest)
      · rw [if_pos hsign, if_neg (by omega), if_neg (by omega)]
        omega
      · rw [if_neg hsign, if_pos (by omega), if_pos (by omega)]
        omega

theorem natAbs_denoted_lt (bs : List UInt8) : (denoted bs).natAbs < room bs.length := by
  have hbytes := ofLittleEndian_lt bs
  have hhalf := le_two_mul_room bs.length
  rw [denoted_eq]
  split
  · omega
  · omega

/-- Bytes of one width denote different numbers, unless both denote zero. -/
theorem eq_of_denoted_eq {bs bs' : List UInt8} (hlength : bs.length = bs'.length)
    (heq : denoted bs = denoted bs') (hne : denoted bs ≠ 0) : bs = bs' := by
  have hnumber : ofLittleEndian bs = ofLittleEndian bs' := by
    rw [denoted_eq, denoted_eq, hlength] at heq
    rw [denoted_eq, hlength] at hne
    split at hne
    · rw [if_pos ‹_›] at heq
      split at heq
      · omega
      · omega
    · rw [if_neg ‹_›] at heq
      split at heq
      · omega
      · omega
  rw [← littleEndian_ofLittleEndian bs, ← littleEndian_ofLittleEndian bs', hlength, hnumber]

theorem ofLittleEndian_magnitudeBytes (m : Nat) : ofLittleEndian (magnitudeBytes m) = m := by
  induction m using magnitudeBytes.induct with
  | case1 =>
    rw [magnitudeBytes]
    rfl
  | case2 m h ih =>
    have hbyte : (UInt8.ofNat (m % 256)).toNat = m % 256 :=
      UInt8.toNat_ofNat_of_lt' (Nat.mod_lt m (by decide))
    rw [magnitudeBytes, if_neg h, ofLittleEndian, ih, hbyte]
    omega

/-- No byte of a magnitude is spent on leading zeros. -/
theorem pow_length_magnitudeBytes (hm : m ≠ 0) : 256 ^ (magnitudeBytes m).length ≤ 256 * m := by
  induction m using magnitudeBytes.induct with
  | case1 => exact absurd rfl hm
  | case2 m h ih =>
    rw [magnitudeBytes, if_neg h, List.length_cons, Nat.pow_succ]
    by_cases hlast : m / 256 = 0
    · rw [hlast, magnitudeBytes, if_pos rfl, List.length_nil]
      omega
    · have hrest := ih hlast
      omega

theorem toNat_or_sign {b : UInt8} (h : b < 0x80) : (b ||| 0x80).toNat = b.toNat + 0x80 := by
  have hb : b.toNat < 2 ^ 7 := h
  have hbit : (0x80 : UInt8).toNat = 2 ^ 7 * 1 := rfl
  rw [UInt8.toNat_or, hbit, Nat.or_comm, ← Nat.two_pow_add_eq_or_of_lt hb]
  omega

/-- What marking the sign in the bytes of a magnitude may result in. -/
structure Marks (negative : Bool) (bs out : List UInt8) : Prop where
  value : ofLittleEndian out = ofLittleEndian bs + if negative then room out.length else 0
  fits : ofLittleEndian bs < room out.length
  width : out.length = bs.length ∨ out.length = bs.length + 1 ∧ room bs.length ≤ ofLittleEndian bs

theorem Marks.cons {negative : Bool} {out : List UInt8} (h : Marks negative bs out) (hne : bs ≠ [])
    (b : UInt8) : Marks negative (b :: bs) (b :: out) := by
  have hb := b.toNat_lt
  obtain ⟨hvalue, hfits, hwidth⟩ := h
  obtain ⟨k, hk⟩ := Nat.exists_eq_succ_of_ne_zero (mt List.length_eq_zero_iff.mp hne)
  obtain ⟨j, hj⟩ : ∃ j, out.length = j + 1 := ⟨out.length - 1, by omega⟩
  have hroom : room (b :: out).length = 256 * room out.length := by
    rw [List.length_cons, hj, room_add_two]
  have hroom' : room (b :: bs).length = 256 * room bs.length := by
    rw [List.length_cons, hk, room_add_two]
  refine ⟨?_, ?_, ?_⟩
  · rw [ofLittleEndian, ofLittleEndian, hvalue, hroom]
    split
    · omega
    · omega
  · rw [ofLittleEndian, hroom]
    omega
  · rw [ofLittleEndian, hroom', List.length_cons, List.length_cons]
    omega

theorem signed_marks (negative : Bool) (hne : bs ≠ []) :
    Marks negative bs (signed negative bs) := by
  induction bs with
  | nil => exact absurd rfl hne
  | cons b rest ih =>
    cases rest with
    | cons c rest => exact (ih (List.cons_ne_nil c rest)).cons (List.cons_ne_nil c rest) b
    | nil =>
      -- Only the last byte is touched, or one more is written after it.
      by_cases hroom : b < 0x80
      · have hlt : b.toNat < 0x80 := hroom
        have hmark := toNat_or_sign hroom
        rw [signed, if_pos hroom]
        refine ⟨?_, ?_, Or.inl rfl⟩
        · cases negative
          · rfl
          · simp [ofLittleEndian, hmark, room]
        · simpa [ofLittleEndian, room] using hlt
      · have hle : 0x80 ≤ b.toNat := Nat.le_of_not_lt hroom
        have hb := b.toNat_lt
        rw [signed, if_neg hroom]
        refine ⟨?_, ?_, Or.inr ⟨rfl, ?_⟩⟩
        · cases negative
          · rfl
          · rfl
        · simp [ofLittleEndian, room]
          omega
        · simpa [ofLittleEndian, room] using hle

theorem bytes_zero : bytes 0 = [] := by
  have hnone : magnitudeBytes 0 = [] := by rw [magnitudeBytes, if_pos rfl]
  rw [bytes, Int.natAbs_zero, hnone, signed]

theorem bytes_marks (hn : n ≠ 0) : Marks (n < 0) (magnitudeBytes n.natAbs) (bytes n) := by
  apply signed_marks
  rw [magnitudeBytes, if_neg (Int.natAbs_ne_zero.mpr hn)]
  exact List.cons_ne_nil _ _

/-- The widths that have room for a number are those from the written one on. -/
theorem natAbs_lt_room_iff (n : Int) (k : Nat) : n.natAbs < room k ↔ (bytes n).length ≤ k := by
  by_cases hn : n = 0
  · rw [hn, bytes_zero]
    exact iff_of_true (Nat.two_pow_pos _) (Nat.zero_le k)
  · obtain ⟨-, hfits, hwidth⟩ := bytes_marks hn
    rw [ofLittleEndian_magnitudeBytes] at hfits hwidth
    constructor
    · intro hlt
      -- With a byte less, the magnitude fills it, or its top bit is taken already.
      refine Nat.le_of_not_lt fun hshort => ?_
      have hmono := room_mono (Nat.le_sub_one_of_lt hshort)
      rcases hwidth with hsame | ⟨hmore, hfull⟩
      · have hleading := pow_length_magnitudeBytes (Int.natAbs_ne_zero.mpr hn)
        have hhalf := room_le ((bytes n).length - 1)
        have hpow : 256 ^ (bytes n).length = 256 * 256 ^ ((bytes n).length - 1) := by
          rw [← Nat.pow_succ', Nat.succ_eq_add_one, Nat.sub_add_cancel (by omega)]
        rw [← hsame] at hleading
        omega
      · rw [hmore, Nat.add_sub_cancel] at hmono
        omega
    · intro hle
      exact Nat.lt_of_lt_of_le hfits (room_mono hle)

theorem length_bytes_le (hlow : -2 ^ 63 ≤ n) (hhigh : n < 2 ^ 63) : (bytes n).length ≤ 9 := by
  have hroom : room 9 = 2 ^ 71 := rfl
  rw [← natAbs_lt_room_iff]
  omega

theorem denoted_bytes (n : Int) : denoted (bytes n) = n := by
  by_cases hn : n = 0
  · rw [hn, bytes_zero]
    rfl
  · obtain ⟨hvalue, hfits, -⟩ := bytes_marks hn
    rw [ofLittleEndian_magnitudeBytes] at hvalue hfits
    rw [denoted_eq, hvalue]
    by_cases hneg : n < 0
    · simp only [hneg, decide_true, ↓reduceIte]
      rw [if_neg (by omega)]
      omega
    · simp only [hneg, decide_false, Bool.false_eq_true, ↓reduceIte]
      rw [if_pos (by omega)]
      omega

theorem length_bytes_le_of_denoted (h : denoted bs = n) : (bytes n).length ≤ bs.length := by
  rw [← natAbs_lt_room_iff, ← h]
  exact natAbs_denoted_lt bs

theorem eq_bytes_of_denoted (h : denoted bs = n) (hlength : bs.length = (bytes n).length) :
    bs = bytes n := by
  by_cases hn : n = 0
  · rw [hn, bytes_zero] at hlength ⊢
    exact List.eq_nil_of_length_eq_zero hlength
  · exact eq_of_denoted_eq hlength (h.trans (denoted_bytes n).symm) (h ▸ hn)

/-- One byte is the shortest form of any number but zero. -/
theorem bytes_eq_singleton {b : UInt8} (h : denoted [b] = n) (hn : n ≠ 0) : bytes n = [b] := by
  have hle : (bytes n).length ≤ 1 := length_bytes_le_of_denoted h
  have hne : bytes n ≠ [] := by
    intro hnil
    rw [← denoted_bytes n, hnil] at hn
    exact hn rfl
  have hpos := List.length_pos_iff.mpr hne
  exact (eq_bytes_of_denoted h (Nat.le_antisymm hpos hle)).symm

theorem bytes_injective {m n : Int} (h : bytes m = bytes n) : m = n := by
  rw [← denoted_bytes m, h, denoted_bytes]

/-- A last byte without magnitude bits is a sign alone. -/
theorem natAbs_denoted_append_sign (front : List UInt8) {sign : UInt8}
    (hbare : sign = 0 ∨ sign = 0x80) :
    (denoted (front ++ [sign])).natAbs = ofLittleEndian front := by
  have hfront := ofLittleEndian_lt front
  have hroom : room (front ++ [sign]).length = 128 * 256 ^ front.length := by
    rw [List.length_append, List.length_singleton, room_succ]
  have hvalue : ofLittleEndian (front ++ [sign]) =
      ofLittleEndian front + 256 ^ front.length * sign.toNat := by
    rw [ofLittleEndian_append]
    simp [ofLittleEndian]
  rw [denoted_eq, hroom, hvalue]
  rcases hbare with rfl | rfl
  · have hzero : (0 : UInt8).toNat = 0 := rfl
    rw [hzero, if_pos (by omega)]
    omega
  · have htop : (0x80 : UInt8).toNat = 128 := rfl
    rw [htop, if_neg (by omega)]
    omega

/-- A byte for the sign alone is written because the byte before it has no room for the sign. -/
theorem top_bit_of_bare_sign {front : List UInt8} {sign : UInt8} (h : bytes n = front ++ [sign])
    (hbare : sign = 0 ∨ sign = 0x80) : ∃ b, front.getLast? = some b ∧ 0x80 ≤ b := by
  have hmagnitude := natAbs_denoted_append_sign front hbare
  rw [← h, denoted_bytes] at hmagnitude
  have htop : 0x80 ≤ front.getLastD 0 := by
    rw [le_getLastD_iff, ← hmagnitude, ← Nat.not_lt, natAbs_lt_room_iff, h, List.length_append,
      List.length_singleton]
    omega
  rw [List.getLastD_eq_getLast?] at htop
  cases hlast : front.getLast? with
  | none =>
    rw [hlast] at htop
    exact absurd htop (by decide)
  | some b =>
    rw [hlast] at htop
    exact ⟨b, rfl, htop⟩

/-- Reading gives back the number written. The bytes are as many as the least width with room for
the magnitude beside the sign, nine at most and none for zero alone; no fewer bytes denote the
number, and no others of that length. So different numbers have different bytes, and a last byte for
the sign alone stands only after a byte whose top bit is taken. -/
theorem script_number_is_only_shortest_form (n : Int) (hlow : -2 ^ 63 ≤ n) (hhigh : n < 2 ^ 63) :
    denoted (bytes n) = n ∧
    IsLeast {k : Nat | n.natAbs < 2 ^ (8 * k - 1)} (bytes n).length ∧
    (bytes n).length ≤ 9 ∧
    ((bytes n).length = 0 ↔ n = 0) ∧
    (∀ other : List UInt8, denoted other = n → (bytes n).length ≤ other.length) ∧
    (∀ other : List UInt8, denoted other = n → other.length = (bytes n).length →
      other = bytes n) ∧
    (∀ m : Int, bytes m = bytes n → m = n) ∧
    ∀ (front : List UInt8) (last : UInt8), bytes n = front ++ [last] → last = 0 ∨ last = 0x80 →
      ∃ b, front.getLast? = some b ∧ 0x80 ≤ b := by
  refine ⟨denoted_bytes n, ⟨?_, ?_⟩, length_bytes_le hlow hhigh, ?_,
    fun _ => length_bytes_le_of_denoted, fun _ => eq_bytes_of_denoted, fun _ => bytes_injective,
    fun _ _ => top_bit_of_bare_sign⟩
  · exact (natAbs_lt_room_iff n _).mpr (Nat.le_refl _)
  · intro k hk
    exact (natAbs_lt_room_iff n k).mp hk
  · rw [← Nat.le_zero, ← natAbs_lt_room_iff]
    have hroom : room 0 = 1 := rfl
    omega

/-- The least integer of eight bytes needs a ninth for its sign. -/
theorem script_number_is_only_shortest_form_at_least_integer :
    let n : Int := -2 ^ 63
    let other : List UInt8 := List.replicate 7 0 ++ [0x80, 0x80]
    bytes n = other ∧ denoted other = n ∧ -2 ^ 63 ≤ n ∧ n < 2 ^ 63 ∧
      IsLeast {k : Nat | n.natAbs < 2 ^ (8 * k - 1)} 9 := by
  intro n other
  have hdenoted : denoted other = n := by decide
  obtain ⟨-, hleast, hnine, -, -, hunique, -⟩ :=
    script_number_is_only_shortest_form n (by decide) (by decide)
  have hlength : (bytes n).length = 9 := by
    refine Nat.le_antisymm hnine (Nat.le_of_not_lt fun hlt => ?_)
    have hroom : n.natAbs < room 8 := (natAbs_lt_room_iff n 8).mpr (Nat.le_of_lt_succ hlt)
    exact absurd hroom (by decide)
  rw [hlength] at hleast
  exact ⟨(hunique other hdenoted hlength.symm).symm, hdenoted, by decide, by decide, hleast⟩

end PowConsensus.ScriptNumber
