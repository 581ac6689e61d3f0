import PowConsensus.Proofs.Target.Encoding
import PowConsensus.Retarget.Window

/-! # Targets as machine words

A target on a machine is an unsigned word of 256 bits. Compact bits are unpacked and packed by
masks and shifts of words, and the arithmetic on targets is that of the words. Every operation
here is the one on numbers, read through `toNat`.
-/
namespace PowConsensus.Machine

abbrev Word := BitVec 256

def size (c : CompactTarget) : Nat := (c.bits.toBitVec >>> 24).toNat

def mantissa (c : CompactTarget) : BitVec 32 := c.bits.toBitVec &&& 0x007fffff#32

def target (c : CompactTarget) : Word :=
  if size c ≤ 3 then (mantissa c >>> (8 * (3 - size c))).setWidth 256
  else (mantissa c).setWidth 256 <<< (8 * (size c - 3))

/-- The least count of bytes, at most `n`, that nothing of the word is above. -/
def bytesWithin (w : Word) : Nat → Nat
  | 0 => 0
  | n + 1 => if w >>> (8 * n) = 0 then bytesWithin w n else n + 1

def byteLength (w : Word) : Nat := bytesWithin w 32

def leading (w : Word) : BitVec 32 :=
  if byteLength w ≤ 3 then w.setWidth 32 <<< (8 * (3 - byteLength w))
  else (w >>> (8 * (byteLength w - 3))).setWidth 32

def pack (mantissa : BitVec 32) (size : Nat) : CompactTarget :=
  ⟨⟨mantissa ||| BitVec.ofNat 32 size <<< 24⟩⟩

def encode (w : Word) : CompactTarget :=
  if w = 0 then ⟨0⟩
  else if (leading w).getLsbD 23 then pack (leading w >>> 8) (byteLength w + 1)
  else pack (leading w) (byteLength w)

/-- Multipliers are 32-bit words. -/
def multiplier (x : Int) : Word := (BitVec.ofInt 32 x).setWidth 256

/-- Divisors are 64-bit words. -/
def divisor (x : Int) : Word := (BitVec.ofInt 64 x).setWidth 256

def limit (rules : RuleSet) : Word := BitVec.ofNat 256 rules.workLimit

def cap (rules : RuleSet) (w : Word) : CompactTarget :=
  if limit rules < w then encode (limit rules) else encode w

def scaled (rules : RuleSet) (w : Word) (elapsed expected : Int) : CompactTarget :=
  cap rules (w * multiplier elapsed / divisor expected)

section Unpacking
variable (c : CompactTarget)

theorem size_eq : size c = c.size := by
  rw [size, BitVec.toNat_ushiftRight, Nat.shiftRight_eq_div_pow]
  rfl

theorem toNat_mantissa : (mantissa c).toNat = c.mantissa := by
  rw [mantissa, BitVec.toNat_and]
  exact Nat.and_two_pow_sub_one_eq_mod _ 23

theorem toNat_setWidth_mantissa : ((mantissa c).setWidth 256).toNat = c.mantissa := by
  have hm := c.mantissa_lt
  rw [BitVec.toNat_setWidth, toNat_mantissa, Nat.mod_eq_of_lt (by omega)]

theorem pow_256 (n : Nat) : 2 ^ (8 * n) = 256 ^ n := by rw [Nat.pow_mul]

theorem toNat_target : (target c).toNat = c.target := by
  have hm := c.mantissa_lt
  show _ = c.decode.value
  simp only [target, CompactTarget.decode, size_eq]
  split
  · have := Nat.div_le_self c.mantissa (256 ^ (3 - c.size))
    rw [BitVec.toNat_setWidth, BitVec.toNat_ushiftRight, toNat_mantissa,
      Nat.shiftRight_eq_div_pow, pow_256, Nat.mod_eq_of_lt (by omega)]
  · rw [BitVec.toNat_shiftLeft, toNat_setWidth_mantissa, Nat.shiftLeft_eq, pow_256]

end Unpacking

section Packing
variable {w : Word} (h : w.toNat ≠ 0)
include h

theorem bytesWithin_eq {n : Nat} (hn : w.toNat < 256 ^ n) :
    bytesWithin w n = CompactTarget.byteLength w.toNat := by
  induction n with
  | zero => omega
  | succ n ih =>
    rw [bytesWithin]
    have hzero : w >>> (8 * n) = 0 ↔ w.toNat < 256 ^ n := by
      rw [← BitVec.toNat_inj, BitVec.toNat_ushiftRight, Nat.shiftRight_eq_div_pow, pow_256,
        BitVec.ofNat_eq_ofNat, BitVec.toNat_zero,
        Nat.div_eq_zero_iff_lt (Nat.pow_pos (by decide))]
    split
    next hw => exact ih (hzero.mp hw)
    next hw =>
      -- The word needs all the bytes: it is not below the next smaller power.
      have hle : CompactTarget.byteLength w.toNat ≤ n + 1 :=
        CompactTarget.byteLength_le_of_lt h hn
      have hbound := (CompactTarget.byteLength_bounds h).2
      have hlt : n < CompactTarget.byteLength w.toNat := by
        refine Nat.lt_of_not_le fun hshort => hw (hzero.mpr ?_)
        exact Nat.lt_of_lt_of_le hbound (Nat.pow_le_pow_right (by decide) hshort)
      omega

theorem byteLength_eq : byteLength w = CompactTarget.byteLength w.toNat :=
  bytesWithin_eq h w.isLt

theorem toNat_leading : (leading w).toNat = CompactTarget.leadingWord w.toNat := by
  have hlead := CompactTarget.leadingWord_lt h
  have hbound := (CompactTarget.byteLength_bounds h).2
  simp only [leading, byteLength_eq h]
  simp only [CompactTarget.leadingWord] at hlead ⊢
  split
  next hsize =>
    rw [if_pos hsize] at hlead
    have hw : w.toNat < 2 ^ 32 := by
      have := Nat.pow_le_pow_right (show 0 < 256 by decide) hsize
      omega
    rw [BitVec.toNat_shiftLeft, BitVec.toNat_setWidth, Nat.mod_eq_of_lt hw, Nat.shiftLeft_eq,
      pow_256, Nat.mod_eq_of_lt (by omega)]
  next hsize =>
    rw [if_neg hsize] at hlead
    rw [BitVec.toNat_setWidth, BitVec.toNat_ushiftRight, Nat.shiftRight_eq_div_pow, pow_256,
      Nat.mod_eq_of_lt (by omega)]

end Packing

theorem pack_eq {m : BitVec 32} {s n : Nat} (hm : m.toNat = n) (hn : n < 2 ^ 24) (hs : s < 2 ^ 8) :
    pack m s = ⟨UInt32.ofNat (n + s * 2 ^ 24)⟩ := by
  have hbits : m ||| BitVec.ofNat 32 s <<< 24 = BitVec.ofNat 32 (n + s * 2 ^ 24) := by
    apply BitVec.eq_of_toNat_eq
    have hor := Nat.shiftLeft_add_eq_or_of_lt hn s
    rw [BitVec.toNat_or, BitVec.toNat_shiftLeft, BitVec.toNat_ofNat, BitVec.toNat_ofNat, hm,
      Nat.mod_eq_of_lt (show s < 2 ^ 32 by omega), Nat.shiftLeft_eq,
      Nat.mod_eq_of_lt (show s * 2 ^ 24 < 2 ^ 32 by omega),
      Nat.mod_eq_of_lt (show n + s * 2 ^ 24 < 2 ^ 32 by omega), Nat.or_comm, ← Nat.shiftLeft_eq,
      ← hor, Nat.add_comm]
  rw [pack, hbits]
  rfl

theorem encode_eq (w : Word) : encode w = .encode w.toNat := by
  by_cases h : w.toNat = 0
  · have hw : w = 0 := BitVec.eq_of_toNat_eq h
    subst hw
    rfl
  have hw : w ≠ 0 := fun hw => h (by rw [hw]; rfl)
  have hlead := CompactTarget.leadingWord_lt h
  have hlength : CompactTarget.byteLength w.toNat ≤ 32 := CompactTarget.byteLength_le_of_lt h w.isLt
  have hsign : (leading w).getLsbD 23 = true ↔ ¬ CompactTarget.leadingWord w.toNat < 2 ^ 23 := by
    rw [BitVec.getLsbD, toNat_leading h, Nat.testBit_eq_decide_div_mod_eq, decide_eq_true_eq]
    omega
  simp only [encode, CompactTarget.encode, if_neg hw, if_neg h, byteLength_eq h]
  by_cases hlt : CompactTarget.leadingWord w.toNat < 2 ^ 23
  · rw [if_neg (fun hbit => hsign.mp hbit hlt), if_pos hlt]
    exact pack_eq (toNat_leading h) hlead (by omega)
  · rw [if_pos (hsign.mpr hlt), if_neg hlt]
    refine pack_eq ?_ (by omega) (by omega)
    rw [BitVec.toNat_ushiftRight, toNat_leading h, Nat.shiftRight_eq_div_pow]

theorem toNat_sub (v w : Word) : (v - w).toNat = wrapSub v.toNat w.toNat := by
  have hv := v.isLt
  have hw := w.isLt
  rw [BitVec.toNat_sub, wrapSub, wordModulus]
  split <;> omega

theorem toNat_multiplier (x : Int) : (multiplier x).toNat = (x % 2 ^ 32).toNat := by
  rw [multiplier, BitVec.toNat_setWidth, BitVec.toNat_ofInt]
  omega

theorem toNat_divisor {x : Int} (h0 : 0 ≤ x) (h : x < 2 ^ 64) : (divisor x).toNat = x.toNat := by
  rw [divisor, BitVec.toNat_setWidth, BitVec.toNat_ofInt]
  omega

section Limits
variable {rules : RuleSet} (hlimit : rules.workLimit < 2 ^ 256)
include hlimit

theorem toNat_limit : (limit rules).toNat = rules.workLimit := by
  rw [limit, BitVec.toNat_ofNat, Nat.mod_eq_of_lt hlimit]

theorem encode_limit : encode (limit rules) = rules.workLimitBits := by
  rw [encode_eq, toNat_limit hlimit]
  rfl

theorem cap_eq (w : Word) : cap rules w = rules.cap w.toNat := by
  simp only [cap, RuleSet.cap, BitVec.lt_def, toNat_limit hlimit, encode_eq]

theorem scaled_eq (w : Word) (elapsed : Int) {expected : Int} (h0 : 0 ≤ expected)
    (h : expected < 2 ^ 64) :
    scaled rules w elapsed expected = rules.scaled w.toNat elapsed expected := by
  rw [scaled, cap_eq hlimit, RuleSet.scaled, BitVec.toNat_udiv, BitVec.toNat_mul,
    toNat_multiplier, toNat_divisor h0 h]
  rfl

end Limits

end PowConsensus.Machine
