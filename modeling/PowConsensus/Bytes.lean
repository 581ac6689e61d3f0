import PowConsensus.Power

/-! # Fixed-width numerals as bytes

A number is written in a fixed count of bytes, low byte first (`littleEndian`) or high byte
first (`bigEndian`), and read back by `ofLittleEndian` and `ofBigEndian`. Writing keeps the
number modulo `256 ^ width`; `ofLittleEndian_littleEndian` says so.
-/
namespace PowConsensus

/-- The `width` low bytes of `n`, least significant first. -/
def littleEndian : Nat → Nat → List UInt8
  | 0, _ => []
  | width + 1, n => UInt8.ofNat (n % 256) :: littleEndian width (n / 256)

/-- The number whose base-256 digits are the bytes, least significant first. -/
def ofLittleEndian : List UInt8 → Nat
  | [] => 0
  | b :: bs => b.toNat + 256 * ofLittleEndian bs

def bigEndian (width n : Nat) : List UInt8 := (littleEndian width n).reverse

def ofBigEndian (bytes : List UInt8) : Nat := ofLittleEndian bytes.reverse

@[simp] theorem length_littleEndian (width n : Nat) : (littleEndian width n).length = width := by
  induction width generalizing n with
  | zero => rfl
  | succ width ih => simp [littleEndian, ih]

@[simp] theorem length_bigEndian (width n : Nat) : (bigEndian width n).length = width := by
  simp [bigEndian]

theorem ofLittleEndian_littleEndian (width n : Nat) :
    ofLittleEndian (littleEndian width n) = n % 256 ^ width := by
  induction width generalizing n with
  | zero => simp [littleEndian, ofLittleEndian, Nat.mod_one]
  | succ width ih =>
    have hb : (UInt8.ofNat (n % 256)).toNat = n % 256 := by
      rw [UInt8.toNat_ofNat']; exact Nat.mod_mod n 256
    rw [littleEndian, ofLittleEndian, ih, hb, Nat.pow_succ, Nat.mul_comm (256 ^ width), Nat.mod_mul]

theorem ofLittleEndian_append (front back : List UInt8) :
    ofLittleEndian (front ++ back) =
      ofLittleEndian front + 256 ^ front.length * ofLittleEndian back := by
  induction front with
  | nil => simp [ofLittleEndian]
  | cons b front ih =>
    rw [List.cons_append, ofLittleEndian, ih, ofLittleEndian, List.length_cons, Nat.pow_succ',
      Nat.mul_add, Nat.mul_assoc, Nat.add_assoc]

theorem ofLittleEndian_lt (bytes : List UInt8) : ofLittleEndian bytes < 256 ^ bytes.length := by
  induction bytes with
  | nil => simp [ofLittleEndian]
  | cons b bs ih =>
    have hb : b.toNat < 256 := b.toNat_lt
    simp only [ofLittleEndian, List.length_cons, Nat.pow_succ]
    omega

theorem littleEndian_ofLittleEndian (bytes : List UInt8) :
    littleEndian bytes.length (ofLittleEndian bytes) = bytes := by
  induction bytes with
  | nil => rfl
  | cons b bs ih =>
    have hb : b.toNat < 256 := b.toNat_lt
    have hlow : (b.toNat + 256 * ofLittleEndian bs) % 256 = b.toNat := by omega
    have hhigh : (b.toNat + 256 * ofLittleEndian bs) / 256 = ofLittleEndian bs := by omega
    rw [List.length_cons, ofLittleEndian, littleEndian, hlow, hhigh, ih, UInt8.ofNat_toNat]

/-- Consecutive groups of `size` elements; the last one may be shorter. -/
def groups (size : Nat) (xs : List α) : List (List α) :=
  if size = 0 ∨ xs = [] then []
  else xs.take size :: groups size (xs.drop size)
termination_by xs.length
decreasing_by
  rename_i h
  have hx : xs.length ≠ 0 := fun h0 => h (.inr (List.length_eq_zero_iff.mp h0))
  simp only [List.length_drop]
  omega

/-- The message, a one bit, and zeros up to `reserve` bytes short of a whole number of blocks. -/
def endMarked (size reserve : Nat) (message : List UInt8) : List UInt8 :=
  message ++ 0x80 :: List.replicate ((size - (message.length + 1 + reserve) % size) % size) 0

def xorBytes (a b : List UInt8) : List UInt8 := List.zipWith (· ^^^ ·) a b

end PowConsensus
