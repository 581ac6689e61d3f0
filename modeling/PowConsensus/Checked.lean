import PowConsensus.Power

/-! # Checked arithmetic

Seconds and counts of blocks are signed 64-bit numbers. A checked operation gives the exact result,
or a fault where the result is no such number, a divisor is zero or a range is empty. The first
fault ends a computation.
-/
namespace PowConsensus

inductive ArithmeticFault where
  | overflow
  | zeroDivisor
  /-- The lower bound of a range is above the upper one. -/
  | emptyRange
  deriving DecidableEq, Repr

abbrev Checked := Except ArithmeticFault

namespace Checked

/-- Within the signed 64-bit numbers. -/
def IsWord (x : Int) : Prop := -2 ^ 63 ≤ x ∧ x < 2 ^ 63

instance (x : Int) : Decidable (IsWord x) := inferInstanceAs (Decidable (_ ∧ _))

def word (x : Int) : Checked Int := if IsWord x then .ok x else .error .overflow

def sum (a b : Int) : Checked Int := word (a + b)

def difference (a b : Int) : Checked Int := word (a - b)

def product (a b : Int) : Checked Int := word (a * b)

def quotient (a b : Int) : Checked Int :=
  if b = 0 then .error .zeroDivisor else word (a.tdiv b)

/-- There is a remainder exactly where there is a quotient. -/
def remainder (a b : Int) : Checked Int := do
  let _ ← quotient a b
  return a.tmod b

theorem ok_bind {α β : Type} (a : α) (f : α → Checked β) : (Except.ok a >>= f) = f a := rfl

theorem error_bind {α β : Type} (fault : ArithmeticFault) (f : α → Checked β) :
    (Except.error fault >>= f) = .error fault := rfl

section Results
variable {a b : Int}

theorem word_eq (h : IsWord a) : word a = .ok a := if_pos h

theorem IsWord.tdiv (h : IsWord a) (hb : 0 < b) : IsWord (a.tdiv b) := by
  obtain ⟨hlow, hhigh⟩ := h
  have hle := Int.natAbs_tdiv_le_natAbs a b
  -- the negative of the least number is within the bound but is no word, and its sign excludes it
  have hsign : a ≤ 0 → a.tdiv b ≤ 0 := fun ha => by simpa using Int.tdiv_le_tdiv hb ha
  exact ⟨by omega, by omega⟩

theorem quotient_of_pos (hb : 0 < b) (h : IsWord a) : quotient a b = .ok (a.tdiv b) := by
  rw [quotient, if_neg (Int.ne_of_gt hb), word_eq (h.tdiv hb)]

theorem remainder_of_pos (hb : 0 < b) (h : IsWord a) : remainder a b = .ok (a.tmod b) := by
  rw [remainder, quotient_of_pos hb h]
  rfl

theorem isWord_toNat (n : UInt32) : IsWord n.toNat := by
  have hlt := n.toNat_lt
  exact ⟨by omega, by omega⟩

/-- Seconds between two times. -/
theorem difference_toNat (m n : UInt32) :
    difference m.toNat n.toNat = .ok ((m.toNat : Int) - n.toNat) := by
  have hm := m.toNat_lt
  have hn := n.toNat_lt
  exact word_eq ⟨by omega, by omega⟩

theorem word_overflow (h : 2 ^ 63 ≤ a) : word a = .error .overflow :=
  if_neg fun hword => Int.not_lt.mpr h hword.2

end Results

end Checked
end PowConsensus
