import PowConsensus.Checked

/-! # Computations at fault by overflow only

What is to be shown of a checked computation is when it overflows, what it gives when it does not,
and that it is at no other fault. These three go together through every step of it: one step is at
fault under its own condition, and a sequence of steps where one of them is.
-/
namespace PowConsensus.Checked
variable {α β : Type}

/-- An overflow under this condition, and otherwise this value. -/
structure Settles (x : Checked α) (overflows : Prop) (a : α) : Prop where
  fault : overflows → x = .error .overflow
  value : ¬ overflows → x = .ok a

namespace Settles
variable {x : Checked α} {f : α → Checked β} {p q : Prop} {a : α} {b : β}

theorem of_eq (h : x = .ok a) : Settles x False a := ⟨False.elim, fun _ => h⟩

theorem congr (hx : Settles x p a) (h : p ↔ q) : Settles x q a :=
  ⟨fun hq => hx.fault (h.mpr hq), fun hq => hx.value fun hp => hq (h.mp hp)⟩

/-- The first fault ends a computation, so that what follows needs only be shown of its value. -/
theorem bind (hx : Settles x p a) (hf : ¬ p → Settles (f a) q b) : Settles (x >>= f) (p ∨ q) b := by
  by_cases hp : p
  · rw [hx.fault hp, error_bind]
    exact ⟨fun _ => rfl, fun h => absurd (Or.inl hp) h⟩
  · rw [hx.value hp, ok_bind]
    exact (hf hp).congr (or_iff_right hp).symm

theorem bind_ok (hx : Settles x p a) (hf : f a = .ok b) : Settles (x >>= f) p b :=
  (hx.bind fun _ => .of_eq hf).congr (iff_of_eq (or_false p))

/-- A number that is not negative can only be too large. -/
theorem word {n : Int} (h : 0 ≤ n) : Settles (word n) (2 ^ 63 ≤ n) n where
  fault := word_overflow
  value hlt := word_eq ⟨by omega, by omega⟩

theorem quotient {m n : Int} (h : n ≠ 0) :
    Settles (quotient m n) (¬ IsWord (m.tdiv n)) (m.tdiv n) where
  fault hword := (if_neg h).trans (if_neg hword)
  value hword := (if_neg h).trans (word_eq (Decidable.not_not.mp hword))

theorem ne_zeroDivisor (hx : Settles x p a) : x ≠ .error .zeroDivisor := by
  by_cases hp : p
  · rw [hx.fault hp]
    exact fun h => nomatch h
  · rw [hx.value hp]
    exact fun h => nomatch h

end Settles
end PowConsensus.Checked
