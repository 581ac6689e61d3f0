import PowConsensus.Transaction.Basic

/-! # Forms that end by themselves

A written form is delimited if no bytes after it can be taken for a part of it. Forms of one width
are delimited, and so is whatever a reader gives back together with the rest; so are forms in a row,
and lists that are written after their length.
-/
namespace PowConsensus

/-- Where texts begin with the forms of two values and are equal, the values are, and so are the
rests of the texts. -/
def Delimited {α : Type} (valid : α → Prop) (write : α → List UInt8) : Prop :=
  ∀ ⦃a b : α⦄, valid a → valid b → ∀ ⦃rest rest' : List UInt8⦄,
    write a ++ rest = write b ++ rest' → a = b ∧ rest = rest'

theorem littleEndian_inj {width m n : Nat} (hm : m < 256 ^ width) (hn : n < 256 ^ width)
    (h : littleEndian width m = littleEndian width n) : m = n := by
  have hread := congrArg ofLittleEndian h
  rwa [ofLittleEndian_littleEndian, ofLittleEndian_littleEndian, Nat.mod_eq_of_lt hm,
    Nat.mod_eq_of_lt hn] at hread

namespace Delimited
variable {α β : Type} {valid : α → Prop} {write : α → List UInt8}

theorem of_reader {read : List UInt8 → Option (α × List UInt8)}
    (h : ∀ a, valid a → ∀ rest, read (write a ++ rest) = some (a, rest)) :
    Delimited valid write := by
  intro a b ha hb rest rest' heq
  have hread := h a ha rest
  rw [heq, h b hb rest'] at hread
  cases hread
  exact ⟨rfl, rfl⟩

theorem of_width {width : Nat} (hwidth : ∀ a, (write a).length = width)
    (hinj : ∀ a b, write a = write b → a = b) : Delimited (fun _ => True) write := by
  intro a b _ _ rest rest' heq
  have hlength : (write a).length = (write b).length := by rw [hwidth, hwidth]
  obtain ⟨hwrite, hrest⟩ := List.append_inj heq hlength
  exact ⟨hinj a b hwrite, hrest⟩

theorem injective (h : Delimited valid write) {a b : α} (ha : valid a) (hb : valid b)
    (heq : write a = write b) : a = b :=
  (h ha hb (congrArg (· ++ []) heq)).1

/-- As many values, written in a row. -/
theorem flatMap (h : Delimited valid write) {xs ys : List α} (hlength : xs.length = ys.length)
    (hxs : ∀ x ∈ xs, valid x) (hys : ∀ y ∈ ys, valid y) {rest rest' : List UInt8}
    (heq : xs.flatMap write ++ rest = ys.flatMap write ++ rest') : xs = ys ∧ rest = rest' := by
  induction xs generalizing ys with
  | nil =>
    obtain rfl := List.eq_nil_of_length_eq_zero hlength.symm
    exact ⟨rfl, heq⟩
  | cons x xs ih =>
    cases ys with
    | nil => exact absurd hlength (Nat.succ_ne_zero _)
    | cons y ys =>
      obtain ⟨hx, hxs'⟩ := List.forall_mem_cons.mp hxs
      obtain ⟨hy, hys'⟩ := List.forall_mem_cons.mp hys
      simp only [List.flatMap_cons, List.append_assoc] at heq
      obtain ⟨rfl, htail⟩ := h hx hy heq
      obtain ⟨rfl, hrest⟩ := ih (Nat.succ.inj hlength) hxs' hys' htail
      exact ⟨rfl, hrest⟩

end Delimited

/-- A count fits the widest form of a compact size. -/
abbrev Countable (n : Nat) : Prop := n < 2 ^ 64

theorem compactSize_delimited : Delimited Countable compactSize :=
  .of_reader fun _ => readCompactSize?_append

/-- A list after its length. -/
theorem Delimited.counted {α : Type} {valid : α → Prop} {write : α → List UInt8}
    (h : Delimited valid write) :
    Delimited (fun xs : List α => Countable xs.length ∧ ∀ x ∈ xs, valid x)
      (fun xs => compactSize xs.length ++ xs.flatMap write) := by
  rintro xs ys ⟨hxs, hvalid⟩ ⟨hys, hvalid'⟩ rest rest' heq
  simp only [List.append_assoc] at heq
  obtain ⟨hlength, helements⟩ := compactSize_delimited hxs hys heq
  exact h.flatMap hlength hvalid hvalid' helements

theorem word32_delimited : Delimited (fun _ => True) fun x : UInt32 => littleEndian 4 x.toNat :=
  .of_width (fun _ => length_littleEndian _ _) fun a b h =>
    UInt32.toNat_inj.mp (littleEndian_inj a.toNat_lt b.toNat_lt h)

theorem word64_delimited : Delimited (fun _ => True) fun x : UInt64 => littleEndian 8 x.toNat :=
  .of_width (fun _ => length_littleEndian _ _) fun a b h =>
    UInt64.toNat_inj.mp (littleEndian_inj a.toNat_lt b.toNat_lt h)

theorem digest_delimited : Delimited (fun _ => True) Digest.bytes :=
  .of_width Digest.length_bytes fun _ _ => Digest.ext

end PowConsensus
