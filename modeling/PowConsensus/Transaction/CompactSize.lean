import PowConsensus.Bytes

/-! # Compact sizes

Counts are written in one, three, five or nine bytes: a number below 253 as itself, a larger one as
a marker and two, four or eight bytes, low byte first.
-/
namespace PowConsensus

def compactSize (n : Nat) : List UInt8 :=
  if n < 0xfd then [UInt8.ofNat n]
  else if n < 2 ^ 16 then 0xfd :: littleEndian 2 n
  else if n < 2 ^ 32 then 0xfe :: littleEndian 4 n
  else 0xff :: littleEndian 8 n

/-- How many bytes follow a first byte. -/
def compactSizeTail (first : UInt8) : Nat :=
  if first = 0xfd then 2 else if first = 0xfe then 4 else if first = 0xff then 8 else 0

/-- Reads one size and gives the bytes after it. -/
def readCompactSize? : List UInt8 → Option (Nat × List UInt8)
  | [] => none
  | first :: rest =>
    let width := compactSizeTail first
    if width = 0 then some (first.toNat, rest)
    else if rest.length < width then none
    else some (ofLittleEndian (rest.take width), rest.drop width)

theorem readCompactSize?_append {n : Nat} (h : n < 2 ^ 64) (rest : List UInt8) :
    readCompactSize? (compactSize n ++ rest) = some (n, rest) := by
  unfold compactSize
  split
  · have hn : (UInt8.ofNat n).toNat = n := by rw [UInt8.toNat_ofNat']; omega
    have ne {k : Nat} (hk : 0xfd ≤ k) (hk' : k < 256) : UInt8.ofNat n ≠ UInt8.ofNat k := by
      intro he
      have := congrArg UInt8.toNat he
      rw [hn, UInt8.toNat_ofNat'] at this
      omega
    have h₁ : UInt8.ofNat n ≠ 0xfd := ne (k := 0xfd) (by omega) (by omega)
    have h₂ : UInt8.ofNat n ≠ 0xfe := ne (k := 0xfe) (by omega) (by omega)
    have h₃ : UInt8.ofNat n ≠ 0xff := ne (k := 0xff) (by omega) (by omega)
    simp [readCompactSize?, compactSizeTail, h₁, h₂, h₃, hn]
  · split
    · simp [readCompactSize?, compactSizeTail, ofLittleEndian_littleEndian]
      omega
    · split
      · simp [readCompactSize?, compactSizeTail, ofLittleEndian_littleEndian]
        omega
      · simp [readCompactSize?, compactSizeTail, ofLittleEndian_littleEndian]
        omega

end PowConsensus
