import PowConsensus.Hash.Words

/-! # The AES round

Bytes are elements of the field with 256 elements in the polynomial basis of
`x^8 + x^4 + x^3 + x + 1`. The substitution box inverts a byte and applies an affine map; a round
substitutes, shifts rows, mixes columns and adds a key.
-/
namespace PowConsensus.Aes

def double (x : UInt8) : UInt8 := (x <<< 1) ^^^ (if x ≥ 0x80 then 0x1b else 0)

/-- Product in the field, from the bits of `a`, low bit first. -/
def product (a b : UInt8) : UInt8 :=
  ((List.range 8).foldl (fun (r : UInt8 × UInt8) i =>
    (if a.toNat.testBit i then r.1 ^^^ r.2 else r.1, double r.2)) (0, b)).1

def square (x : UInt8) : UInt8 := product x x

/-- The 254th power, which is the inverse of a nonzero byte. -/
def inverse (x : UInt8) : UInt8 :=
  (List.range 6).foldl (fun r _ => product (square r) x) x |> square

def affine (x : UInt8) : UInt8 :=
  let turn (k : UInt8) := (x <<< k) ||| (x >>> (8 - k))
  x ^^^ turn 1 ^^^ turn 2 ^^^ turn 3 ^^^ turn 4 ^^^ 0x63

def table : Vector UInt8 256 := Vector.ofFn fun i => affine (inverse (UInt8.ofNat i.val))

def substitute (x : UInt8) : UInt8 := table.get x.toFin

/-- Entry of a column times the circulant matrix with first row 2, 3, 1, 1. -/
def mixed (a b c d : UInt8) : UInt8 := double a ^^^ double b ^^^ b ^^^ c ^^^ d

/-- Four columns of four bytes, one column after the other. -/
abbrev Block := Vector UInt8 16

def round (s key : Block) : Block :=
  let t := s.map substitute
  Vector.ofFn fun i =>
    let column := i.val / 4
    let row := i.val % 4
    let shifted (j : Nat) := t[4 * ((column + j % 4) % 4) + j % 4]
    mixed (shifted row) (shifted (row + 1)) (shifted (row + 2)) (shifted (row + 3)) ^^^ key[i]

def blockOf (bytes : List UInt8) : Block := vectorOf 16 bytes

end PowConsensus.Aes
