import PowConsensus.Hash.Words

/-! # Keccak-512

A sponge over twenty-five 64-bit lanes, of which nine take a block of the message; the padding
is a one bit, zeros and a one bit. Lane `(x, y)` has index `x + 5 * y`.
-/
namespace PowConsensus.Keccak512

abbrev Lanes := Vector UInt64 25

def roundConstants : List UInt64 :=
  [0x0000000000000001, 0x0000000000008082, 0x800000000000808a, 0x8000000080008000,
   0x000000000000808b, 0x0000000080000001, 0x8000000080008081, 0x8000000000008009,
   0x000000000000008a, 0x0000000000000088, 0x0000000080008009, 0x000000008000000a,
   0x000000008000808b, 0x800000000000008b, 0x8000000000008089, 0x8000000000008003,
   0x8000000000008002, 0x8000000000000080, 0x000000000000800a, 0x800000008000000a,
   0x8000000080008081, 0x8000000000008080, 0x0000000080000001, 0x8000000080008008]

/-- How far each lane turns. -/
def turns : Vector UInt64 25 :=
  #v[0, 1, 62, 28, 27, 36, 44, 6, 55, 20, 3, 10, 43, 25, 39, 41, 45, 15, 21, 8, 18, 2, 61, 56, 14]

def lane (s : Lanes) (x y : Nat) : UInt64 := s[x % 5 + 5 * (y % 5)]

def spread (s : Lanes) : Lanes :=
  let column (x : Nat) := (List.range 5).foldl (fun c y => c ^^^ lane s x y) 0
  let parity : Vector UInt64 5 := Vector.ofFn fun x => column x.val
  Vector.ofFn fun i =>
    s[i] ^^^ parity[(i.val + 4) % 5] ^^^ rotateLeft64 parity[(i.val + 1) % 5] 1

/-- Turns every lane and moves `(x, y)` to `(y, 2x + 3y)`. -/
def scatter (s : Lanes) : Lanes :=
  let turned := Vector.zipWith rotateLeft64 s turns
  Vector.ofFn fun i =>
    let x := i.val % 5
    let y := i.val / 5
    lane turned (x + 3 * y) x

def combine (s : Lanes) : Lanes :=
  Vector.ofFn fun i =>
    let x := i.val % 5
    let y := i.val / 5
    s[i] ^^^ (~~~ lane s (x + 1) y &&& lane s (x + 2) y)

def round (s : Lanes) (constant : UInt64) : Lanes :=
  let t := combine (scatter (spread s))
  t.set 0 (t[0] ^^^ constant)

def absorb (s : Lanes) (block : List UInt8) : Lanes :=
  let m := words64LE 9 block
  roundConstants.foldl round
    (Vector.ofFn fun i => if h : i.val < 9 then s[i] ^^^ m[i.val] else s[i])

def pad (message : List UInt8) : List UInt8 :=
  let room := 72 - message.length % 72
  if room = 1 then message ++ [0x81]
  else message ++ 0x01 :: (List.replicate (room - 2) 0 ++ [0x80])

def hash (message : List UInt8) : List UInt8 :=
  let s := (groups 72 (pad message)).foldl absorb (Vector.replicate 25 0)
  bytes64LE (s.toList.take 8)

end PowConsensus.Keccak512
