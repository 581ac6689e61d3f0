import PowConsensus.Hash.Words

/-! # Blue Midnight Wish, 512 bits

A block and the chained words give sixteen words, these are expanded to thirty-two, and the
result is folded back into sixteen. A last compression takes the chained words as its message
and a constant as its chain.
-/
namespace PowConsensus.Bmw512

abbrev Words := Vector UInt64 16

def initial : Words := words64BE 16 ((List.range 128).map fun i => UInt8.ofNat (128 + i))
def lastChain : Words := Vector.ofFn fun i => 0xaaaaaaaaaaaaaaa0 + UInt64.ofNat i.val

def scatter (x right left turn₁ turn₂ : UInt64) : UInt64 :=
  (x >>> right) ^^^ (x <<< left) ^^^ rotateLeft64 x turn₁ ^^^ rotateLeft64 x turn₂

def scatter₀ (x : UInt64) : UInt64 := scatter x 1 3 4 37
def scatter₁ (x : UInt64) : UInt64 := scatter x 1 2 13 43
def scatter₂ (x : UInt64) : UInt64 := scatter x 2 1 19 53
def scatter₃ (x : UInt64) : UInt64 := scatter x 2 2 28 59
def scatter₄ (x : UInt64) : UInt64 := (x >>> 1) ^^^ x
def scatter₅ (x : UInt64) : UInt64 := (x >>> 2) ^^^ x

/-- Signed sums of five words: the indices to add and the indices to take away. -/
def sums : Vector (List Nat × List Nat) 16 :=
  #v[([5, 10, 13, 14], [7]), ([6, 11, 14], [8, 15]), ([0, 7, 9, 15], [12]), ([0, 8, 13], [1, 10]),
     ([1, 2, 9], [11, 14]), ([3, 10, 15], [2, 12]), ([4, 13], [0, 3, 11]), ([1], [4, 5, 12, 14]),
     ([2, 13], [5, 6, 15]), ([0, 6, 14], [3, 7]), ([8, 15], [1, 4, 7]), ([8, 9], [0, 2, 5]),
     ([1, 3, 10], [6, 9]), ([2, 4, 7, 10, 11], []), ([3, 8], [5, 11, 12]), ([12, 13], [4, 6, 9])]

def total (xs : List UInt64) : UInt64 := xs.foldl (· + ·) 0

def first (h m : Words) : Words :=
  let x := Vector.zipWith (· ^^^ ·) m h
  Vector.ofFn fun i =>
    let w := total ((sums.get i).1.map (nth x)) - total ((sums.get i).2.map (nth x))
    let s := match i.val % 5 with
      | 0 => scatter₀ w
      | 1 => scatter₁ w
      | 2 => scatter₂ w
      | 3 => scatter₃ w
      | _ => scatter₄ w
    s + nth h (i.val + 1)

/-- What block and chain add to the expanded word `16 + i`. -/
def added (h m : Words) (i : Nat) : UInt64 :=
  let turned (j : Nat) := rotateLeft64 (nth m j) (UInt64.ofNat (j % 16 + 1))
  (turned i + turned (i + 3) - turned (i + 10) + UInt64.ofNat (16 + i) * 0x0555555555555555)
    ^^^ nth h (i + 7)

/-- The next expanded word from the last sixteen, oldest first. -/
def expand (q : Words) (i : Nat) : UInt64 :=
  if i < 2 then
    total ((List.finRange 16).map fun k => match k.val % 4 with
      | 0 => scatter₁ (q.get k)
      | 1 => scatter₂ (q.get k)
      | 2 => scatter₃ (q.get k)
      | _ => scatter₀ (q.get k))
  else
    let word := nth q
    total [word 0, rotateLeft64 (word 1) 5, word 2, rotateLeft64 (word 3) 11, word 4,
      rotateLeft64 (word 5) 27, word 6, rotateLeft64 (word 7) 32, word 8, rotateLeft64 (word 9) 37,
      word 10, rotateLeft64 (word 11) 43, word 12, rotateLeft64 (word 13) 53, scatter₄ (word 14),
      scatter₅ (word 15)]

def advance (h m q : Words) (i : Nat) : Words :=
  let next := expand q i + added h m i
  Vector.ofFn fun k => if k.val + 1 < 16 then nth q (k.val + 1) else next

/-- Shift amounts of the fold's first eight words, to the left if positive: of the combined
word, and of the expanded word. -/
def shifts : Vector (Int × Int) 8 :=
  #v[(5, -5), (-7, 8), (-5, 5), (-1, 5), (-3, 0), (6, -6), (-4, 6), (-11, 2)]

/-- Shift amounts of the low combined word in the fold's last eight words. -/
def lowShifts : Vector Int 8 := #v[8, -6, 6, 4, -3, -4, -7, -2]

def shift (x : UInt64) (k : Int) : UInt64 :=
  if k < 0 then x >>> UInt64.ofNat k.natAbs else x <<< UInt64.ofNat k.natAbs

def fold (m q r : Words) : Words :=
  let low := (List.finRange 8).foldl (fun x i => x ^^^ nth r i.val) 0
  let high := (List.finRange 8).foldl (fun x i => x ^^^ nth r (i.val + 8)) low
  let head : Vector UInt64 8 := Vector.ofFn fun i =>
    (shift high (shifts.get i).1 ^^^ shift (nth r i.val) (shifts.get i).2 ^^^ nth m i.val)
      + (low ^^^ nth r (i.val + 8) ^^^ nth q i.val)
  let tail : Vector UInt64 8 := Vector.ofFn fun i =>
    rotateLeft64 (nth head (i.val + 4)) (UInt64.ofNat (i.val + 9))
      + (high ^^^ nth r (i.val + 8) ^^^ nth m (i.val + 8))
      + (shift low (lowShifts.get i) ^^^ nth r ((i.val + 7) % 8) ^^^ nth q (i.val + 8))
  head ++ tail

def compress (h m : Words) : Words :=
  let q := first h m
  fold m q ((List.range 16).foldl (advance h m) q)

def hash (message : List UInt8) : List UInt8 :=
  let padded := endMarked 128 8 message ++ littleEndian 8 (8 * message.length)
  let chain := (groups 128 padded).foldl (fun h b => compress h (words64LE 16 b)) initial
  bytes64LE ((compress lastChain chain).toList.drop 8)

end PowConsensus.Bmw512
