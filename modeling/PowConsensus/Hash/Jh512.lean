import PowConsensus.Hash.Words

/-! # JH-512

The state is 256 cells of four bits. A layer replaces each cell by one of two substitution
boxes, mixes neighbouring cells and permutes all of them; forty-two layers make a permutation.
The bits that choose the boxes come from the same layer over 64 cells, started from the
fractional part of the square root of two.
-/
namespace PowConsensus.Jh512

abbrev Cells := Array UInt8

def boxes : Vector (Vector UInt8 16) 2 :=
  #v[#v[9, 0, 4, 11, 13, 12, 3, 15, 1, 10, 2, 6, 7, 5, 8, 14],
     #v[3, 12, 6, 13, 5, 7, 1, 9, 15, 2, 0, 4, 11, 10, 14, 8]]

/-- Doubling in the field with sixteen elements, modulo `x^4 + x + 1`. -/
def double (x : UInt8) : UInt8 := (x <<< 1) ^^^ (if x ≥ 8 then 0x13 else 0)

/-- Where the cell that ends at position `i` comes from, with `half` cells on either side. -/
def source (half i : Nat) : Nat :=
  if i < half then 2 * i + i % 2
  else
    let j := (i - half) ^^^ 1
    2 * j + (j + 1) % 2

/-- One layer; `choice i` picks the box of cell `i`. -/
def layer (cells : Cells) (choice : Nat → Nat) : Cells :=
  let boxed : Cells := Array.ofFn fun i : Fin cells.size =>
    boxes[choice i.val % 2][cells[i].toNat % 16]
  let mixed : Cells := Array.ofFn fun i : Fin cells.size =>
    let a := boxed.getD (2 * (i.val / 2)) 0
    let b := boxed.getD (2 * (i.val / 2) + 1) 0
    let second := b ^^^ double a
    if i.val % 2 = 0 then a ^^^ double second else second
  Array.ofFn fun i : Fin cells.size => mixed.getD (source (cells.size / 2) i.val) 0

/-- Fractional part of the square root of two, 256 bits. -/
def root : Nat := 0x6a09e667f3bcc908b2fb1366ea957d3e3adec17512775099da2f590b0667322a

def firstConstant : Cells :=
  Array.ofFn fun i : Fin 64 => UInt8.ofNat (root / 16 ^ (63 - i.val) % 16)

def constants : List Cells :=
  (List.range 41).foldl (fun cs _ =>
    cs ++ [layer (cs.getLastD firstConstant) fun _ => 0]) [firstConstant]

def constantBit (c : Cells) (i : Nat) : Nat := ((c.getD (i / 4) 0).toNat >>> (3 - i % 4)) % 2

abbrev State := Array UInt8

def bit (s : State) (k : Nat) : UInt8 := ((s.getD (k / 8) 0) >>> UInt8.ofNat (7 - k % 8)) &&& 1

/-- Four bits, a quarter of the state apart, make a cell. -/
def grouped (s : State) : Cells := Array.ofFn fun i : Fin 256 =>
  let k := i.val / 2 + 128 * (i.val % 2)
  8 * bit s k + 4 * bit s (k + 256) + 2 * bit s (k + 512) + bit s (k + 768)

def ungrouped (c : Cells) : State := Array.ofFn fun i : Fin 128 =>
  (List.range 8).foldl (fun byte t =>
    let k := 8 * i.val + t
    let place := k % 256
    let cell := c.getD (2 * (place % 128) + place / 128) 0
    2 * byte + ((cell >>> UInt8.ofNat (3 - k / 256)) &&& 1)) 0

def permute (s : State) : State :=
  ungrouped (constants.foldl (fun c r => layer c (constantBit r)) (grouped s))

/-- The block enters the first half before the permutation and the second half after it. -/
def compress (s : State) (block : List UInt8) : State :=
  let m := block.toArray
  let t := permute (Array.ofFn fun i : Fin 128 => s.getD i 0 ^^^ m.getD i 0)
  Array.ofFn fun i : Fin 128 =>
    t.getD i 0 ^^^ (if i.val < 64 then 0 else m.getD (i.val - 64) 0)

def initial : State := compress #[2] []

def pad (message : List UInt8) : List UInt8 :=
  message ++ 0x80 :: List.replicate (47 + (64 - message.length % 64) % 64) 0
    ++ bigEndian 16 (8 * message.length)

def hash (message : List UInt8) : List UInt8 :=
  ((groups 64 (pad message)).foldl compress initial).toList.drop 64

end PowConsensus.Jh512
