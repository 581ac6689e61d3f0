import PowConsensus.Hash.Words

/-! # BLAKE-512

Sixteen rounds over a four by four matrix of 64-bit words; each round mixes the columns and then
the diagonals with message words in an order given by ten permutations. The count of message
bits enters every block.
-/
namespace PowConsensus.Blake512

abbrev Chain := Vector UInt64 8
abbrev Matrix := Vector UInt64 16

def initial : Chain :=
  #v[0x6a09e667f3bcc908, 0xbb67ae8584caa73b, 0x3c6ef372fe94f82b, 0xa54ff53a5f1d36f1,
     0x510e527fade682d1, 0x9b05688c2b3e6c1f, 0x1f83d9abfb41bd6b, 0x5be0cd19137e2179]

/-- The leading fractional digits of pi. -/
def constants : Matrix :=
  #v[0x243f6a8885a308d3, 0x13198a2e03707344, 0xa4093822299f31d0, 0x082efa98ec4e6c89,
     0x452821e638d01377, 0xbe5466cf34e90c6c, 0xc0ac29b7c97c50dd, 0x3f84d5b5b5470917,
     0x9216d5d98979fb1b, 0xd1310ba698dfb5ac, 0x2ffd72dbd01adfb7, 0xb8e1afed6a267e96,
     0xba7c9045f12c7f99, 0x24a19947b3916cf7, 0x0801f2e2858efc16, 0x636920d871574e69]

def orders : List (Vector (Fin 16) 16) :=
  [#v[0, 1, 2, 3, 4, 5, 6, 7, 8, 9, 10, 11, 12, 13, 14, 15],
   #v[14, 10, 4, 8, 9, 15, 13, 6, 1, 12, 0, 2, 11, 7, 5, 3],
   #v[11, 8, 12, 0, 5, 2, 15, 13, 10, 14, 3, 6, 7, 1, 9, 4],
   #v[7, 9, 3, 1, 13, 12, 11, 14, 2, 6, 5, 10, 4, 0, 15, 8],
   #v[9, 0, 5, 7, 2, 4, 10, 15, 14, 1, 11, 12, 6, 8, 3, 13],
   #v[2, 12, 6, 10, 0, 11, 8, 3, 4, 13, 7, 5, 15, 14, 1, 9],
   #v[12, 5, 1, 15, 14, 13, 4, 10, 0, 7, 6, 3, 9, 2, 8, 11],
   #v[13, 11, 7, 14, 12, 1, 3, 9, 5, 0, 15, 4, 8, 6, 2, 10],
   #v[6, 15, 14, 9, 11, 3, 0, 8, 12, 2, 13, 7, 1, 4, 10, 5],
   #v[10, 2, 8, 4, 7, 6, 1, 5, 15, 11, 9, 14, 3, 12, 13, 0]]

/-- The first six orders are used a second time. -/
def schedule : List (Vector (Fin 16) 16) := orders ++ orders.take 6

structure Quad where
  a : Fin 16
  b : Fin 16
  c : Fin 16
  d : Fin 16

/-- The four columns and then the four diagonals. -/
def quads : Vector Quad 8 :=
  #v[⟨0, 4, 8, 12⟩, ⟨1, 5, 9, 13⟩, ⟨2, 6, 10, 14⟩, ⟨3, 7, 11, 15⟩,
     ⟨0, 5, 10, 15⟩, ⟨1, 6, 11, 12⟩, ⟨2, 7, 8, 13⟩, ⟨3, 4, 9, 14⟩]

def rotateRight (x k : UInt64) : UInt64 := rotateLeft64 x (64 - k)

def mixQuad (q : Quad) (x y : UInt64) (v : Matrix) : Matrix :=
  let v := v.set q.a (v[q.a] + v[q.b] + x)
  let v := v.set q.d (rotateRight (v[q.d] ^^^ v[q.a]) 32)
  let v := v.set q.c (v[q.c] + v[q.d])
  let v := v.set q.b (rotateRight (v[q.b] ^^^ v[q.c]) 25)
  let v := v.set q.a (v[q.a] + v[q.b] + y)
  let v := v.set q.d (rotateRight (v[q.d] ^^^ v[q.a]) 16)
  let v := v.set q.c (v[q.c] + v[q.d])
  v.set q.b (rotateRight (v[q.b] ^^^ v[q.c]) 11)

def round (m : Matrix) (v : Matrix) (order : Vector (Fin 16) 16) : Matrix :=
  Fin.foldl 8 (fun v i =>
    let j := order[2 * i.val]
    let k := order[2 * i.val + 1]
    mixQuad quads[i] (m[j] ^^^ constants[k]) (m[k] ^^^ constants[j]) v) v

def compress (h : Chain) (block : List UInt8) (count : Nat) : Chain :=
  let low := UInt64.ofNat count
  let high := UInt64.ofNat (count / 2 ^ 64)
  let start : Matrix := Vector.ofFn fun i =>
    if hi : i.val < 8 then h[i.val]
    else constants[i.val - 8] ^^^
      (if i.val = 12 ∨ i.val = 13 then low else if i.val = 14 ∨ i.val = 15 then high else 0)
  let final := schedule.foldl (round (words64BE 16 block)) start
  Vector.ofFn fun i => h[i] ^^^ final[i.val] ^^^ final[i.val + 8]

/-- A one bit, zeros, a one bit before the length, and the length in bits. -/
def pad (message : List UInt8) : List UInt8 :=
  let filled := endMarked 128 16 message
  filled.dropLast ++ [filled.getLastD 0 ||| 1] ++ bigEndian 16 (8 * message.length)

def hash (message : List UInt8) : List UInt8 :=
  let chain := (groups 128 (pad message)).zipIdx.foldl
    (fun h b => compress h b.1 (bitsThrough 128 b.2 message.length)) initial
  bytes64BE chain.toList

end PowConsensus.Blake512
