import PowConsensus.Hash.Words

/-! # SIMD-512

A block is expanded by a number-theoretic transform modulo 257, and the transformed values, scaled
to sixteen-bit halves, are the words of thirty-two steps on eight parallel lanes. Four more steps
take the old chain as their words. The last block holds the message length and is transformed with
another offset.
-/
namespace PowConsensus.Simd512

abbrev Lanes := Vector UInt32 8

structure State where
  a : Lanes
  b : Lanes
  c : Lanes
  d : Lanes

def initial : State where
  a := #v[0x0ba16b95, 0x72f999ad, 0x9fecc2ae, 0xba3264fc,
          0x5e894929, 0x8e9f30e5, 0x2f1daa37, 0xf0f2c558]
  b := #v[0xac506643, 0xa90635a5, 0xe25b878b, 0xaab7878f,
          0x88817f7a, 0x0a02892b, 0x559a7550, 0x598f657e]
  c := #v[0x7eef60a1, 0x6b70e3e8, 0x9c1714d1, 0xb958e2a8,
          0xab02675e, 0xed1c014f, 0xcd8d65bb, 0xfdb7a257]
  d := #v[0x09254899, 0xd699c7bc, 0x9019b6dc, 0x2b9022e4,
          0x8fa14956, 0x21bf9bd3, 0xb94d0943, 0x6ffddc22]

/-- Powers of 41, which has order 256 modulo 257. -/
def powers : Array Nat := (Array.range 256).map fun i => (41 ^ i) % 257

/-- The transform of 128 bytes followed by 128 places that are zero but for one mark, or two in the
last block; the values are representatives between -128 and 128. -/
def transform (block : List UInt8) (isLast : Bool) : Array Int :=
  let marks := if isLast then [253, 255] else [255]
  let terms := (block.map (·.toNat)).zipIdx ++ marks.map fun j => (1, j)
  (Array.range 256).map fun i =>
    let y : Nat := terms.foldl (fun y t => y + t.1 * powers.getD (i * t.2 % 256) 0) 0 % 257
    if y ≤ 128 then (y : Int) else (y : Int) - 257

/-- Which sixteen values of the transform each step reads. -/
def sources : Vector Nat 32 :=
  #v[4, 6, 0, 2, 7, 5, 3, 1, 15, 11, 12, 8, 9, 13, 10, 14,
     1, 2, 7, 4, 6, 5, 0, 3, 6, 0, 1, 7, 3, 5, 4, 2]

/-- Two values scaled and packed into the halves of a word. -/
def pack (low high scale : Int) : UInt32 :=
  UInt32.ofNat ((low * scale % 65536).toNat + 65536 * (high * scale % 65536).toNat)

def stepWords (q : Array Int) (k : Fin 32) : Lanes :=
  Vector.ofFn fun j =>
    let start := 16 * sources.get k + 2 * j.val
    if k.val < 16 then pack (q.getD start 0) (q.getD (start + 1) 0) 185
    else if k.val < 24 then pack (q.getD start 0) (q.getD (start + 128) 0) 233
    else pack (q.getD (start + 1) 0) (q.getD (start + 129) 0) 233

def choice (x y z : UInt32) : UInt32 := ((y ^^^ z) &&& x) ^^^ z
def majority (x y z : UInt32) : UInt32 := (x &&& y) ||| ((x ||| y) &&& z)

/-- Lane `j` takes in lane `j xor k`, with `k` from this cycle. -/
def partners : Vector Nat 7 := #v[1, 6, 2, 3, 5, 7, 4]

def step (s : State) (words : Lanes) (f : UInt32 → UInt32 → UInt32 → UInt32)
    (turnA turnSum : UInt32) (number : Nat) : State :=
  let turned := s.a.map (rotateLeft32 · turnA)
  let next : Lanes := Vector.ofFn fun j =>
    rotateLeft32 (s.d.get j + words.get j + f (s.a.get j) (s.b.get j) (s.c.get j)) turnSum
      + nth turned (j.val ^^^ nth partners number)
  ⟨next, turned, s.b, s.c⟩

/-- The turns of the four rounds of eight steps. -/
def turns : Vector (Vector UInt32 4) 4 :=
  #v[#v[3, 23, 17, 27], #v[28, 19, 22, 7], #v[29, 9, 15, 5], #v[4, 13, 10, 25]]

def blockStep (q : Array Int) (s : State) (k : Fin 32) : State :=
  let round := nth turns (k.val / 8)
  step s (stepWords q k) (if k.val % 8 < 4 then choice else majority)
    (nth round k.val) (nth round (k.val + 1)) k.val

def State.xorBlock (s : State) (block : List UInt8) : State :=
  let part (i : Nat) (v : Lanes) : Lanes :=
    Vector.zipWith (· ^^^ ·) v (words32LE 8 (block.drop (32 * i)))
  ⟨part 0 s.a, part 1 s.b, part 2 s.c, part 3 s.d⟩

def compress (s : State) (block : List UInt8) (isLast : Bool) : State :=
  let q := transform block isLast
  let t := (List.finRange 32).foldl (blockStep q) (s.xorBlock block)
  let t := step t s.a choice 4 13 32
  let t := step t s.b choice 13 10 33
  let t := step t s.c choice 10 25 34
  step t s.d choice 25 4 35

def hash (message : List UInt8) : List UInt8 :=
  let filled := (groups 128 message).map fun b => b ++ List.replicate (128 - b.length) 0
  let absorbed := filled.foldl (fun s b => compress s b false) initial
  let s := compress absorbed (littleEndian 128 (8 * message.length)) true
  bytes32LE (s.a.toList ++ s.b.toList)

end PowConsensus.Simd512
