import PowConsensus.Hash.Words

/-! # Luffa-512

Five lanes of eight 32-bit words take a 32-byte block through a linear message injection over a
ring, and then each lane passes its own permutation of eight steps. Two blank rounds give the
two halves of the output.
-/
namespace PowConsensus.Luffa512

abbrev Lane := Vector UInt32 8
abbrev State := Vector Lane 5

def initial : State :=
  #v[#v[0x6d251e69, 0x44b051e0, 0x4eaa6fb4, 0xdbf78465,
        0x6e292011, 0x90152df4, 0xee058139, 0xdef610bb],
     #v[0xc3b44b95, 0xd9d2f256, 0x70eee9a0, 0xde099fa3,
        0x5d9b0557, 0x8fc944b3, 0xcf1ccf0e, 0x746cd581],
     #v[0xf7efc89d, 0x5dba5781, 0x04016ce5, 0xad659c05,
        0x0306194f, 0x666d1836, 0x24aa230a, 0x8b264ae7],
     #v[0x858075d5, 0x36d79cce, 0xe571f7d7, 0x204b1f67,
        0x35870c6a, 0x57e9e923, 0x14bcb808, 0x7cde72ce],
     #v[0x6c68e9be, 0x5ec41e22, 0xc825b7c7, 0xaffb4363,
        0xf5df3999, 0x0fc688f1, 0xb07224cc, 0x03e86cea]]

/-- What each step of a lane's permutation adds to its words 0 and 4. -/
def stepConstants : Vector (List (UInt32 × UInt32)) 5 :=
  #v[[(0x303994a6, 0xe0337818), (0xc0e65299, 0x441ba90d), (0x6cc33a12, 0x7f34d442),
      (0xdc56983e, 0x9389217f), (0x1e00108f, 0xe5a8bce6), (0x7800423d, 0x5274baf4),
      (0x8f5b7882, 0x26889ba7), (0x96e1db12, 0x9a226e9d)],
     [(0xb6de10ed, 0x01685f3d), (0x70f47aae, 0x05a17cf4), (0x0707a3d4, 0xbd09caca),
      (0x1c1e8f51, 0xf4272b28), (0x707a3d45, 0x144ae5cc), (0xaeb28562, 0xfaa7ae2b),
      (0xbaca1589, 0x2e48f1c1), (0x40a46f3e, 0xb923c704)],
     [(0xfc20d9d2, 0xe25e72c1), (0x34552e25, 0xe623bb72), (0x7ad8818f, 0x5c58a4a4),
      (0x8438764a, 0x1e38e2e7), (0xbb6de032, 0x78e38b9d), (0xedb780c8, 0x27586719),
      (0xd9847356, 0x36eda57f), (0xa2c78434, 0x703aace7)],
     [(0xb213afa5, 0xe028c9bf), (0xc84ebe95, 0x44756f91), (0x4e608a22, 0x7e8fce32),
      (0x56d858fe, 0x956548be), (0x343b138f, 0xfe191be2), (0xd0ec4e3d, 0x3cb226e5),
      (0x2ceb4882, 0x5944a28e), (0xb3ad2208, 0xa1c4c355)],
     [(0xf0d2e9e3, 0x5090d577), (0xac11d7fa, 0x2d1925ab), (0x1bcb66f2, 0xb46496ac),
      (0x6f2d9bc9, 0xd1925ab0), (0x78602649, 0x29131ab6), (0x8edae952, 0x0fc053c3),
      (0x3b6ba548, 0x3f014f0c), (0xedae9520, 0xfc053c31)]]

def Lane.xor (a b : Lane) : Lane := Vector.zipWith (· ^^^ ·) a b

/-- Doubling in the ring of lanes. -/
def Lane.double (v : Lane) : Lane :=
  let t := nth v 7
  #v[t, nth v 0 ^^^ t, nth v 1, nth v 2 ^^^ t, nth v 3 ^^^ t, nth v 4, nth v 5, nth v 6]

def State.total (s : State) : Lane := s.toList.foldl Lane.xor (Vector.replicate 8 0)

/-- Every lane doubled, plus its neighbour `k` places on. -/
def State.mixWith (s : State) (k : Nat) : State :=
  Vector.ofFn fun i => (s.get i).double.xor (nth s (i.val + k))

def Lane.doubled (v : Lane) (times : Nat) : Lane := times.fold (fun _ _ v => v.double) v

def inject (s : State) (message : Lane) : State :=
  let shared := s.total.double
  let widened : State := s.map (Lane.xor · shared)
  let ring := (widened.mixWith 1).mixWith 4
  Vector.ofFn fun i => (ring.get i).xor (message.doubled i.val)

structure Column where
  a : UInt32
  b : UInt32
  c : UInt32
  d : UInt32

/-- The four-bit substitution box, on thirty-two columns at once. -/
def substitute (x : Column) : Column :=
  let a := x.a ||| x.b
  let c := x.c ^^^ x.d
  let b := ~~~ x.b
  let a := a ^^^ x.d
  let d := x.d &&& x.a
  let b := b ^^^ d
  let d := d ^^^ c
  let c := c &&& a
  let a := ~~~ a
  let c := c ^^^ b
  let b := b ||| d
  let last := x.a ^^^ b
  let d := d ^^^ c
  let c := c &&& b
  ⟨last, b ^^^ a, c, d⟩

def mixPair (u v : UInt32) : UInt32 × UInt32 :=
  let v := v ^^^ u
  let u := rotateLeft32 u 2 ^^^ v
  let v := rotateLeft32 v 14 ^^^ u
  let u := rotateLeft32 u 10 ^^^ v
  (u, rotateLeft32 v 1)

def step (v : Lane) (constant : UInt32 × UInt32) : Lane :=
  let x := substitute ⟨nth v 0, nth v 1, nth v 2, nth v 3⟩
  let y := substitute ⟨nth v 5, nth v 6, nth v 7, nth v 4⟩
  let p₀ := mixPair x.a y.d
  let p₁ := mixPair x.b y.a
  let p₂ := mixPair x.c y.b
  let p₃ := mixPair x.d y.c
  #v[p₀.1 ^^^ constant.1, p₁.1, p₂.1, p₃.1, p₀.2 ^^^ constant.2, p₁.2, p₂.2, p₃.2]

/-- The upper half of lane `i` is turned by `i` bits before its permutation. -/
def permute (s : State) : State :=
  Vector.ofFn fun i =>
    let lane := s.get i
    let tweaked : Lane := Vector.ofFn fun k =>
      if k.val < 4 then lane.get k else rotateLeft32 (lane.get k) (UInt32.ofNat i.val)
    (stepConstants.get i).foldl step tweaked

def round (s : State) (message : Lane) : State := permute (inject s message)

def hash (message : List UInt8) : List UInt8 :=
  let absorbed := (groups 32 (endMarked 32 0 message)).foldl
    (fun s b => round s (words32BE 8 b)) initial
  let blank : Lane := Vector.replicate 8 0
  let first := round absorbed blank
  let second := round first blank
  bytes32BE (first.total.toList ++ second.total.toList)

end PowConsensus.Luffa512
