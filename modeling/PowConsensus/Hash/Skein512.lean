import PowConsensus.Hash.Words

/-! # Skein-512 with a 512-bit output

A tweakable block cipher of 72 rounds, `encrypt`, is chained over a configuration block, the
message and an output block. The tweak holds the position, the kind of block and two flags for
the first and the last block of a chain.
-/
namespace PowConsensus.Skein512

abbrev Words := Vector UInt64 8

def parity : UInt64 := 0x1bd11bdaa9fc1a22

def rotations : Vector (Vector UInt64 4) 8 :=
  #v[#v[46, 36, 19, 37], #v[33, 27, 14, 42], #v[17, 49, 36, 39], #v[44, 9, 54, 56],
     #v[39, 30, 34, 24], #v[13, 50, 10, 17], #v[25, 29, 39, 43], #v[8, 35, 56, 22]]

def order : Words → Words
  | v => #v[nth v 2, nth v 1, nth v 4, nth v 7, nth v 6, nth v 5, nth v 0, nth v 3]

structure Tweak where
  position : UInt64
  flags : UInt64

def extendedKey (key : Words) : Vector UInt64 9 := key.push (key.toList.foldl (· ^^^ ·) parity)

/-- Adds the subkey numbered `s`. -/
def addKey (key : Vector UInt64 9) (t : Tweak) (s : Nat) (v : Words) : Words :=
  let tweak : Vector UInt64 3 := #v[t.position, t.flags, t.position ^^^ t.flags]
  Vector.ofFn fun i =>
    let extra := match i.val with
      | 5 => nth tweak s
      | 6 => nth tweak (s + 1)
      | 7 => UInt64.ofNat s
      | _ => 0
    v.get i + nth key (s + i.val) + extra

def mixRound (v : Words) (r : Nat) : Words :=
  let mixed : Words := Vector.ofFn fun i =>
    let a := nth v (2 * (i.val / 2))
    let b := nth v (2 * (i.val / 2) + 1)
    if i.val % 2 = 0 then a + b else rotateLeft64 b (nth (nth rotations r) (i.val / 2)) ^^^ (a + b)
  order mixed

def encrypt (key : Words) (t : Tweak) (plain : Words) : Words :=
  let extended := extendedKey key
  let v := (List.range 18).foldl (fun v s =>
    [0, 1, 2, 3].foldl (fun v j => mixRound v (4 * s + j)) (addKey extended t s v)) plain
  addKey extended t 18 v

inductive Kind where
  | configuration
  | message
  | output

def Kind.code : Kind → Nat
  | .configuration => 4
  | .message => 48
  | .output => 63

/-- Chains the cipher over the blocks of `data`; no data counts as one empty block. -/
def chain (start : Words) (data : List UInt8) (kind : Kind) : Words :=
  let blocks := if data = [] then [[]] else groups 64 data
  blocks.zipIdx.foldl (fun key b =>
    let isFirst := if b.2 = 0 then 2 ^ 62 else 0
    let isLast := if b.2 + 1 = blocks.length then 2 ^ 63 else 0
    let plain := words64LE 8 b.1
    let tweak := ⟨UInt64.ofNat (64 * b.2 + b.1.length),
      UInt64.ofNat (kind.code * 2 ^ 56 + isFirst + isLast)⟩
    Vector.zipWith (· ^^^ ·) (encrypt key tweak plain) plain) start

/-- Schema identifier, version 1, an output of 512 bits and no tree hashing. -/
def configuration : List UInt8 :=
  [0x53, 0x48, 0x41, 0x33, 1, 0, 0, 0] ++ littleEndian 8 512 ++ List.replicate 16 0

def hash (message : List UInt8) : List UInt8 :=
  let configured := chain (Vector.replicate 8 0) configuration .configuration
  let absorbed := chain configured message .message
  bytes64LE (chain absorbed (List.replicate 8 0) .output).toList

end PowConsensus.Skein512
