import PowConsensus.Hash.Aes

/-! # ECHO-512

AES one level up: the state is a four by four matrix of AES blocks, and each of ten rounds
substitutes a block by two AES rounds, shifts rows of blocks and mixes columns of blocks byte by
byte. The first of the two keys counts the blocks that were substituted.
-/
namespace PowConsensus.Echo512

open Aes (Block)

/-- Column after column, as for the bytes of an AES block. -/
abbrev Matrix := Vector Block 16

def numbered (n : Nat) : Block := Aes.blockOf (littleEndian 16 n)

def substitute (counter : Nat) (w : Matrix) : Matrix :=
  Vector.ofFn fun i => Aes.round (Aes.round (w.get i) (numbered (counter + i.val))) (numbered 0)

def shiftRows (w : Matrix) : Matrix :=
  Vector.ofFn fun i => nth w (4 * ((i.val / 4 + i.val % 4) % 4) + i.val % 4)

def mixColumns (w : Matrix) : Matrix :=
  Vector.ofFn fun i =>
    let entry (k : Nat) := nth w (4 * (i.val / 4) + (i.val + k) % 4)
    Vector.ofFn fun b =>
      Aes.mixed ((entry 0).get b) ((entry 1).get b) ((entry 2).get b) ((entry 3).get b)

def round (counter : Nat) (w : Matrix) (r : Nat) : Matrix :=
  mixColumns (shiftRows (substitute (counter + 16 * r) w))

abbrev Chain := Vector Block 8

def initial : Chain := Vector.replicate 8 (numbered 512)

def Block.xor (a b : Block) : Block := Vector.zipWith (· ^^^ ·) a b

def compress (v : Chain) (block : List UInt8) (count : Nat) : Chain :=
  let bytes := block.toArray
  let m : Chain := Vector.ofFn fun i => Vector.ofFn fun k => bytes.getD (16 * i.val + k.val) 0
  let w : Matrix := (List.range 10).foldl (round count) (v ++ m)
  Vector.ofFn fun i =>
    Block.xor (Block.xor (v.get i) (m.get i)) (Block.xor (nth w i.val) (nth w (i.val + 8)))

def hash (message : List UInt8) : List UInt8 :=
  let padded :=
    endMarked 128 18 message ++ littleEndian 2 512 ++ littleEndian 16 (8 * message.length)
  let chain := (groups 128 padded).zipIdx.foldl
    (fun v b => compress v b.1 (bitsThrough 128 b.2 message.length)) initial
  (chain.toList.flatMap (·.toList)).take 64

theorem length_flatMap_toList (v : Vector Block n) :
    (v.toList.flatMap (·.toList)).length = 16 * n := by
  have h (bs : List Block) : (bs.flatMap (·.toList)).length = 16 * bs.length := by
    induction bs with
    | nil => rfl
    | cons b bs ih => simp [ih]; omega
  simp [h]

@[simp] theorem length_hash (message : List UInt8) : (hash message).length = 64 := by
  rw [hash, List.length_take, length_flatMap_toList]; rfl

end PowConsensus.Echo512
