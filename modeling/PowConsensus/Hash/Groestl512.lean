import PowConsensus.Hash.Aes

/-! # Grøstl-512

The state is a byte matrix of eight rows and sixteen columns, stored column after column. Two
permutations of fourteen rounds differ in the constants they add and in how far each row turns.
-/
namespace PowConsensus.Groestl512

open Aes (substitute product)

abbrev Matrix := Vector UInt8 128

inductive Variant where
  | p
  | q

def Variant.turns : Variant → Vector Nat 8
  | .p => #v[0, 1, 2, 3, 4, 5, 6, 11]
  | .q => #v[1, 3, 5, 11, 0, 2, 4, 6]

def Variant.constant (v : Variant) (round row column : Nat) : UInt8 :=
  let mark := UInt8.ofNat (16 * column) ^^^ UInt8.ofNat round
  match v with
  | .p => if row = 0 then mark else 0
  | .q => if row = 7 then 0xff ^^^ mark else 0xff

/-- First row of the circulant matrix that mixes a column. -/
def weights : Vector UInt8 8 := #v[2, 2, 3, 4, 5, 3, 5, 7]

def round (v : Variant) (s : Matrix) (r : Nat) : Matrix :=
  let boxed : Matrix := Vector.ofFn fun i =>
    substitute (s[i] ^^^ v.constant r (i.val % 8) (i.val / 8))
  let turned : Matrix := Vector.ofFn fun i =>
    boxed[8 * ((i.val / 8 + v.turns[i.val % 8]) % 16) + i.val % 8]
  Vector.ofFn fun i => (List.range 8).foldl (fun x k =>
    x ^^^ product turned[8 * (i.val / 8) + (i.val + k) % 8] weights[k % 8]) 0

def permute (v : Variant) (s : Matrix) : Matrix := (List.range 14).foldl (round v) s

def Matrix.xor (a b : Matrix) : Matrix := Vector.zipWith (· ^^^ ·) a b

def compress (h : Matrix) (block : List UInt8) : Matrix :=
  let m : Matrix := vectorOf 128 block
  ((permute .p (h.xor m)).xor (permute .q m)).xor h

def initial : Matrix := vectorOf 128 (bigEndian 128 512)

def hash (message : List UInt8) : List UInt8 :=
  let marked := endMarked 128 8 message
  let blocks := groups 128 (marked ++ bigEndian 8 ((marked.length + 8) / 128))
  let h := blocks.foldl compress initial
  ((permute .p h).xor h).toList.drop 64

end PowConsensus.Groestl512
