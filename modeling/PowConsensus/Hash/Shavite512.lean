import PowConsensus.Hash.Aes

/-! # SHAvite-512

A Feistel network of fourteen rounds on four AES blocks. Every half-round runs four AES rounds
under keys that a block of the message is expanded to; the bit count enters the expansion at
four places.
-/
namespace PowConsensus.Shavite512

abbrev Quad := Vector UInt32 4
abbrev Chain := Vector Quad 4

def initial : Chain :=
  #v[#v[0x72fccdd8, 0x79ca4727, 0x128a077b, 0x40d55aec],
        #v[0xd1901a06, 0x430ae307, 0xb29f5cd1, 0xdf07fbfc],
     #v[0x8e45d73d, 0x681ab538, 0xbde86578, 0xdd577e47],
        #v[0xe275eade, 0x502d9fcd, 0xb9357178, 0x022a4b9a]]

def Quad.xor (a b : Quad) : Quad := Vector.zipWith (· ^^^ ·) a b

/-- An AES round with the zero key. -/
def cipherRound (x : Quad) : Quad :=
  words32LE 4 (Aes.round (Aes.blockOf (bytes32LE x.toList)) (Vector.replicate 16 0)).toList

/-- Four words of the expanded key, counted from the end: `back keys k` ends `k` words before. -/
def back (keys : Array UInt32) (k : Nat) : Quad :=
  Vector.ofFn fun i => keys.getD (keys.size - k + i.val) 0

/-- The bit count as it enters the expansion at a given length of the key. -/
def counter (count : Nat) (size : Nat) : Quad :=
  let word (i : Nat) := UInt32.ofNat (count / 2 ^ (32 * i))
  if size = 32 then #v[word 0, word 1, word 2, ~~~ word 3]
  else if size = 164 then #v[word 3, word 2, word 1, ~~~ word 0]
  else if size = 316 then #v[word 2, word 3, word 0, ~~~ word 1]
  else if size = 440 then #v[word 1, word 0, word 3, ~~~ word 2]
  else Vector.replicate 4 0

def extendNonlinear (count : Nat) (keys : Array UInt32) : Array UInt32 :=
  let old := back keys 32
  let turned := cipherRound #v[old[1], old[2], old[3], old[0]]
  keys ++ ((turned.xor (back keys 4)).xor (counter count keys.size)).toArray

def extendLinear (keys : Array UInt32) : Array UInt32 :=
  keys ++ ((back keys 32).xor (back keys 7)).toArray

def expand (count : Nat) (block : List UInt8) : Array UInt32 :=
  let nonlinear := (8).fold (fun _ _ k => extendNonlinear count k)
  let linear := (8).fold (fun _ _ k => extendLinear k)
  nonlinear ((6).fold (fun _ _ k => linear (nonlinear k)) (words32LE 32 block).toArray)

/-- Four AES rounds, each after adding the next four words of the key. -/
def half (keys : Array UInt32) (start : Nat) (x : Quad) : Quad :=
  (List.range 4).foldl (fun x j =>
    cipherRound (x.xor (Vector.ofFn fun i => keys.getD (start + 4 * j + i.val) 0))) x

def round (keys : Array UInt32) (p : Chain) (r : Nat) : Chain :=
  let a := p[0].xor (half keys (32 * r) p[1])
  let c := p[2].xor (half keys (32 * r + 16) p[3])
  #v[p[3], a, p[1], c]

def compress (h : Chain) (block : List UInt8) (count : Nat) : Chain :=
  let keys := expand count block
  Vector.zipWith Quad.xor h ((List.range 14).foldl (round keys) h)

def hash (message : List UInt8) : List UInt8 :=
  let padded :=
    endMarked 128 18 message ++ littleEndian 16 (8 * message.length) ++ littleEndian 2 512
  let chain := (groups 128 padded).zipIdx.foldl
    (fun h b => compress h b.1 (bitsThrough 128 b.2 message.length)) initial
  bytes32LE (chain.toList.flatMap (·.toList))

end PowConsensus.Shavite512
