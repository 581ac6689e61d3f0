import PowConsensus.Hash.Words

/-! # SHA-256

A message is padded to 64-byte blocks, each block updates eight chained words, and the words
are the digest. The round function reads the message schedule through a window of sixteen
words that moves on by one word a round.
-/
namespace PowConsensus.Sha256

abbrev State := Vector UInt32 8
abbrev Window := Vector UInt32 16

def initial : State :=
  #v[0x6a09e667, 0xbb67ae85, 0x3c6ef372, 0xa54ff53a, 0x510e527f, 0x9b05688c, 0x1f83d9ab, 0x5be0cd19]

def roundConstants : List UInt32 :=
  [0x428a2f98, 0x71374491, 0xb5c0fbcf, 0xe9b5dba5, 0x3956c25b, 0x59f111f1, 0x923f82a4, 0xab1c5ed5,
   0xd807aa98, 0x12835b01, 0x243185be, 0x550c7dc3, 0x72be5d74, 0x80deb1fe, 0x9bdc06a7, 0xc19bf174,
   0xe49b69c1, 0xefbe4786, 0x0fc19dc6, 0x240ca1cc, 0x2de92c6f, 0x4a7484aa, 0x5cb0a9dc, 0x76f988da,
   0x983e5152, 0xa831c66d, 0xb00327c8, 0xbf597fc7, 0xc6e00bf3, 0xd5a79147, 0x06ca6351, 0x14292967,
   0x27b70a85, 0x2e1b2138, 0x4d2c6dfc, 0x53380d13, 0x650a7354, 0x766a0abb, 0x81c2c92e, 0x92722c85,
   0xa2bfe8a1, 0xa81a664b, 0xc24b8b70, 0xc76c51a3, 0xd192e819, 0xd6990624, 0xf40e3585, 0x106aa070,
   0x19a4c116, 0x1e376c08, 0x2748774c, 0x34b0bcb5, 0x391c0cb3, 0x4ed8aa4a, 0x5b9cca4f, 0x682e6ff3,
   0x748f82ee, 0x78a5636f, 0x84c87814, 0x8cc70208, 0x90befffa, 0xa4506ceb, 0xbef9a3f7, 0xc67178f2]

def rotateRight (x k : UInt32) : UInt32 := rotateLeft32 x (32 - k)

/-- Drops the oldest word of the schedule and appends the next one. -/
def advance (w : Window) : Window :=
  let old := nth w 1
  let recent := nth w 14
  let low := rotateRight old 7 ^^^ rotateRight old 18 ^^^ (old >>> 3)
  let high := rotateRight recent 17 ^^^ rotateRight recent 19 ^^^ (recent >>> 10)
  let next := nth w 0 + low + nth w 9 + high
  Vector.ofFn fun i => if i.val + 1 < 16 then nth w (i.val + 1) else next

def round (s : State) (word constant : UInt32) : State :=
  let a := nth s 0
  let e := nth s 4
  let choice := (e &&& nth s 5) ^^^ (~~~ e &&& nth s 6)
  let majority := (a &&& nth s 1) ^^^ (a &&& nth s 2) ^^^ (nth s 1 &&& nth s 2)
  let mixE := rotateRight e 6 ^^^ rotateRight e 11 ^^^ rotateRight e 25
  let mixA := rotateRight a 2 ^^^ rotateRight a 13 ^^^ rotateRight a 22
  let t := nth s 7 + mixE + choice + constant + word
  #v[t + mixA + majority, a, nth s 1, nth s 2, nth s 3 + t, e, nth s 5, nth s 6]

def compress (s : State) (block : List UInt8) : State :=
  let run := roundConstants.foldl
    (fun (r : State × Window) k => (round r.1 (nth r.2 0) k, advance r.2)) (s, words32BE 16 block)
  Vector.zipWith (· + ·) s run.1

def pad (message : List UInt8) : List UInt8 :=
  endMarked 64 8 message ++ bigEndian 8 (8 * message.length)

def hash (message : List UInt8) : List UInt8 :=
  bytes32BE ((groups 64 (pad message)).foldl compress initial).toList

@[simp] theorem length_hash (message : List UInt8) : (hash message).length = 32 := by
  simp [hash]

end PowConsensus.Sha256
