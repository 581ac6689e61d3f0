import PowConsensus.Hash.Sha256

/-! # scrypt with block size 1 and parallelism 1

`key` stretches a password and salt with PBKDF2 over HMAC-SHA-256, passes the 128-byte result
through a memory-hard walk of `cost` steps, and stretches again. The walk first fills a table
with successive states and then visits the table in an order read from the state.
-/
namespace PowConsensus.Scrypt

def hmac (key message : List UInt8) : List UInt8 :=
  let short := if key.length > 64 then Sha256.hash key else key
  let block := short ++ List.replicate (64 - short.length) 0
  Sha256.hash (block.map (· ^^^ 0x5c) ++ Sha256.hash (block.map (· ^^^ 0x36) ++ message))

/-- PBKDF2 with one iteration, giving `blocks` groups of 32 bytes. -/
def stretch (password salt : List UInt8) (blocks : Nat) : List UInt8 :=
  (List.range blocks).flatMap fun i => hmac password (salt ++ bigEndian 4 (i + 1))

abbrev Half := Vector UInt32 16
structure State where
  left : Half
  right : Half

def State.xor (a b : State) : State :=
  ⟨Vector.zipWith (· ^^^ ·) a.left b.left, Vector.zipWith (· ^^^ ·) a.right b.right⟩

def quarter (x : Half) (a b c d : Nat) : Half :=
  let x := x.setIfInBounds b (nth x b ^^^ rotateLeft32 (nth x a + nth x d) 7)
  let x := x.setIfInBounds c (nth x c ^^^ rotateLeft32 (nth x b + nth x a) 9)
  let x := x.setIfInBounds d (nth x d ^^^ rotateLeft32 (nth x c + nth x b) 13)
  x.setIfInBounds a (nth x a ^^^ rotateLeft32 (nth x d + nth x c) 18)

/-- One column round and one row round of Salsa20. -/
def doubleRound (x : Half) : Half :=
  let x := quarter x 0 4 8 12
  let x := quarter x 5 9 13 1
  let x := quarter x 10 14 2 6
  let x := quarter x 15 3 7 11
  let x := quarter x 0 1 2 3
  let x := quarter x 5 6 7 4
  let x := quarter x 10 11 8 9
  quarter x 15 12 13 14

def salsa8 (x : Half) : Half :=
  Vector.zipWith (· + ·) x (doubleRound (doubleRound (doubleRound (doubleRound x))))

def mix (s : State) : State :=
  let left := salsa8 (Vector.zipWith (· ^^^ ·) s.right s.left)
  ⟨left, salsa8 (Vector.zipWith (· ^^^ ·) left s.right)⟩

def fill (cost : Nat) (s : State) : Array State × State :=
  cost.fold (fun _ _ r => (r.1.push r.2, mix r.2)) (Array.emptyWithCapacity cost, s)

def visit (table : Array State) (s : State) : State :=
  mix (s.xor (table.getD ((nth s.right 0).toNat % table.size) s))

def walk (cost : Nat) (s : State) : State :=
  let filled := fill cost s
  cost.fold (fun _ _ r => visit filled.1 r) filled.2

def key (cost : Nat) (password salt : List UInt8) : List UInt8 :=
  let start := stretch password salt 4
  let walked := walk cost ⟨words32LE 16 (start.take 64), words32LE 16 (start.drop 64)⟩
  stretch password (bytes32LE (walked.left.toList ++ walked.right.toList)) 1

@[simp] theorem length_hmac (k m : List UInt8) : (hmac k m).length = 32 := by simp [hmac]

@[simp] theorem length_key (cost : Nat) (password salt : List UInt8) :
    (key cost password salt).length = 32 := by
  simp [key, stretch]

end PowConsensus.Scrypt
