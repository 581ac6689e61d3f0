import PowConsensus.Bytes

/-! # Machine words of a message block

The hash functions work on blocks cut into 32-bit or 64-bit words. Words are read from and
written to bytes here, low byte first or high byte first, and rotated to the left.
-/
namespace PowConsensus

def rotateLeft32 (x k : UInt32) : UInt32 := (x <<< k) ||| (x >>> (32 - k))
def rotateLeft64 (x k : UInt64) : UInt64 := (x <<< k) ||| (x >>> (64 - k))

/-- The first `n` elements, with zero beyond the end of the list. -/
def vectorOf [OfNat α 0] (n : Nat) (xs : List α) : Vector α n :=
  let elements := xs.toArray
  Vector.ofFn fun i => elements.getD i 0

/-- The element at an index that is counted round past the end. -/
@[inline] def nth (v : Vector α (n + 1)) (i : Nat) : α :=
  v.get ⟨i % (n + 1), Nat.mod_lt i n.succ_pos⟩

def words32LE (n : Nat) (block : List UInt8) : Vector UInt32 n :=
  vectorOf n ((groups 4 block).map fun b => UInt32.ofNat (ofLittleEndian b))
def words32BE (n : Nat) (block : List UInt8) : Vector UInt32 n :=
  vectorOf n ((groups 4 block).map fun b => UInt32.ofNat (ofBigEndian b))
def words64LE (n : Nat) (block : List UInt8) : Vector UInt64 n :=
  vectorOf n ((groups 8 block).map fun b => UInt64.ofNat (ofLittleEndian b))
def words64BE (n : Nat) (block : List UInt8) : Vector UInt64 n :=
  vectorOf n ((groups 8 block).map fun b => UInt64.ofNat (ofBigEndian b))

def bytes32LE (ws : List UInt32) : List UInt8 := ws.flatMap fun w => littleEndian 4 w.toNat
def bytes32BE (ws : List UInt32) : List UInt8 := ws.flatMap fun w => bigEndian 4 w.toNat
def bytes64LE (ws : List UInt64) : List UInt8 := ws.flatMap fun w => littleEndian 8 w.toNat
def bytes64BE (ws : List UInt64) : List UInt8 := ws.flatMap fun w => bigEndian 8 w.toNat

/-- How many message bits are hashed once block `index` is, or zero if it holds none of them. -/
def bitsThrough (size index length : Nat) : Nat :=
  if index * size < length then 8 * min length ((index + 1) * size) else 0

@[simp] theorem length_bytes32BE (ws : List UInt32) : (bytes32BE ws).length = 4 * ws.length := by
  induction ws with
  | nil => rfl
  | cons w ws ih => simp_all [bytes32BE]; omega

end PowConsensus
