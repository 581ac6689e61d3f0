import PowConsensus.Transaction.ScriptNumber

/-! # Scripts

A script is built by pushes. A push of data carries the shortest of four length forms; the integers
from -1 to 16 are single opcodes when they are pushed as integers.
-/
namespace PowConsensus

structure Script where
  bytes : List UInt8
  deriving DecidableEq, Inhabited

namespace Script

def empty : Script := ⟨[]⟩

def pushData1 : UInt8 := 0x4c
def pushData2 : UInt8 := 0x4d
def pushData4 : UInt8 := 0x4e
def pushMinusOne : UInt8 := 0x4f
/-- Pushes one; the opcodes for two to sixteen follow. -/
def pushOne : UInt8 := 0x51
def checkSignature : UInt8 := 0xac

inductive Push where
  | opcode (code : UInt8)
  | integer (n : Int)
  | number (n : Int)
  | data (bytes : List UInt8)
  deriving DecidableEq, Repr

/-- What stands before the data in a push. -/
def lengthBytes (n : Nat) : List UInt8 :=
  if n < 0x4c then [UInt8.ofNat n]
  else if n ≤ 0xff then [pushData1, UInt8.ofNat n]
  else if n ≤ 0xffff then pushData2 :: littleEndian 2 n
  else pushData4 :: littleEndian 4 n

def dataBytes (data : List UInt8) : List UInt8 := lengthBytes data.length ++ data

def integerBytes (n : Int) : List UInt8 :=
  if n = 0 then [0]
  else if n = -1 then [pushMinusOne]
  else if 1 ≤ n ∧ n ≤ 16 then [pushOne + UInt8.ofNat (n - 1).toNat]
  else dataBytes (ScriptNumber.bytes n)

def Push.bytes : Push → List UInt8
  | .opcode code => [code]
  | .integer n => integerBytes n
  | .number n => dataBytes (ScriptNumber.bytes n)
  | .data bytes => dataBytes bytes

def push (s : Script) (p : Push) : Script := ⟨s.bytes ++ p.bytes⟩

def ofPushes (pushes : List Push) : Script := pushes.foldl push empty

end Script
end PowConsensus
