import PowConsensus.Hash.Digest
import PowConsensus.Transaction.CompactSize
import PowConsensus.Transaction.Script

/-! # Transactions

A transaction spends outputs of earlier ones and creates new ones. `bytes` is its wire form, whose
hash is its identifier. A coinbase spends a single output that does not exist.
-/
namespace PowConsensus

structure OutPoint where
  txid : Digest
  index : UInt32
  deriving DecidableEq

def OutPoint.null : OutPoint := ⟨.zero, 0xffffffff⟩

def OutPoint.isNull (o : OutPoint) : Bool := o = null

structure TxIn where
  previous : OutPoint
  script : Script
  sequence : UInt32
  deriving DecidableEq

structure TxOut where
  value : Int64
  script : Script
  deriving DecidableEq

structure Transaction where
  version : Int32
  inputs : List TxIn
  outputs : List TxOut
  lockTime : UInt32
  deriving DecidableEq

def Script.sizedBytes (s : Script) : List UInt8 := compactSize s.bytes.length ++ s.bytes

def TxIn.bytes (i : TxIn) : List UInt8 :=
  i.previous.txid.bytes ++ littleEndian 4 i.previous.index.toNat ++ i.script.sizedBytes
    ++ littleEndian 4 i.sequence.toNat

def TxOut.bytes (o : TxOut) : List UInt8 :=
  littleEndian 8 o.value.toUInt64.toNat ++ o.script.sizedBytes

namespace Transaction

def isCoinbase (t : Transaction) : Bool :=
  match t.inputs with
  | [input] => input.previous.isNull
  | _ => false

def bytes (t : Transaction) : List UInt8 :=
  littleEndian 4 t.version.toUInt32.toNat
    ++ compactSize t.inputs.length ++ t.inputs.flatMap TxIn.bytes
    ++ compactSize t.outputs.length ++ t.outputs.flatMap TxOut.bytes
    ++ littleEndian 4 t.lockTime.toNat

def identifier (hash : HashFunction) (t : Transaction) : Digest := hash t.bytes

end Transaction
end PowConsensus
