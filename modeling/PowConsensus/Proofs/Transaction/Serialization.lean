import PowConsensus.Proofs.Transaction.Delimited

/-! # Transactions are determined by their bytes

Every part of a transaction is delimited: numbers and digests by their width, scripts, inputs and
outputs by the count before them. So a transaction can be told from its wire form, even with other
bytes after it, and two transactions of one identifier are a collision of the hash function.
-/
namespace PowConsensus

/-- Two texts of one hash. -/
def Collision (hash : HashFunction) (text text' : List UInt8) : Prop :=
  text ≠ text' ∧ hash text = hash text'

theorem Script.sizedBytes_delimited :
    Delimited (fun s : Script => Countable s.bytes.length) Script.sizedBytes := by
  rintro ⟨bytes⟩ ⟨bytes'⟩ hs hs' rest rest' heq
  simp only [Script.sizedBytes, List.append_assoc] at heq
  obtain ⟨hlength, hbytes⟩ := compactSize_delimited hs hs' heq
  obtain ⟨rfl, hrest⟩ := List.append_inj hbytes hlength
  exact ⟨rfl, hrest⟩

theorem TxIn.bytes_delimited :
    Delimited (fun i : TxIn => Countable i.script.bytes.length) TxIn.bytes := by
  rintro ⟨⟨txid, index⟩, script, sequence⟩ ⟨⟨txid', index'⟩, script', sequence'⟩ hi hi' rest rest' heq
  simp only [TxIn.bytes, List.append_assoc] at heq
  obtain ⟨rfl, hindex⟩ := digest_delimited trivial trivial heq
  obtain ⟨rfl, hscript⟩ := word32_delimited trivial trivial hindex
  obtain ⟨rfl, hsequence⟩ := Script.sizedBytes_delimited hi hi' hscript
  obtain ⟨rfl, hrest⟩ := word32_delimited trivial trivial hsequence
  exact ⟨rfl, hrest⟩

theorem TxOut.bytes_delimited :
    Delimited (fun o : TxOut => Countable o.script.bytes.length) TxOut.bytes := by
  rintro ⟨value, script⟩ ⟨value', script'⟩ ho ho' rest rest' heq
  simp only [TxOut.bytes, List.append_assoc] at heq
  obtain ⟨hvalue, hscript⟩ := word64_delimited trivial trivial heq
  obtain ⟨rfl, hrest⟩ := Script.sizedBytes_delimited ho ho' hscript
  obtain rfl : value = value' := congrArg Int64.ofUInt64 hvalue
  exact ⟨rfl, hrest⟩

namespace Transaction

/-- All counts in the transaction fit the widest form of a compact size. -/
structure Writable (t : Transaction) : Prop where
  inputs : Countable t.inputs.length ∧ ∀ i ∈ t.inputs, Countable i.script.bytes.length
  outputs : Countable t.outputs.length ∧ ∀ o ∈ t.outputs, Countable o.script.bytes.length

theorem bytes_delimited : Delimited Writable bytes := by
  rintro ⟨version, inputs, outputs, lockTime⟩ ⟨version', inputs', outputs', lockTime'⟩ ht ht'
    rest rest' heq
  have hinputs := TxIn.bytes_delimited.counted ht.inputs ht'.inputs
  have houtputs := TxOut.bytes_delimited.counted ht.outputs ht'.outputs
  simp only [bytes, List.append_assoc] at heq hinputs houtputs
  obtain ⟨hversion, hcounted⟩ := word32_delimited trivial trivial heq
  obtain ⟨rfl, hcounted'⟩ := hinputs hcounted
  obtain ⟨rfl, hlockTime⟩ := houtputs hcounted'
  obtain ⟨rfl, hrest⟩ := word32_delimited trivial trivial hlockTime
  obtain rfl : version = version' := congrArg Int32.ofUInt32 hversion
  exact ⟨rfl, hrest⟩

end Transaction

/-- Different transactions have different bytes, so that under any hash function their identifiers
only agree by a collision of these bytes. -/
theorem transaction_determined_by_bytes (t u : Transaction) (ht : t.Writable) (hu : u.Writable) :
    (t.bytes = u.bytes → t = u) ∧
    ∀ hash : HashFunction, t.identifier hash = u.identifier hash →
      t = u ∨ Collision hash t.bytes u.bytes := by
  have hinj : t.bytes = u.bytes → t = u := Transaction.bytes_delimited.injective ht hu
  refine ⟨hinj, fun hash hid => ?_⟩
  by_cases hbytes : t.bytes = u.bytes
  · exact Or.inl (hinj hbytes)
  · exact Or.inr ⟨hbytes, hid⟩

/-- One byte is in the script of the input or in that of the output: the wire forms have the same
length and hold the same bytes in another order. -/
theorem transaction_determined_by_bytes_when_byte_moves :
    let spend (unlock lock : List UInt8) : Transaction :=
      ⟨1, [⟨.null, ⟨unlock⟩, 0xffffffff⟩], [⟨5000000000, ⟨lock⟩⟩], 0⟩
    let t := spend [0xac] []
    let u := spend [] [0xac]
    t.Writable ∧ u.Writable ∧ t.bytes.Perm u.bytes ∧ t.bytes ≠ u.bytes ∧
      ∀ hash : HashFunction, t.identifier hash = u.identifier hash →
        Collision hash t.bytes u.bytes := by
  intro spend t u
  have ht : t.Writable := ⟨by decide, by decide⟩
  have hu : u.Writable := ⟨by decide, by decide⟩
  have hne : t ≠ u := by decide
  obtain ⟨hinj, hhash⟩ := transaction_determined_by_bytes t u ht hu
  refine ⟨ht, hu, by decide, fun h => hne (hinj h), fun hash hid => ?_⟩
  exact (hhash hash hid).resolve_left hne

end PowConsensus
