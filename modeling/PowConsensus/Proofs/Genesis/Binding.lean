import PowConsensus.Genesis
import PowConsensus.Proofs.Header.WireForm
import PowConsensus.Proofs.Transaction.Serialization

/-! # What a verified genesis block commits to

The reward is in the bytes of the coinbase, whose hash is the Merkle root; version, time, bits and
nonce are in the bytes of the header. A network that states both hashes therefore states all of the
parameters, unless two texts that were hashed collide.
-/
namespace PowConsensus

namespace GenesisBlock
variable {hash : HashFunction} {p q : GenesisParams} {block : GenesisBlock}

/-- All else in a coinbase being equal, its bytes still differ with the reward. -/
theorem coinbaseOf_bytes_inj {message : List UInt8} {output : Script} {reward reward' : Int64}
    (h : (coinbaseOf message output reward).bytes = (coinbaseOf message output reward').bytes) :
    reward = reward' := by
  simp only [Transaction.bytes, coinbaseOf, List.flatMap_singleton, TxOut.bytes, List.append_assoc,
    List.append_cancel_left_eq, List.length_singleton] at h
  obtain ⟨hvalue, -⟩ := word64_delimited trivial trivial h
  exact congrArg Int64.ofUInt64 hvalue

theorem reward_of_coinbase
    (h : (ofParams hash p).coinbase.bytes = (ofParams hash q).coinbase.bytes) :
    p.reward = q.reward := coinbaseOf_bytes_inj h

theorem header_of_bytes (h : (ofParams hash p).header.bytes = (ofParams hash q).header.bytes) :
    p.version = q.version ∧ p.time = q.time ∧ p.bits = q.bits ∧ p.nonce = q.nonce := by
  have hheader : (ofParams hash p).header = (ofParams hash q).header :=
    Header.bytes_delimited.injective trivial trivial h
  exact ⟨congrArg Header.version hheader, congrArg Header.time hheader,
    congrArg Header.bits hheader, congrArg Header.nonce hheader⟩

theorem verify_of_root_ne (h : (ofParams hash p).coinbase.identifier hash ≠ p.expectedMerkleRoot) :
    verify hash p = .error
      ⟨.merkleRoot, (ofParams hash p).coinbase.identifier hash, p.expectedMerkleRoot⟩ :=
  if_pos h

theorem verify_of_hash_ne (hroot : (ofParams hash p).coinbase.identifier hash = p.expectedMerkleRoot)
    (h : (ofParams hash p).header.identity hash ≠ p.expectedHash) :
    verify hash p = .error ⟨.hash, (ofParams hash p).header.identity hash, p.expectedHash⟩ :=
  (if_neg (not_not_intro hroot)).trans (if_pos h)

theorem verify_eq_ok_iff : verify hash p = .ok block ↔
    (ofParams hash p).coinbase.identifier hash = p.expectedMerkleRoot ∧
      (ofParams hash p).header.identity hash = p.expectedHash ∧ ofParams hash p = block := by
  by_cases hroot : (ofParams hash p).coinbase.identifier hash = p.expectedMerkleRoot
  · by_cases hidentity : (ofParams hash p).header.identity hash = p.expectedHash
    · have hok : verify hash p = .ok (ofParams hash p) :=
        (if_neg (not_not_intro hroot)).trans (if_neg (not_not_intro hidentity))
      simp only [hok, hroot, hidentity, Except.ok.injEq, true_and]
    · simp [verify_of_hash_ne hroot hidentity, hidentity]
  · simp [verify_of_root_ne hroot, hroot]

end GenesisBlock

open GenesisBlock in
/-- Under any hash function: a genesis block is verified exactly if both hashes are those expected,
a wrong Merkle root is what is reported even if the other hash is wrong too, and two sets of
parameters that are verified against the same hashes are equal, or their coinbases or their headers
collide. -/
theorem genesis_verification_binds_parameters (hash : HashFunction) :
    (∀ p : GenesisParams,
      let root := (ofParams hash p).coinbase.identifier hash
      let identity := (ofParams hash p).header.identity hash
      ((∃ block, verify hash p = .ok block) ↔
        root = p.expectedMerkleRoot ∧ identity = p.expectedHash) ∧
      (root ≠ p.expectedMerkleRoot →
        verify hash p = .error ⟨.merkleRoot, root, p.expectedMerkleRoot⟩ ∧
          Field.merkleRoot.name = "merkle root") ∧
      (root = p.expectedMerkleRoot → identity ≠ p.expectedHash →
        verify hash p = .error ⟨.hash, identity, p.expectedHash⟩)) ∧
    ∀ (p q : GenesisParams) (block block' : GenesisBlock),
      p.expectedHash = q.expectedHash → p.expectedMerkleRoot = q.expectedMerkleRoot →
      verify hash p = .ok block → verify hash q = .ok block' →
      (p = q ∧ block = block') ∨
        Collision hash block.coinbase.bytes block'.coinbase.bytes ∨
        Collision hash block.header.bytes block'.header.bytes := by
  refine ⟨fun p => ⟨?_, fun h => ⟨verify_of_root_ne h, rfl⟩, verify_of_hash_ne⟩,
    fun p q block block' hhash hroot hp hq => ?_⟩
  · simp only [verify_eq_ok_iff, exists_and_left, exists_eq', and_true]
  · obtain ⟨hrootp, hhashp, rfl⟩ := verify_eq_ok_iff.mp hp
    obtain ⟨hrootq, hhashq, rfl⟩ := verify_eq_ok_iff.mp hq
    by_cases hcoinbase : (ofParams hash p).coinbase.bytes = (ofParams hash q).coinbase.bytes
    · by_cases hheader : (ofParams hash p).header.bytes = (ofParams hash q).header.bytes
      · have hreward := reward_of_coinbase hcoinbase
        obtain ⟨hversion, htime, hbits, hnonce⟩ := header_of_bytes hheader
        obtain rfl : p = q := by
          cases p
          cases q
          simp_all
        exact Or.inl ⟨rfl, rfl⟩
      · exact Or.inr (Or.inr ⟨hheader, hhashp.trans (hhash.trans hhashq.symm)⟩)
    · exact Or.inr (Or.inl ⟨hcoinbase, hrootp.trans (hroot.trans hrootq.symm)⟩)

open GenesisBlock in
/-- A hash function that does not tell texts apart lets every reward pass, and it is the coinbases
that collide. -/
theorem genesis_verification_binds_parameters_under_blind_hash :
    let blind : HashFunction := fun _ => .zero
    let p : GenesisParams := ⟨1390694380, 134632, ⟨0x1e0ffff0⟩, 1, 1, .zero, .zero⟩
    let q : GenesisParams := { p with reward := 0 }
    p.expectedHash = q.expectedHash ∧ p.expectedMerkleRoot = q.expectedMerkleRoot ∧
      verify blind p = .ok (ofParams blind p) ∧ verify blind q = .ok (ofParams blind q) ∧
      Collision blind (ofParams blind p).coinbase.bytes (ofParams blind q).coinbase.bytes := by
  intro blind p q
  have hp : verify blind p = .ok (ofParams blind p) := verify_eq_ok_iff.mpr ⟨rfl, rfl, rfl⟩
  have hq : verify blind q = .ok (ofParams blind q) := verify_eq_ok_iff.mpr ⟨rfl, rfl, rfl⟩
  refine ⟨rfl, rfl, hp, hq, ?_⟩
  have hne : p ≠ q := by decide
  rcases (genesis_verification_binds_parameters blind).2 p q _ _ rfl rfl hp hq with
    ⟨heq, -⟩ | hcoinbase | hheader
  · exact absurd heq hne
  · exact hcoinbase
  · exact absurd rfl hheader.1

end PowConsensus
