import PowConsensus.Proofs.Transaction.Delimited
import PowConsensus.Work.Algorithm

/-! # Eighty bytes and the header in them

The six fields of a header follow one another without a gap, so that any eighty bytes are the wire
form of exactly one header. What is hashed for a header that was read is what was read, and the four
bytes that name its time also choose the hash function that proves its work.
-/
namespace PowConsensus
namespace Header
variable {data : List UInt8} {offset : Nat} {h : Header}

theorem bytes_delimited : Delimited (fun _ => True) Header.bytes := by
  rintro ⟨version, parent, merkleRoot, time, ⟨bits⟩, nonce⟩
    ⟨version', parent', merkleRoot', time', ⟨bits'⟩, nonce'⟩ _ _ rest rest' heq
  simp only [Header.bytes, List.append_assoc] at heq
  obtain ⟨hversion, hparent⟩ := word32_delimited trivial trivial heq
  obtain ⟨rfl, hroot⟩ := digest_delimited trivial trivial hparent
  obtain ⟨rfl, htime⟩ := digest_delimited trivial trivial hroot
  obtain ⟨rfl, hbits⟩ := word32_delimited trivial trivial htime
  obtain ⟨rfl, hnonce⟩ := word32_delimited trivial trivial hbits
  obtain ⟨rfl, hrest⟩ := word32_delimited trivial trivial hnonce
  obtain rfl : version = version' := congrArg Int32.ofUInt32 hversion
  exact ⟨rfl, hrest⟩

theorem toNat_wordAt (hlength : offset + 4 ≤ data.length) :
    (wordAt data offset).toNat = ofLittleEndian ((data.drop offset).take 4) := by
  have hlt := ofLittleEndian_lt ((data.drop offset).take 4)
  rw [List.length_take, List.length_drop, Nat.min_eq_left (by omega)] at hlt
  rw [wordAt, UInt32.toNat_ofNat', Nat.mod_eq_of_lt hlt]

theorem littleEndian_wordAt (hlength : offset + 4 ≤ data.length) :
    littleEndian 4 (wordAt data offset).toNat = (data.drop offset).take 4 := by
  have hfour : ((data.drop offset).take 4).length = 4 := by
    rw [List.length_take, List.length_drop, Nat.min_eq_left (by omega)]
  have hread := littleEndian_ofLittleEndian ((data.drop offset).take 4)
  rw [hfour] at hread
  rw [toNat_wordAt hlength, hread]

/-- A field and what stands behind it. -/
theorem take_append_drop_of_add {width next : Nat} (hnext : offset + width = next) :
    (data.drop offset).take width ++ data.drop next = data.drop offset := by
  rw [← hnext, ← List.drop_drop, List.take_append_drop]

theorem parse_of_length_ne (hlength : data.length ≠ 80) : parse data = .error ⟨data.length⟩ :=
  dif_neg hlength

theorem exists_parse_iff : (∃ h, parse data = .ok h) ↔ data.length = 80 := by
  constructor
  · rintro ⟨h, hparse⟩
    refine Decidable.byContradiction fun hlength => ?_
    rw [parse_of_length_ne hlength] at hparse
    cases hparse
  · intro hlength
    exact ⟨_, dif_pos hlength⟩

theorem length_of_parse (hparse : parse data = .ok h) : data.length = 80 :=
  exists_parse_iff.mp ⟨h, hparse⟩

theorem bytes_of_parse (hparse : parse data = .ok h) : h.bytes = data := by
  have hlength := length_of_parse hparse
  rw [parse, dif_pos hlength] at hparse
  cases hparse
  have hversion : (wordAt data 0).toInt32.toUInt32 = wordAt data 0 := rfl
  have hend : data.drop 80 = [] := List.drop_eq_nil_of_le (Nat.le_of_eq hlength)
  simp only [bytes, digestAt, hversion]
  rw [littleEndian_wordAt (by omega), littleEndian_wordAt (by omega),
    littleEndian_wordAt (by omega), littleEndian_wordAt (by omega)]
  calc _ = (data.drop 0).take 4 ++ ((data.drop 4).take 32 ++ ((data.drop 36).take 32 ++
        ((data.drop 68).take 4 ++ ((data.drop 72).take 4 ++
          ((data.drop 76).take 4 ++ data.drop 80))))) := by
        simp only [List.append_assoc, hend, List.append_nil]
    _ = data.drop 0 := by
        rw [take_append_drop_of_add (rfl : 76 + 4 = 80),
          take_append_drop_of_add (rfl : 72 + 4 = 76),
          take_append_drop_of_add (rfl : 68 + 4 = 72),
          take_append_drop_of_add (rfl : 36 + 32 = 68),
          take_append_drop_of_add (rfl : 4 + 32 = 36),
          take_append_drop_of_add (rfl : 0 + 4 = 4)]
    _ = data := List.drop_zero

/-- The bytes of a header can be read, and what is read has the same bytes. -/
theorem parse_bytes (h : Header) : parse h.bytes = .ok h := by
  obtain ⟨h', hparse⟩ := exists_parse_iff.mpr h.length_bytes
  have hbytes : h'.bytes = h.bytes := bytes_of_parse hparse
  rw [hparse, bytes_delimited.injective trivial trivial hbytes]

theorem toNat_time_of_parse (hparse : parse data = .ok h) :
    h.time.toNat = ofLittleEndian ((data.drop 68).take 4) := by
  have hlength := length_of_parse hparse
  rw [parse, dif_pos hlength] at hparse
  cases hparse
  exact toNat_wordAt (by omega)

end Header

theorem WorkAlgorithm.ofTime_eq (time : UInt32) :
    ofTime time = if 1406160001 ≤ time.toNat ∧ time.toNat < 1721779200 then .x11 else .scrypt := by
  simp only [ofTime, windowStart, windowEnd, UInt32.le_iff_toNat_le, UInt32.lt_iff_toNat_lt,
    UInt32.reduceToNat]

/-- Headers and texts of eighty bytes correspond to one another: reading undoes writing, exactly
the texts of that length can be read, and writing undoes reading. Hashing respects it, whatever the
hash functions are: identity and work of a header that was read are hashes of the very text, and
the number at bytes 68 to 71, low byte first, says which function hashes for work. -/
theorem header_text_correspondence :
    (∀ h : Header, Header.parse h.bytes = .ok h) ∧
    ∀ data : List UInt8,
      ((∃ h, Header.parse data = .ok h) ↔ data.length = 80) ∧
      (data.length ≠ 80 → Header.parse data = .error ⟨data.length⟩) ∧
      ∀ h, Header.parse data = .ok h →
        h.bytes = data ∧
        (∀ hash : HashFunction, h.identity hash = hash data) ∧
        ∀ hash : WorkAlgorithm → HashFunction,
          let time := ofLittleEndian ((data.drop 68).take 4)
          h.workDigest hash =
            if 1406160001 ≤ time ∧ time < 1721779200 then hash .x11 data
            else hash .scrypt data := by
  refine ⟨Header.parse_bytes, fun data =>
    ⟨Header.exists_parse_iff, Header.parse_of_length_ne, fun h hparse => ?_⟩⟩
  have hbytes := Header.bytes_of_parse hparse
  refine ⟨hbytes, fun hash => congrArg hash hbytes, fun hash => ?_⟩
  rw [Header.workDigest, WorkAlgorithm.ofTime_eq, Header.toNat_time_of_parse hparse, hbytes]
  dsimp only
  split
  · rfl
  · rfl

/-- A version below zero, and the first second of the window of X11. -/
theorem header_text_correspondence_at_window_start :
    let data : List UInt8 :=
      List.replicate 68 0xff ++ [0x81, 0x4c, 0xd0, 0x53] ++ List.replicate 8 0xff
    ∃ h, Header.parse data = .ok h ∧ h.version = -1 ∧ h.bytes = data ∧
      (∀ hash : HashFunction, h.identity hash = hash data) ∧
      ∀ hash : WorkAlgorithm → HashFunction, h.workDigest hash = hash .x11 data := by
  intro data
  obtain ⟨hlength, -, hread⟩ := header_text_correspondence.2 data
  obtain ⟨h, hparse⟩ := hlength.mpr (by decide)
  obtain ⟨hbytes, hidentity, hwork⟩ := hread h hparse
  refine ⟨h, hparse, ?_, hbytes, hidentity, fun hash => (hwork hash).trans (if_pos (by decide))⟩
  cases hparse
  decide

end PowConsensus
