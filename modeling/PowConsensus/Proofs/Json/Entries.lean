import PowConsensus.Json.Entry
import PowConsensus.Proofs.Hash.DigestText
import PowConsensus.Proofs.Json.Reading

/-! # Chain entries read back from JSON

A digest is written as its text and a number as its digits. Both are read as what they were, so an
entry is, by the names of its fields, and a list of entries is, one by one.
-/
namespace PowConsensus
open Json (Document)

namespace Json.Document

theorem characters?_partsOf (cs : List Char) : characters? (cs.map .char) = some cs := by
  induction cs with
  | nil => rfl
  | cons c cs ih =>
    rw [List.map_cons, characters?, ih]
    rfl

theorem readText?_ofString (text : String) : readText? (ofString text) = some text := by
  rw [ofString, readText?, partsOf, characters?_partsOf, Option.map_some, String.ofList_toList]

theorem readNatural?_natural (n : Nat) : readNatural? (natural n) = some n := by
  have hdigits : (Nat.toDigits 10 n).all Char.isDigit = true :=
    List.all_eq_true.mpr fun _ => isDigit_of_mem_toDigits
  rw [natural, readNatural?, if_pos hdigits]
  exact congrArg some Nat.ofDigitChars_ten_toDigits

/-- Members under plain names are read under these names. -/
theorem named?_partsOf (members : List (String × Document)) :
    named? (members.map fun m => (partsOf m.1, m.2)) = some members := by
  induction members with
  | nil => rfl
  | cons m members ih =>
    rw [named?] at ih ⊢
    rw [List.map_cons, List.mapM_cons, ih, partsOf, characters?_partsOf, Option.map_some,
      String.ofList_toList]
    rfl

/-- Text without quotes and backslashes is written as it is. -/
theorem renderParts_partsOf {text : String} (h : ∀ c ∈ text.toList, c ≠ '"' ∧ c ≠ '\\') :
    renderParts (partsOf text) = '"' :: (text.toList ++ ['"']) := by
  have hparts (cs : List Char) (hcs : ∀ c ∈ cs, c ≠ '"' ∧ c ≠ '\\') :
      (cs.map Part.char).flatMap renderPart = cs := by
    induction cs with
    | nil => rfl
    | cons c cs ih =>
      obtain ⟨⟨hquote, hback⟩, hcs⟩ := List.forall_mem_cons.mp hcs
      rw [List.map_cons, List.flatMap_cons, ih hcs, renderPart]
      · rfl
      · exact fun heq => hquote heq
      · exact fun heq => hback heq
  rw [renderParts, partsOf, hparts text.toList h]

theorem render_natural (n : Nat) : (natural n).render = (toString n).toList := by
  rw [natural, render, Nat.toString_eq_ofList_toDigits, String.toList_ofList]

theorem renderItems_eq_intercalate (items : List Document) :
    renderItems items = [','].intercalate (items.map render) ++ [']'] := by
  induction items with
  | nil => rfl
  | cons item rest ih =>
    cases rest with
    | nil => rw [renderItems, List.map_cons, List.map_nil, List.intercalate_singleton]
    | cons next rest =>
      rw [renderItems, ih]
      · simp only [List.map_cons, List.intercalate_cons_cons, List.append_assoc, List.cons_append,
          List.nil_append]
      · exact List.cons_ne_nil _ _

theorem plain_partsOf {text : String} (h : ∀ c ∈ text.toList, 0x20 ≤ c.toNat) :
    ∀ part ∈ partsOf text, part.Plain := by
  intro part hpart
  obtain ⟨c, hc, rfl⟩ := List.mem_map.mp hpart
  exact h c hc

end Json.Document

theorem readWord?_natural (x : UInt32) : readWord? (.natural x.toNat) = some x := by
  have hlt : x.toNat < UInt32.size := x.toNat_lt
  simp [readWord?, Document.readNatural?_natural, hlt]

theorem Digest.ofDocument?_document (d : Digest) : Digest.ofDocument? d.document = some d := by
  simp [Digest.ofDocument?, Digest.document, Document.readText?_ofString, Digest.parse_text,
    Except.toOption]

theorem Digest.plain_document (d : Digest) : d.document.Plain := by
  refine .text (Document.plain_partsOf ?_)
  rw [Digest.text, String.toList_ofList]
  exact Text.forall_mem_hexChars Text.le_toNat_hexDigit _

namespace ChainEntry
variable (e : ChainEntry) (entries : List ChainEntry)

/-- The fields of an entry under their names. -/
def namedFields : List (String × Document) :=
  [("hash", e.hash.document), ("height", .natural e.height.toNat),
   ("time", .natural e.time.toNat), ("bits", .natural e.bits.bits.toNat)]

theorem document_eq :
    e.document = .object (e.namedFields.map fun m => (Document.partsOf m.1, m.2)) := rfl

theorem plain_document : e.document.Plain := by
  have hfields : ∀ m ∈ e.namedFields, (∀ c ∈ m.1.toList, 0x20 ≤ c.toNat) ∧ m.2.Plain := by
    simp only [namedFields, List.forall_mem_cons]
    exact ⟨⟨by simp, e.hash.plain_document⟩, ⟨by simp, .natural _⟩, ⟨by simp, .natural _⟩,
      ⟨by simp, .natural _⟩, List.forall_mem_nil _⟩
  rw [document_eq]
  refine .object (fun m hm => ?_) fun m hm => ?_
  · obtain ⟨field, hfield, rfl⟩ := List.mem_map.mp hm
    exact Document.plain_partsOf (hfields field hfield).1
  · obtain ⟨field, hfield, rfl⟩ := List.mem_map.mp hm
    exact (hfields field hfield).2

theorem ofFields?_document :
    ofFields? e.hash.document (.natural e.height.toNat) (.natural e.time.toNat)
      (.natural e.bits.bits.toNat) = some e := by
  simp [ofFields?, Digest.ofDocument?_document, readWord?_natural]

theorem ofDocument?_document : ofDocument? e.document = some e := by
  rw [document_eq, ofDocument?, Document.named?_partsOf]
  simp [namedFields, Document.unique?, ofFields?_document]

/-- An entry as it stands in a headers file. -/
def jsonText : String :=
  "\x7b\"hash\":\"" ++ e.hash.text ++ "\",\"height\":" ++ toString e.height ++
    ",\"time\":" ++ toString e.time ++ ",\"bits\":" ++ toString e.bits.bits ++ "\x7d"

theorem render_document : e.document.render = e.jsonText.toList := by
  have hhash : e.hash.document.render = '"' :: (e.hash.text.toList ++ ['"']) := by
    rw [Digest.document, Document.ofString, Document.render]
    refine Document.renderParts_partsOf fun c hc => ?_
    rw [Digest.text, String.toList_ofList] at hc
    exact Text.forall_mem_hexChars (P := fun c => c ≠ '"' ∧ c ≠ '\\') Text.hexDigit_ne_quote _ c hc
  have hname (name : String) (h : ∀ c ∈ name.toList, c ≠ '"' ∧ c ≠ '\\') :
      Document.renderParts (Document.partsOf name) = '"' :: (name.toList ++ ['"']) :=
    Document.renderParts_partsOf h
  have hheight : toString e.height = toString e.height.toNat := rfl
  have htime : toString e.time = toString e.time.toNat := rfl
  have hbits : toString e.bits.bits = toString e.bits.bits.toNat := rfl
  unfold jsonText
  simp only [document, Document.render, Document.renderMembers, hhash, Document.render_natural,
    hname "hash" (by simp), hname "height" (by simp), hname "time" (by simp),
    hname "bits" (by simp), hheight, htime, hbits, String.toList_append]
  simp

theorem render_listDocument : (listDocument entries).render =
    ("[" ++ ",".intercalate (entries.map jsonText) ++ "]").toList := by
  have hmap : (entries.map document).map Document.render =
      (entries.map jsonText).map String.toList := by
    rw [List.map_map, List.map_map]
    exact List.map_congr_left fun e _ => e.render_document
  rw [listDocument, Document.render, Document.renderItems_eq_intercalate, hmap]
  simp only [String.toList_append, String.toList_intercalate]
  rfl

theorem listOfDocument?_listDocument : listOfDocument? (listDocument entries) = some entries := by
  rw [listDocument, listOfDocument?]
  induction entries with
  | nil => rfl
  | cons e entries ih => simp [ofDocument?_document, ih]

theorem plain_listDocument : (listDocument entries).Plain := by
  refine .array fun doc hdoc => ?_
  obtain ⟨e, -, rfl⟩ := List.mem_map.mp hdoc
  exact e.plain_document

end ChainEntry
end PowConsensus
