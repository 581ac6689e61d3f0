import PowConsensus.Command.Run
import PowConsensus.Proofs.Chain.Growth
import PowConsensus.Proofs.Json.Entries
import PowConsensus.Proofs.Retarget.Schedule

/-! # What a headers file carries

The entries written to a headers file are the entries read from it, so the next block after the file
is the one after the segment that the entries were taken from. A segment is refused only if it went
on past the largest height, where its heights are not consecutive any more.
-/
namespace PowConsensus.Command

variable {entries : List ChainEntry} {c : Segment} {tip : ChainEntry}

/-- The file with a text in it. -/
def fileOf (text : String) : FileContent := .bytes text.toByteArray.data.toList

theorem text?_fileOf (text : String) : (fileOf text).text? = some text := by
  rw [fileOf, FileContent.text?, Array.toArray_toList, String.fromUTF8?, dif_pos text.isValidUTF8]
  rfl

theorem textOfEntries_eq (entries : List ChainEntry) :
    textOfEntries entries = "[" ++ ",".intercalate (entries.map ChainEntry.jsonText) ++ "]" := by
  rw [textOfEntries, ChainEntry.render_listDocument, String.ofList_toList]

theorem ofText?_jsonText (e : ChainEntry) :
    (Json.Document.ofText? e.jsonText).bind ChainEntry.ofDocument? = some e := by
  have htext : e.jsonText = String.ofList e.document.render := by
    rw [e.render_document, String.ofList_toList]
  rw [htext, Json.Document.ofText?_render e.plain_document]
  exact e.ofDocument?_document

theorem entriesOfText?_textOfEntries (entries : List ChainEntry) :
    entriesOfText? (textOfEntries entries) = some entries := by
  rw [entriesOfText?, textOfEntries,
    Json.Document.ofText?_render (ChainEntry.plain_listDocument entries)]
  exact ChainEntry.listOfDocument?_listDocument entries

/-! ## The next block after given entries -/

namespace NextWork
variable (p : NetworkProfile) (envelope : Kimoto.Envelope) (time : UInt32)

theorem ofEntries_nil : ofEntries p envelope [] time = .error .empty := rfl

theorem ofEntries_of_not_gapless (h : ¬ Segment.Gapless entries) :
    ofEntries p envelope entries time = .error .notContiguous := by
  have hnone : Segment.ofEntries? entries = none := by
    rw [← Segment.exists_ofEntries?_iff] at h
    exact Option.eq_none_iff_forall_ne_some.mpr fun c hc => h ⟨c, hc⟩
  rw [ofEntries, hnone]

theorem ofEntries_of_tip (hload : Segment.ofEntries? entries = some c) (htip : c.tip? = some tip) :
    ofEntries p envelope entries time = .ok (onTip p envelope c tip time, c) := by
  rw [ofEntries, hload]
  simp only [htip]

theorem exists_ofEntries_of_gapless (hne : entries ≠ []) (h : Segment.Gapless entries) :
    ∃ n c, ofEntries p envelope entries time = .ok (n, c) := by
  obtain ⟨c, hload⟩ := Segment.exists_ofEntries?_iff.mpr h
  have htip : c.tip? = some (entries.getLast hne) := by
    rw [Segment.tip?, ← Array.getLast?_toList, (Segment.ofEntries?_spec hload).1,
      List.getLast?_eq_some_getLast hne]
  exact ⟨_, c, ofEntries_of_tip p envelope time hload htip⟩

/-- Entries fail only for being none or for a gap. -/
theorem ofEntries_cases (entries : List ChainEntry) :
    (entries = [] ∧ ofEntries p envelope entries time = .error .empty) ∨
    (¬ Segment.Gapless entries ∧ ofEntries p envelope entries time = .error .notContiguous) ∨
    entries ≠ [] ∧ Segment.Gapless entries ∧
      ∃ n c, ofEntries p envelope entries time = .ok (n, c) := by
  by_cases hne : entries = []
  · exact .inl ⟨hne, hne ▸ ofEntries_nil p envelope time⟩
  · by_cases h : Segment.Gapless entries
    · exact .inr (.inr ⟨hne, h, exists_ofEntries_of_gapless p envelope time hne h⟩)
    · exact .inr (.inl ⟨h, ofEntries_of_not_gapless p envelope time h⟩)

/-- Of the header only its time counts. -/
theorem requiredBits_candidate (index : ChainIndex) {candidate : Header}
    (h : candidate.time = time) :
    p.requiredBits envelope index tip (.candidate tip time) =
      p.requiredBits envelope index tip candidate := by
  subst h
  rfl

/-- A segment that fits gives the next block on its tip from its own entries. -/
theorem ofEntries_of_fits (hfits : c.Fits) (htip : c.tip? = some tip) {candidate : Header}
    (htime : candidate.time = time) :
    ofEntries p envelope c.entries.toList time =
      .ok (⟨tip, tip.nextHeight, .select (p.rules.get tip.nextHeight) tip.nextHeight,
        p.requiredBits envelope c.predecessor tip candidate⟩, c) := by
  have hload := hfits.ofEntries?_toList (Segment.size_ne_zero_of_tip? htip)
  rw [ofEntries_of_tip p envelope time hload htip, onTip,
    requiredBits_candidate p envelope time c.predecessor htime]

end NextWork

/-! ## The report on a file -/

section Report
variable (p : NetworkProfile) (path : String) (time : UInt32)

theorem runNextWork_fileOf (entries : List ChainEntry) :
    (runNextWork p path time (fileOf (textOfEntries entries))).1 =
      match NextWork.ofEntries p Kimoto.standardEnvelope entries time with
      | .error fault => .error (.headers fault)
      | .ok (n, _) => .ok n.report := by
  simp only [runNextWork, text?_fileOf, entriesOfText?_textOfEntries]
  cases NextWork.ofEntries p Kimoto.standardEnvelope entries time with
  | error fault => rfl
  | ok next => rfl

/-- Which lists of entries are refused, and as what. -/
theorem runNextWork_outcome (entries : List ChainEntry) :
    let result := (runNextWork p path time (fileOf (textOfEntries entries))).1
    (result = .error (.headers .empty) ↔ entries = []) ∧
    (result = .error (.headers .notContiguous) ↔ ¬ Segment.Gapless entries) ∧
    ((∃ report, result = .ok report) ↔ entries ≠ [] ∧ Segment.Gapless entries) := by
  rw [runNextWork_fileOf]
  rcases NextWork.ofEntries_cases p Kimoto.standardEnvelope time entries with
    ⟨rfl, hresult⟩ | ⟨hgap, hresult⟩ | ⟨hne, hgapless, n, c, hresult⟩
  · simp [hresult, Segment.gapless_nil]
  · have hne : entries ≠ [] := fun hnil => hgap (hnil ▸ Segment.gapless_nil)
    simp [hresult, hgap, hne]
  · simp [hresult, hgapless, hne]

end Report
end PowConsensus.Command

namespace PowConsensus
open Command

/-- The profile of the main network, with its genesis block as built. -/
def NetworkProfile.main : NetworkProfile where
  network := .main
  constants := Network.main.constants
  genesis := .ofParams doubleSha256 Network.main.constants.genesisParams
  rules := Network.main.rules

/-- A headers file carries a chain. An entry and a list of entries are read as what was written,
with the hash in 64 digits. The next block after the file of a segment is reported with the height,
the algorithm and the bits that the segment and its tip give for any header of that time, on every
network and with every envelope; a file is refused exactly if it has no entries or its heights have
a gap, as those of a segment have that went on past the largest height. -/
theorem headers_file_carries_chain :
    (∀ e : ChainEntry, e.hash.text.length = 64 ∧ String.ofList e.document.render = e.jsonText ∧
      (Json.Document.ofText? e.jsonText).bind ChainEntry.ofDocument? = some e) ∧
    (∀ entries : List ChainEntry,
      textOfEntries entries = "[" ++ ",".intercalate (entries.map ChainEntry.jsonText) ++ "]" ∧
      entriesOfText? (textOfEntries entries) = some entries) ∧
    ∀ (p : NetworkProfile) (path : String) (time : UInt32),
      (∀ entries : List ChainEntry,
        let result := (runNextWork p path time (fileOf (textOfEntries entries))).1
        (result = .error (.headers .empty) ↔ entries = []) ∧
        (result = .error (.headers .notContiguous) ↔ ¬ Segment.Gapless entries) ∧
        ((∃ report, result = .ok report) ↔ entries ≠ [] ∧ Segment.Gapless entries)) ∧
      ∀ (c : Segment) (tip : ChainEntry), c.tip? = some tip →
        let entries := c.entries.toList
        let result := (runNextWork p path time (fileOf (textOfEntries entries))).1
        (¬ c.Fits → result = .error (.headers .notContiguous)) ∧
        (c.Fits → ∀ candidate : Header, candidate.time = time →
          let algorithm := RetargetAlgorithm.select (p.rules.get tip.nextHeight) tip.nextHeight
          let required (envelope : Kimoto.Envelope) : NextWork :=
            ⟨tip, tip.nextHeight, algorithm,
              p.requiredBits envelope c.predecessor tip candidate⟩
          (∀ envelope, NextWork.ofEntries p envelope entries time = .ok (required envelope, c)) ∧
          result = .ok (required Kimoto.standardEnvelope).report) := by
  refine ⟨fun e => ⟨?_, ?_, ofText?_jsonText e⟩,
    fun entries => ⟨textOfEntries_eq entries, entriesOfText?_textOfEntries entries⟩,
    fun p path time => ⟨fun entries => ?_, fun c tip htip => ⟨fun hpast => ?_,
      fun hfits candidate htime => ?_⟩⟩⟩
  · rw [Digest.text, String.length_ofList]
    exact e.hash.length_chars
  · rw [e.render_document, String.ofList_toList]
  · exact runNextWork_outcome p path time entries
  · rw [← Segment.gapless_toList_iff] at hpast
    exact (runNextWork_outcome p path time c.entries.toList).2.1.mpr hpast
  · have hresult (envelope : Kimoto.Envelope) :=
      NextWork.ofEntries_of_fits p envelope time hfits htip htime
    exact ⟨hresult, by rw [runNextWork_fileOf, hresult]⟩

/-- Two blocks after the second fork: the bits of the next one come from the time between them. -/
theorem headers_file_carries_chain_after_fork2 :
    let p := NetworkProfile.main
    let c := ((Segment.startingAt 200000).push 1400000000 ⟨0x1c1a1206⟩).push 1400000040 ⟨0x1c1a1206⟩
    let tip := ChainEntry.unhashed 200001 1400000040 ⟨0x1c1a1206⟩
    c.tip? = some tip ∧ c.Fits ∧ (Header.candidate tip 1400001040).time = 1400001040 ∧
      (runNextWork p "h.json" 1400001040 (fileOf (textOfEntries c.entries.toList))).1 =
        .ok (NextWork.mk tip 200002 .digiShield ⟨0x1c22c2b2⟩).report := by
  intro p c tip
  obtain ⟨-, -, hrun⟩ := headers_file_carries_chain
  have htip : c.tip? = some tip := by decide
  have hfits : c.Fits := by decide
  obtain ⟨-, hresult⟩ := ((hrun p "h.json" 1400001040).2 c tip htip).2 hfits
    (.candidate tip 1400001040) rfl
  have hrules : p.rules.get tip.nextHeight = Network.mainRules[0] := Network.get_main _
  have hnext : NextWork.mk tip tip.nextHeight (.select Network.mainRules[0] tip.nextHeight)
      (requiredBits Kimoto.standardEnvelope c.predecessor tip (.candidate tip 1400001040)
        Network.mainRules[0]) = ⟨tip, 200002, .digiShield, ⟨0x1c22c2b2⟩⟩ := by decide
  simp only [NetworkProfile.requiredBits, hrules, hnext] at hresult
  exact ⟨htip, hfits, rfl, hresult⟩

/-- The second block of this segment stands at height zero, behind the largest height. The segment
has a tip and a next block, and its entries are read as they were written, but not as a segment. -/
theorem chain_past_largest_height_is_refused :
    let p := NetworkProfile.main
    let c := ((Segment.startingAt 4294967295).push 0 ⟨0x1e0fffff⟩).push 40 ⟨0x1e0fffff⟩
    let tip := ChainEntry.unhashed 0 40 ⟨0x1e0fffff⟩
    let text := textOfEntries c.entries.toList
    c.tip? = some tip ∧
      NextWork.onTip p Kimoto.standardEnvelope c tip 80 =
        ⟨tip, 1, .legacy, ⟨0x1e0fffff⟩⟩ ∧
      entriesOfText? text = some c.entries.toList ∧
      (runNextWork p "h.json" 80 (fileOf text)).1 = .error (.headers .notContiguous) := by
  intro p c tip text
  have hrules : p.rules.get tip.nextHeight = Network.mainRules[0] := Network.get_main _
  refine ⟨by decide, ?_, entriesOfText?_textOfEntries _, ?_⟩
  · rw [NextWork.onTip, NetworkProfile.requiredBits, hrules]
    rfl
  · rw [runNextWork_fileOf]
    rfl

end PowConsensus
