import Mathlib.Data.List.Forall2
import Mathlib.Tactic.SplitIfs
import PowConsensus.Proofs.Transaction.ScriptNumber
import PowConsensus.Transaction.Script

/-! # Reading the elements of a script back

A push is a length and as many bytes, or a single opcode for an integer from -1 to 16. A reader that
knows the forms of a length needs nothing else to tell where an element ends, whatever bytes the
elements are made of, so that it finds what was pushed, in order and to the end of the script.
-/
namespace PowConsensus.Script
variable {count width : Nat} {script data rest : List UInt8}

/-- The first bytes and those after them, if there are as many. -/
def split? (count : Nat) (bytes : List UInt8) : Option (List UInt8 × List UInt8) :=
  if count ≤ bytes.length then some (bytes.take count, bytes.drop count) else none

/-- How many bytes of a length follow an opcode that announces them. -/
def lengthWidth? (code : UInt8) : Option Nat :=
  if code = pushData1 then some 1
  else if code = pushData2 then some 2
  else if code = pushData4 then some 4
  else none

/-- Reads a length, in one of its four forms. -/
def readLength? : List UInt8 → Option (Nat × List UInt8)
  | [] => none
  | code :: rest =>
    if code < pushData1 then some (code.toNat, rest)
    else do
      let width ← lengthWidth? code
      let (field, rest) ← split? width rest
      return (ofLittleEndian field, rest)

/-- Reads an opcode that stands for the bytes of a number: -1, or 1 to 16. -/
def readSmallNumber? : List UInt8 → Option (List UInt8 × List UInt8)
  | [] => none
  | code :: rest =>
    if code = pushMinusOne then some ([0x81], rest)
    else if pushOne ≤ code ∧ code ≤ 0x60 then some ([code - 0x50], rest)
    else none

def readElement? (script : List UInt8) : Option (List UInt8 × List UInt8) :=
  match readLength? script with
  | some (count, rest) => split? count rest
  | none => readSmallNumber? script

theorem split?_append (data rest : List UInt8) :
    split? data.length (data ++ rest) = some (data, rest) := by
  rw [split?, if_pos (by simp), List.take_left, List.drop_left]

theorem length_of_split? {bytes front back : List UInt8}
    (h : split? count bytes = some (front, back)) :
    front.length = count ∧ bytes.length = count + back.length := by
  unfold split? at h
  split at h
  · cases h
    rw [List.length_take, List.length_drop]
    omega
  · cases h

theorem lengthWidth?_eq_some {code : UInt8} (h : lengthWidth? code = some width) :
    width = 1 ∨ width = 2 ∨ width = 4 := by
  unfold lengthWidth? at h
  split_ifs at h
  · exact Or.inl (Option.some.inj h).symm
  · exact Or.inr (Or.inl (Option.some.inj h).symm)
  · exact Or.inr (Or.inr (Option.some.inj h).symm)

/-- A length that was read takes one byte if it is small, and otherwise a field behind its opcode in
which it has to fit. -/
theorem length_of_readLength? (h : readLength? script = some (count, rest)) :
    (count < 0x4c ∧ script.length = 1 + rest.length) ∨
      ∃ width, (width = 1 ∨ width = 2 ∨ width = 4) ∧ count < 256 ^ width ∧
        script.length = 1 + width + rest.length := by
  cases script with
  | nil => cases h
  | cons code tail =>
    by_cases hcode : code < pushData1
    · rw [readLength?, if_pos hcode] at h
      cases h
      exact Or.inl ⟨hcode, Nat.add_comm _ _⟩
    · rw [readLength?, if_neg hcode] at h
      obtain ⟨width, hwidth, hread⟩ := Option.bind_eq_some_iff.mp h
      obtain ⟨⟨field, back⟩, hsplit, hpure⟩ := Option.bind_eq_some_iff.mp hread
      cases hpure
      obtain ⟨hfield, htail⟩ := length_of_split? hsplit
      have hlt := ofLittleEndian_lt field
      rw [hfield] at hlt
      refine Or.inr ⟨width, lengthWidth?_eq_some hwidth, hlt, ?_⟩
      rw [List.length_cons, htail]
      omega

/-- A field after an opcode that announces its width. -/
theorem readLength?_field {n : Nat} (code : UInt8) (field : List UInt8) (hcode : ¬ code < pushData1)
    (hwidth : lengthWidth? code = some field.length) (hvalue : ofLittleEndian field = n)
    (rest : List UInt8) : readLength? (code :: (field ++ rest)) = some (n, rest) := by
  rw [readLength?, if_neg hcode, hwidth, Option.bind_eq_bind, Option.bind_some, split?_append,
    ← hvalue]
  rfl

theorem readLength?_lengthBytes {n : Nat} (h : n < 2 ^ 32) (rest : List UInt8) :
    readLength? (lengthBytes n ++ rest) = some (n, rest) := by
  have hbyte (hn : n < 256) : (UInt8.ofNat n).toNat = n := UInt8.toNat_ofNat_of_lt' hn
  have hfield (width : Nat) (hn : n < 256 ^ width) :
      ofLittleEndian (littleEndian width n) = n := by
    rw [ofLittleEndian_littleEndian, Nat.mod_eq_of_lt hn]
  unfold lengthBytes
  split_ifs with hdirect hone htwo
  · have hcode : UInt8.ofNat n < pushData1 := by
      rw [UInt8.lt_iff_toNat_lt, hbyte (by omega)]
      exact hdirect
    rw [List.singleton_append, readLength?, if_pos hcode, hbyte (by omega)]
  · exact readLength?_field pushData1 [UInt8.ofNat n] (by decide) rfl (hbyte (by omega)) rest
  · exact readLength?_field pushData2 (littleEndian 2 n) (by decide) rfl (hfield 2 (by omega)) rest
  · exact readLength?_field pushData4 (littleEndian 4 n) (by decide) rfl (hfield 4 (by omega)) rest

/-- Whatever is read as a length has at least as many bytes as the form that is written. -/
theorem length_lengthBytes_le {n : Nat} {form : List UInt8}
    (h : readLength? (form ++ rest) = some (n, rest)) :
    (lengthBytes n).length ≤ form.length := by
  rcases length_of_readLength? h with ⟨hdirect, hlength⟩ | ⟨width, hwidth, hfits, hlength⟩
  · rw [List.length_append] at hlength
    rw [lengthBytes, if_pos hdirect, List.length_singleton]
    omega
  · rw [List.length_append] at hlength
    unfold lengthBytes
    rcases hwidth with rfl | rfl | rfl
    all_goals
      split_ifs
      all_goals
        simp only [List.length_cons, List.length_nil, length_littleEndian]
        omega

theorem readElement?_dataBytes (h : data.length < 2 ^ 32) (rest : List UInt8) :
    readElement? (dataBytes data ++ rest) = some (data, rest) := by
  rw [readElement?, dataBytes, List.append_assoc, readLength?_lengthBytes h]
  exact split?_append data rest

/-- An opcode that announces no length stands for the bytes of its number. -/
theorem readElement?_smallNumber {n : Int} {code : UInt8} (byte : UInt8) (hcode : ¬ code < pushData1)
    (hwidth : lengthWidth? code = none)
    (hread : readSmallNumber? (code :: rest) = some ([byte], rest))
    (hdenoted : ScriptNumber.denoted [byte] = n) (hn : n ≠ 0) :
    readElement? (code :: rest) = some (ScriptNumber.bytes n, rest) := by
  have hlength : readLength? (code :: rest) = none := by
    rw [readLength?, if_neg hcode, hwidth]
    rfl
  rw [readElement?, hlength, ScriptNumber.bytes_eq_singleton hdenoted hn]
  exact hread

theorem smallNumber_codes : ∀ k < 16,
    ¬ pushOne + UInt8.ofNat k < pushData1 ∧ lengthWidth? (pushOne + UInt8.ofNat k) = none ∧
      pushOne + UInt8.ofNat k ≠ pushMinusOne ∧
      (pushOne ≤ pushOne + UInt8.ofNat k ∧ pushOne + UInt8.ofNat k ≤ 0x60) ∧
      ScriptNumber.denoted [pushOne + UInt8.ofNat k - 0x50] = k + 1 := by
  decide

theorem length_bytes_lt {n : Int} (hlow : -2 ^ 63 ≤ n) (hhigh : n < 2 ^ 63) :
    (ScriptNumber.bytes n).length < 2 ^ 32 :=
  Nat.lt_of_le_of_lt (ScriptNumber.length_bytes_le hlow hhigh) (by decide)

theorem readElement?_integerBytes {n : Int} (hlow : -2 ^ 63 ≤ n) (hhigh : n < 2 ^ 63)
    (rest : List UInt8) :
    readElement? (integerBytes n ++ rest) = some (ScriptNumber.bytes n, rest) := by
  unfold integerBytes
  split_ifs with hzero hminus hsmall
  · rw [hzero, ScriptNumber.bytes_zero]
    have hempty : ([] : List UInt8).length < 2 ^ 32 := by decide
    exact readElement?_dataBytes hempty rest
  · exact readElement?_smallNumber 0x81 (by decide) rfl rfl (hminus ▸ rfl) hzero
  · obtain ⟨k, hk⟩ := Int.eq_ofNat_of_zero_le (Int.sub_nonneg_of_le hsmall.1)
    obtain ⟨hcode, hwidth, hne, hrange, hdenoted⟩ := smallNumber_codes k (by omega)
    rw [hk, Int.toNat_natCast, List.singleton_append]
    have hread : readSmallNumber? ((pushOne + UInt8.ofNat k) :: rest) =
        some ([pushOne + UInt8.ofNat k - 0x50], rest) := by
      rw [readSmallNumber?, if_neg hne, if_pos hrange]
    exact readElement?_smallNumber _ hcode hwidth hread (hdenoted.trans (by omega)) hzero
  · exact readElement?_dataBytes (length_bytes_lt hlow hhigh) rest

/-- The pushes of data, and the element that each of them leaves to be read. -/
inductive Push.Leaves : Push → List UInt8 → Prop
  | integer {n : Int} (hlow : -2 ^ 63 ≤ n) (hhigh : n < 2 ^ 63) :
      Leaves (.integer n) (ScriptNumber.bytes n)
  | number {n : Int} (hlow : -2 ^ 63 ≤ n) (hhigh : n < 2 ^ 63) :
      Leaves (.number n) (ScriptNumber.bytes n)
  | data {bytes : List UInt8} (hlength : bytes.length < 2 ^ 32) : Leaves (.data bytes) bytes

theorem Push.Leaves.readElement? {p : Push} {element : List UInt8} (h : p.Leaves element)
    (rest : List UInt8) : readElement? (p.bytes ++ rest) = some (element, rest) := by
  cases h with
  | integer hlow hhigh => exact readElement?_integerBytes hlow hhigh rest
  | number hlow hhigh => exact readElement?_dataBytes (length_bytes_lt hlow hhigh) rest
  | data hlength => exact readElement?_dataBytes hlength rest

theorem length_of_readElement? {element : List UInt8}
    (h : readElement? script = some (element, rest)) : rest.length < script.length := by
  unfold Script.readElement? at h
  split at h
  · next count tail hlength =>
    obtain ⟨-, htail⟩ := length_of_split? h
    rcases length_of_readLength? hlength with ⟨-, hscript⟩ | ⟨width, -, -, hscript⟩
    · omega
    · omega
  · cases script with
    | nil => cases h
    | cons code tail =>
      simp only [readSmallNumber?] at h
      split_ifs at h
      · cases h
        exact Nat.lt_succ_self _
      · cases h
        exact Nat.lt_succ_self _

/-- All elements of a script, if it is made of pushes to its end. -/
def elements? (script : List UInt8) : Option (List (List UInt8)) :=
  if script = [] then some []
  else
    match _ : readElement? script with
    | none => none
    | some (element, rest) => (elements? rest).map (element :: ·)
termination_by script.length
decreasing_by
  rename_i hread
  exact length_of_readElement? hread

theorem elements?_of_readElement? {element : List UInt8}
    (h : readElement? script = some (element, rest)) :
    elements? script = (elements? rest).map (element :: ·) := by
  have hne : script ≠ [] := by
    rintro rfl
    cases h
  rw [elements?, if_neg hne]
  split
  · next hnone =>
    rw [h] at hnone
    cases hnone
  · next element' rest' hsome =>
    rw [h] at hsome
    cases hsome
    rfl

theorem bytes_foldl_push (s : Script) (pushes : List Push) :
    (pushes.foldl push s).bytes = s.bytes ++ pushes.flatMap Push.bytes := by
  induction pushes generalizing s with
  | nil => exact (List.append_nil _).symm
  | cons p pushes ih =>
    rw [List.foldl_cons, ih, push, List.flatMap_cons, List.append_assoc]

theorem bytes_ofPushes (pushes : List Push) :
    (ofPushes pushes).bytes = pushes.flatMap Push.bytes :=
  bytes_foldl_push empty pushes

/-- Each push is read off the front, and leaves the forms of the pushes after it. -/
theorem elements?_flatMap {pushes : List Push} {elements : List (List UInt8)}
    (h : List.Forall₂ Push.Leaves pushes elements) :
    elements? (pushes.flatMap Push.bytes) = some elements := by
  induction h with
  | nil =>
    rw [List.flatMap_nil, elements?, if_pos rfl]
  | cons hleaves _ ih =>
    rw [List.flatMap_cons, elements?_of_readElement? (hleaves.readElement? _), ih, Option.map_some]

/-- A script that was built by pushes of integers and of data reads back as what was pushed, element
by element and to its end. The length before data is in a form that is read as this length, and no
form that is read so is shorter. -/
theorem pushed_elements_are_read_back :
    (∀ (pushes : List Push) (elements : List (List UInt8)),
      List.Forall₂ Push.Leaves pushes elements →
        elements? (ofPushes pushes).bytes = some elements) ∧
    ∀ data : List UInt8, data.length < 2 ^ 32 →
      ∃ form : List UInt8, (Push.data data).bytes = form ++ data ∧
        (∀ rest, readLength? (form ++ rest) = some (data.length, rest)) ∧
        ∀ other rest : List UInt8, readLength? (other ++ rest) = some (data.length, rest) →
          form.length ≤ other.length := by
  refine ⟨fun pushes elements h => ?_, fun data hlength => ?_⟩
  · rw [bytes_ofPushes]
    exact elements?_flatMap h
  · exact ⟨lengthBytes data.length, rfl, readLength?_lengthBytes hlength,
      fun _ _ => length_lengthBytes_le⟩

/-- Two pushes of one number, as an opcode and as data, around data made of opcodes for lengths; and
the first length that takes a field of two bytes. -/
theorem pushed_elements_are_read_back_around_opcodes :
    let pushes : List Push := [.integer (-1), .data [0x4e, 0x4c], .number (-1)]
    let elements : List (List UInt8) := [[0x81], [0x4e, 0x4c], [0x81]]
    let long : List UInt8 := List.replicate 256 0x4c
    List.Forall₂ Push.Leaves pushes elements ∧ elements? (ofPushes pushes).bytes = some elements ∧
      long.length < 2 ^ 32 ∧
      ∀ other rest : List UInt8, readLength? (other ++ rest) = some (256, rest) →
        3 ≤ other.length := by
  intro pushes elements long
  obtain ⟨hread, hshortest⟩ := pushed_elements_are_read_back
  have hbytes : ScriptNumber.bytes (-1) = [0x81] :=
    ScriptNumber.bytes_eq_singleton rfl (by decide)
  have hleaves : List.Forall₂ Push.Leaves pushes elements :=
    .cons (hbytes ▸ .integer (by decide) (by decide))
      (.cons (.data (by decide)) (.cons (hbytes ▸ .number (by decide) (by decide)) .nil))
  have hlong : long.length = 256 := List.length_replicate
  have hshort : long.length < 2 ^ 32 := hlong ▸ by decide
  refine ⟨hleaves, hread pushes elements hleaves, hshort, fun other rest hother => ?_⟩
  obtain ⟨form, hform, -, hleast⟩ := hshortest long hshort
  have hwritten : (Push.data long).bytes = lengthBytes 256 ++ long := by rw [← hlong]; rfl
  have hthree : form.length = 3 := by
    rw [List.append_cancel_right (hform.symm.trans hwritten)]
    rfl
  rw [← hthree]
  exact hleast other rest (hlong ▸ hother)

end PowConsensus.Script
