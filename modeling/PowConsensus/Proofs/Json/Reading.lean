import PowConsensus.Proofs.Json.Scanning

/-! # Documents read back from their text

What is written for a document is cut into its tokens, and its tokens are read as the document
again, whatever follows. Both go by the parts of the document, and both take fuel enough for every
part from a length.
-/
namespace PowConsensus.Json

namespace Document

/-- Strings hold no control characters and no escapes, and numbers are natural numbers. -/
inductive Plain : Document → Prop
  | null : Plain .null
  | bool (b : Bool) : Plain (.bool b)
  | natural (n : Nat) : Plain (.natural n)
  | text {parts : List Part} : (∀ part ∈ parts, part.Plain) → Plain (.text parts)
  | array {items : List Document} : (∀ item ∈ items, Plain item) → Plain (.array items)
  | object {members : List (List Part × Document)} :
      (∀ m ∈ members, ∀ part ∈ m.1, part.Plain) → (∀ m ∈ members, Plain m.2) →
      Plain (.object members)

mutual

/-- The tokens that a document is written with. -/
def tokens : Document → List Token
  | .null => [.null]
  | .bool b => [.bool b]
  | .number literal => [.number literal]
  | .text parts => [.text parts]
  | .array items => .openBracket :: itemTokens items
  | .object members => .openBrace :: memberTokens members

/-- The tokens of the items and the closing bracket. -/
def itemTokens : List Document → List Token
  | [] => [.closeBracket]
  | [item] => tokens item ++ [.closeBracket]
  | item :: rest => tokens item ++ .comma :: itemTokens rest

/-- The tokens of the members and the closing brace. -/
def memberTokens : List (List Part × Document) → List Token
  | [] => [.closeBrace]
  | [(key, item)] => .text key :: .colon :: tokens item ++ [.closeBrace]
  | (key, item) :: rest => .text key :: .colon :: tokens item ++ .comma :: memberTokens rest

end

/-- The text of the document is cut into its tokens, if what follows ends a number. -/
def ScansBack (d : Document) : Prop :=
  ∀ cs ts, EndsNumber cs → Scans cs ts → Scans (d.render ++ cs) (d.tokens ++ ts)

theorem scans_renderItems {items : List Document} (hitems : ∀ item ∈ items, ScansBack item)
    {cs : List Char} {ts : List Token} (h : Scans cs ts) :
    Scans (renderItems items ++ cs) (itemTokens items ++ ts) := by
  have hclose : Scans (']' :: cs) (.closeBracket :: ts) := h.mark (by decide) rfl
  induction items with
  | nil => exact hclose
  | cons item items ih =>
    obtain ⟨hitem, hrest⟩ := List.forall_mem_cons.mp hitems
    cases items with
    | nil =>
      simp only [renderItems, itemTokens, List.append_assoc, List.singleton_append]
      exact hitem _ _ (.of_cons (by decide) _) hclose
    | cons next items =>
      have hcomma : Scans (',' :: (renderItems (next :: items) ++ cs))
          (.comma :: (itemTokens (next :: items) ++ ts)) := (ih hrest).mark (by decide) rfl
      simp only [renderItems, itemTokens, List.append_assoc, List.cons_append] at hcomma ⊢
      exact hitem _ _ (.of_cons (by decide) _) hcomma

theorem scans_renderMembers {members : List (List Part × Document)}
    (hkeys : ∀ m ∈ members, ∀ part ∈ m.1, part.Plain)
    (hmembers : ∀ m ∈ members, ScansBack m.2) {cs : List Char} {ts : List Token}
    (h : Scans cs ts) : Scans (renderMembers members ++ cs) (memberTokens members ++ ts) := by
  have hclose : Scans ('\x7d' :: cs) (.closeBrace :: ts) := h.mark (by decide) rfl
  induction members with
  | nil => exact hclose
  | cons m members ih =>
    obtain ⟨hkey, hkeys'⟩ := List.forall_mem_cons.mp hkeys
    obtain ⟨hitem, hrest⟩ := List.forall_mem_cons.mp hmembers
    obtain ⟨key, item⟩ := m
    cases members with
    | nil =>
      have hvalue := hitem _ _ (.of_cons (by decide) _) hclose
      have hcolon := hvalue.mark (c := ':') (by decide) rfl
      have htext := hcolon.text hkey
      simpa only [renderMembers, memberTokens, List.append_assoc, List.cons_append,
        List.nil_append] using htext
    | cons next members =>
      have hcomma := (ih hkeys' hrest).mark (c := ',') (by decide) rfl
      have hvalue := hitem _ _ (.of_cons (by decide) _) hcomma
      have hcolon := hvalue.mark (c := ':') (by decide) rfl
      have htext := hcolon.text hkey
      simpa only [renderMembers, memberTokens, List.append_assoc, List.cons_append] using htext

theorem Plain.scansBack {d : Document} (h : d.Plain) : d.ScansBack := by
  induction h with
  | null => exact fun cs ts _ h => h.cons (by decide) rfl (Nat.le_add_right _ 3)
  | bool b =>
    cases b with
    | true => exact fun cs ts _ h => h.cons (by decide) rfl (Nat.le_add_right _ 3)
    | false => exact fun cs ts _ h => h.cons (by decide) rfl (Nat.le_add_right _ 4)
  | natural n => exact fun cs ts hends h => h.number n hends
  | text hparts => exact fun cs ts _ h => h.text hparts
  | array _ ih => exact fun cs ts _ h => (scans_renderItems ih h).mark (by decide) rfl
  | object hkeys _ ih =>
    exact fun cs ts _ h => (scans_renderMembers hkeys ih h).mark (by decide) rfl

/-! ## From tokens to a document -/

theorem length_tokens_pos (d : Document) : 0 < d.tokens.length := by
  cases d <;> exact Nat.succ_pos _

/-- No document begins with a closing bracket, which would end an array before it. -/
theorem tokens_ne_closeBracket (d : Document) (ts : List Token) :
    ∀ rest, d.tokens ++ ts ≠ .closeBracket :: rest := by
  cases d <;> exact fun _ h => by cases h

/-- The tokens of the document are read back, given fuel for each token. -/
def ReadsBack (d : Document) : Prop :=
  ∀ fuel ts, d.tokens.length ≤ fuel → value? fuel (d.tokens ++ ts) = some (d, ts)

theorem items?_itemTokens {items : List Document} (hne : items ≠ [])
    (hitems : ∀ item ∈ items, ReadsBack item) (fuel : Nat) (ts : List Token)
    (hfuel : (itemTokens items).length ≤ fuel) :
    items? fuel (itemTokens items ++ ts) = some (items, ts) := by
  induction items generalizing fuel with
  | nil => exact absurd rfl hne
  | cons item items ih =>
    obtain ⟨hitem, hrest⟩ := List.forall_mem_cons.mp hitems
    have hpos := item.length_tokens_pos
    cases items with
    | nil =>
      simp only [itemTokens, List.length_append, List.length_singleton] at hfuel
      obtain ⟨fuel, rfl⟩ := Nat.exists_eq_add_one_of_ne_zero (show fuel ≠ 0 by omega)
      have hvalue := hitem fuel (.closeBracket :: ts) (by omega)
      simp only [itemTokens, List.append_assoc, List.singleton_append, items?, hvalue]
      rfl
    | cons next items =>
      simp only [itemTokens, List.length_append, List.length_cons] at hfuel
      obtain ⟨fuel, rfl⟩ := Nat.exists_eq_add_one_of_ne_zero (show fuel ≠ 0 by omega)
      have hvalue := hitem fuel (.comma :: (itemTokens (next :: items) ++ ts)) (by omega)
      have hnext := ih (List.cons_ne_nil _ _) hrest fuel (by omega)
      simp only [itemTokens, List.append_assoc, List.cons_append, items?] at hvalue hnext ⊢
      simp [hvalue, hnext]

theorem members?_memberTokens {members : List (List Part × Document)} (hne : members ≠ [])
    (hmembers : ∀ m ∈ members, ReadsBack m.2) (fuel : Nat) (ts : List Token)
    (hfuel : (memberTokens members).length ≤ fuel) :
    members? fuel (memberTokens members ++ ts) = some (members, ts) := by
  induction members generalizing fuel with
  | nil => exact absurd rfl hne
  | cons m members ih =>
    obtain ⟨key, item⟩ := m
    have hitem : item.ReadsBack := (List.forall_mem_cons.mp hmembers).1
    have hrest := (List.forall_mem_cons.mp hmembers).2
    have hpos := item.length_tokens_pos
    cases members with
    | nil =>
      simp only [memberTokens, List.cons_append, List.length_cons, List.length_append] at hfuel
      obtain ⟨fuel, rfl⟩ := Nat.exists_eq_add_one_of_ne_zero (show fuel ≠ 0 by omega)
      have hvalue := hitem fuel (.closeBrace :: ts) (by omega)
      simp [memberTokens, members?, hvalue]
    | cons next members =>
      simp only [memberTokens, List.cons_append, List.length_cons, List.length_append] at hfuel
      obtain ⟨fuel, rfl⟩ := Nat.exists_eq_add_one_of_ne_zero (show fuel ≠ 0 by omega)
      have hvalue := hitem fuel (.comma :: (memberTokens (next :: members) ++ ts)) (by omega)
      have hnext := ih (List.cons_ne_nil _ _) hrest fuel (by omega)
      simp [memberTokens, members?, hvalue, hnext]

theorem value?_openBracket (fuel : Nat) {ts : List Token} (h : ∀ rest, ts ≠ .closeBracket :: rest) :
    value? (fuel + 1) (.openBracket :: ts) =
      (items? fuel ts).map fun s => (.array s.1, s.2) := by
  rw [value?]
  · cases items? fuel ts <;> rfl
  · exact h

theorem value?_openBrace (fuel : Nat) {ts : List Token} (h : ∀ rest, ts ≠ .closeBrace :: rest) :
    value? (fuel + 1) (.openBrace :: ts) =
      (members? fuel ts).map fun s => (.object s.1, s.2) := by
  rw [value?]
  · cases members? fuel ts <;> rfl
  · exact h

theorem itemTokens_ne_closeBracket (item : Document) (items : List Document) (ts : List Token) :
    ∀ rest, itemTokens (item :: items) ++ ts ≠ .closeBracket :: rest := by
  cases items with
  | nil =>
    rw [itemTokens, List.append_assoc]
    exact item.tokens_ne_closeBracket _
  | cons next items =>
    simp only [itemTokens, List.append_assoc]
    exact item.tokens_ne_closeBracket _

theorem memberTokens_ne_closeBrace (m : List Part × Document)
    (members : List (List Part × Document)) (ts : List Token) :
    ∀ rest, memberTokens (m :: members) ++ ts ≠ .closeBrace :: rest := by
  cases members <;> exact fun _ h => by cases h

theorem Plain.readsBack {d : Document} (h : d.Plain) : d.ReadsBack := by
  induction h with
  | null | bool | natural | text =>
    intro fuel ts hfuel
    obtain ⟨fuel, rfl⟩ := Nat.exists_eq_add_one_of_ne_zero (Nat.ne_of_gt hfuel)
    rfl
  | @array items _ ih =>
    intro fuel ts hfuel
    obtain ⟨fuel, rfl⟩ := Nat.exists_eq_add_one_of_ne_zero
      (Nat.ne_of_gt (Nat.lt_of_lt_of_le (length_tokens_pos _) hfuel))
    cases items with
    | nil => rfl
    | cons item items =>
      have hitems := items?_itemTokens (List.cons_ne_nil item items) ih fuel ts
        (Nat.le_of_succ_le_succ hfuel)
      rw [tokens, List.cons_append, value?_openBracket fuel (itemTokens_ne_closeBracket _ _ _),
        hitems]
      rfl
  | @object members _ _ ih =>
    intro fuel ts hfuel
    obtain ⟨fuel, rfl⟩ := Nat.exists_eq_add_one_of_ne_zero
      (Nat.ne_of_gt (Nat.lt_of_lt_of_le (length_tokens_pos _) hfuel))
    cases members with
    | nil => rfl
    | cons m members =>
      have hmembers := members?_memberTokens (List.cons_ne_nil m members) ih fuel ts
        (Nat.le_of_succ_le_succ hfuel)
      rw [tokens, List.cons_append, value?_openBrace fuel (memberTokens_ne_closeBrace _ _ _),
        hmembers]
      rfl

theorem ofText?_render {d : Document} (h : d.Plain) :
    ofText? (String.ofList d.render) = some d := by
  have hscan : Token.ofText? d.render = some d.tokens := by
    have hall := h.scansBack [] [] (fun _ hc => by cases hc) .nil
    rw [List.append_nil, List.append_nil] at hall
    exact hall _ (Nat.le_refl _)
  have hread := h.readsBack (2 * d.tokens.length + 1) [] (by omega)
  rw [List.append_nil] at hread
  rw [ofText?, String.toList_ofList, hscan]
  simp only [Option.bind_eq_bind, Option.bind_some, ofTokens?, hread]

end Document
end PowConsensus.Json
