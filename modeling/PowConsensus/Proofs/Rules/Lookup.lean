import Mathlib.Data.List.Chain
import PowConsensus.Network.Rules
import PowConsensus.Proofs.Machine.Settles
import PowConsensus.Rules.Checked

/-! # Rule lookup

The test of a table compares neighbours only, which is enough for all pairs as the order is
transitive. In a table in order the rule sets in force at a height are its first ones, so the search
stops right behind them, and as the table starts at height zero there is always one.
-/
namespace PowConsensus
open RuleStore (partitionPoint)

/-- Where `holds` is true of all places up to some one, the search finds how many these are. -/
theorem RuleStore.lt_partitionPoint_iff {holds : Nat → Bool}
    (hdown : ∀ i j, i ≤ j → holds j = true → holds i = true) {low high : Nat} (hle : low ≤ high)
    (hlow : ∀ i < low, holds i = true) (hhigh : ∀ i, high ≤ i → holds i = false) (i : Nat) :
    holds i = true ↔ i < partitionPoint holds low high := by
  fun_induction partitionPoint holds low high with
  | case1 low high hlt middle hmiddle ih =>
    exact ih (by omega) (fun i hi => hdown i middle (by omega) hmiddle) hhigh
  | case2 low high hlt middle hmiddle ih =>
    refine ih (by omega) hlow fun i hi => ?_
    by_contra hholds
    exact hmiddle (hdown middle i hi (by simpa using hholds))
  | case3 low high hge =>
    refine ⟨fun hholds => ?_, fun hi => hlow i hi⟩
    by_contra hi
    rw [hhigh i (by omega)] at hholds
    exact absurd hholds (by decide)

namespace RuleSet
variable {r : RuleSet} {ruleSets : List RuleSet}

theorem interval_pos_iff (hspacing : 0 < r.spacing) : 0 < r.interval ↔ r.spacing ≤ r.timespan := by
  refine ⟨fun hinterval => ?_, fun htimespan => Int.le_tdiv_of_mul_le hspacing (by omega)⟩
  by_contra htimespan
  have hle : r.interval ≤ (r.spacing - 1).tdiv r.spacing := Int.tdiv_le_tdiv hspacing (by omega)
  rw [Int.tdiv_eq_zero_of_lt (by omega) (by omega)] at hle
  omega

theorem wellTimed_iff : r.wellTimed = true ↔ 1 ≤ r.spacing ∧ r.spacing ≤ r.timespan := by
  rw [wellTimed, decide_eq_true_eq]
  exact and_congr_right interval_pos_iff

theorem disorder?_eq_none_iff_isChain :
    disorder? ruleSets = none ↔ ruleSets.IsChain (·.effectiveHeight < ·.effectiveHeight) := by
  fun_induction disorder? ruleSets with
  | case1 a b rest hlt ih => rw [ih, List.isChain_cons_cons, and_iff_right hlt]
  | case2 a b rest hge => simp [hge]
  | case3 ruleSets hshort =>
    match ruleSets with
    | [] | [_] => simp
    | a :: b :: rest => exact absurd rfl (hshort a b rest)

instance : Trans (fun a b : RuleSet => a.effectiveHeight < b.effectiveHeight)
    (fun a b : RuleSet => a.effectiveHeight < b.effectiveHeight)
    (fun a b : RuleSet => a.effectiveHeight < b.effectiveHeight) := ⟨UInt32.lt_trans⟩

theorem disorder?_eq_none_iff :
    disorder? ruleSets = none ↔ ruleSets.Pairwise (·.effectiveHeight < ·.effectiveHeight) :=
  disorder?_eq_none_iff_isChain.trans List.isChain_iff_pairwise

/-- What makes a table answer every height. -/
structure Admissible (ruleSets : List RuleSet) : Prop where
  nonempty : ruleSets ≠ []
  start : ∀ first ∈ ruleSets.head?, first.effectiveHeight = 0
  increasing : ruleSets.Pairwise (·.effectiveHeight < ·.effectiveHeight)
  timed : ∀ r ∈ ruleSets, 1 ≤ r.spacing ∧ r.spacing ≤ r.timespan

theorem tableFault?_eq_none_iff : tableFault? ruleSets = none ↔ Admissible ruleSets := by
  cases ruleSets with
  | nil => exact ⟨fun h => absurd h (by simp [tableFault?]), fun h => absurd rfl h.nonempty⟩
  | cons first rest =>
    have hnone : tableFault? (first :: rest) = none ↔ first.effectiveHeight = 0 ∧
        disorder? (first :: rest) = none ∧ ∀ r ∈ first :: rest, r.wellTimed = true := by
      rw [tableFault?]
      by_cases hstart : first.effectiveHeight = 0
      · cases hpair : disorder? (first :: rest) <;> simp [hstart]
      · simp [hstart]
    simp only [hnone, disorder?_eq_none_iff, wellTimed_iff]
    constructor
    · rintro ⟨hstart, hincreasing, htimed⟩
      refine ⟨List.cons_ne_nil _ _, fun head hhead => ?_, hincreasing, htimed⟩
      obtain rfl : first = head := Option.some.inj hhead
      exact hstart
    · intro h
      exact ⟨h.start first rfl, h.increasing, h.timed⟩

end RuleSet

namespace Checked

/-- The spacing is tested before it divides. -/
theorem wellTimed_settles (r : RuleSet) :
    Settles (wellTimed r) (0 < r.spacing ∧ ¬ IsWord r.interval) r.wellTimed := by
  unfold wellTimed RuleSet.wellTimed
  split
  · next hspacing =>
    have hinterval : Settles (interval r) (¬ IsWord r.interval) r.interval :=
      .quotient (Int.ne_of_gt hspacing)
    simp only [hspacing, true_and]
    exact hinterval.bind_ok rfl
  · next hspacing =>
    simp only [hspacing, false_and, decide_false]
    exact .of_eq rfl

/-- Only a timespan that is no word itself can overflow. -/
theorem badlyTimed?_settles (ruleSets : List RuleSet) : ∃ overflows : Prop,
    Settles (badlyTimed? ruleSets) overflows (ruleSets.find? (! ·.wellTimed)) ∧
      (overflows → ∃ r ∈ ruleSets, ¬ IsWord r.timespan) := by
  induction ruleSets with
  | nil => exact ⟨False, .of_eq rfl, False.elim⟩
  | cons r rest ih =>
    obtain ⟨overflows, hrest, hlong⟩ := ih
    have hr := wellTimed_settles r
    have hlarge (h : 0 < r.spacing ∧ ¬ IsWord r.interval) : ¬ IsWord r.timespan :=
      fun hword => h.2 (hword.tdiv h.1)
    rw [badlyTimed?, List.find?_cons]
    cases htimed : r.wellTimed with
    | true =>
      rw [htimed] at hr
      refine ⟨_, hr.bind fun _ => hrest, ?_⟩
      rintro (h | h)
      · exact ⟨r, List.mem_cons_self, hlarge h⟩
      · obtain ⟨other, hother, hword⟩ := hlong h
        exact ⟨other, List.mem_cons_of_mem _ hother, hword⟩
    | false =>
      rw [htimed] at hr
      exact ⟨_, hr.bind_ok rfl, fun h => ⟨r, List.mem_cons_self, hlarge h⟩⟩

theorem tableFault?_settles (ruleSets : List RuleSet) : ∃ overflows : Prop,
    Settles (tableFault? ruleSets) overflows (RuleSet.tableFault? ruleSets) ∧
      (overflows → ∃ r ∈ ruleSets, ¬ IsWord r.timespan) := by
  cases ruleSets with
  | nil => exact ⟨False, .of_eq rfl, False.elim⟩
  | cons first rest =>
    obtain ⟨overflows, htimed, hlong⟩ := badlyTimed?_settles (first :: rest)
    rw [tableFault?, RuleSet.tableFault?]
    split
    · exact ⟨False, .of_eq rfl, False.elim⟩
    · cases RuleSet.disorder? (first :: rest) with
      | some pair => exact ⟨False, .of_eq rfl, False.elim⟩
      | none => exact ⟨overflows, htimed.bind_ok rfl, hlong⟩

end Checked

namespace RuleStore
variable {store : RuleStore} {ruleSets : List RuleSet}

theorem admissible (store : RuleStore) : RuleSet.Admissible store.ruleSets :=
  RuleSet.tableFault?_eq_none_iff.mp store.faultless

theorem spacing_pos (store : RuleStore) {rules : RuleSet} (hmem : rules ∈ store.ruleSets) :
    0 < rules.spacing :=
  Int.add_one_le_iff.mp (store.admissible.timed rules hmem).1

theorem ruleSets_of_ofList (h : ofList ruleSets = .ok store) : store.ruleSets = ruleSets := by
  unfold ofList at h
  split at h
  · exact absurd h (by simp)
  · cases h
    rfl

theorem exists_ofList_iff : (∃ store, ofList ruleSets = .ok store) ↔
    RuleSet.Admissible ruleSets := by
  constructor
  · rintro ⟨store, h⟩
    exact ruleSets_of_ofList h ▸ store.admissible
  · intro h
    have hfaultless := RuleSet.tableFault?_eq_none_iff.mpr h
    unfold ofList
    split
    · next hfault => exact absurd (hfaultless.symm.trans hfault) (by simp)
    · exact ⟨_, rfl⟩

/-- How many rule sets are in force. -/
def reach (store : RuleStore) (height : UInt32) : Nat :=
  partitionPoint (store.inForce height) 0 store.ruleSets.length

theorem inForce_of_le {height : UInt32} {i j : Nat} (hle : i ≤ j)
    (h : store.inForce height j = true) : store.inForce height i = true := by
  rcases Nat.lt_or_eq_of_le hle with hlt | rfl
  · cases hj : store.ruleSets[j]? with
    | none => simp [inForce, hj] at h
    | some r =>
      simp only [inForce, hj, decide_eq_true_eq] at h
      obtain ⟨hjlt, rfl⟩ := List.getElem?_eq_some_iff.mp hj
      have hilt : i < store.ruleSets.length := hlt.trans hjlt
      have hearlier := List.pairwise_iff_getElem.mp store.admissible.increasing i j hilt hjlt hlt
      simpa [inForce, List.getElem?_eq_getElem hilt] using UInt32.le_trans (UInt32.le_of_lt hearlier) h
  · exact h

theorem inForce_iff (height : UInt32) (i : Nat) :
    store.inForce height i = true ↔ i < store.reach height :=
  lt_partitionPoint_iff (fun _ _ => inForce_of_le) (Nat.zero_le _) (fun _ hi => by omega)
    (fun _ hi => by simp [inForce, List.getElem?_eq_none hi]) i

theorem reach_pos (store : RuleStore) (height : UInt32) : 0 < store.reach height := by
  rw [← inForce_iff]
  have hstart := store.admissible.start
  cases hsets : store.ruleSets with
  | nil => exact absurd hsets store.admissible.nonempty
  | cons first rest =>
    have hzero : first.effectiveHeight = 0 := hstart first (by simp [hsets])
    simp [inForce, hsets, hzero]

theorem place_add_one (store : RuleStore) (height : UInt32) :
    store.place height + 1 = store.reach height := by
  have hpos := store.reach_pos height
  unfold place
  unfold reach at hpos ⊢
  omega

theorem getElem?_place (store : RuleStore) (height : UInt32) :
    store.ruleSets[store.place height]? = some (store.get height) :=
  List.getElem?_eq_getElem (store.place_lt height)

/-- The rule sets in force are the first ones. -/
theorem filter_inForce (store : RuleStore) (height : UInt32) :
    store.ruleSets.filter (·.effectiveHeight ≤ height) =
      store.ruleSets.take (store.reach height) := by
  have hforce (i : Nat) (hi : i < store.ruleSets.length) :
      store.ruleSets[i].effectiveHeight ≤ height ↔ i < store.reach height := by
    simp [← inForce_iff, inForce, List.getElem?_eq_getElem hi]
  have hfirst : ∀ r ∈ store.ruleSets.take (store.reach height), r.effectiveHeight ≤ height := by
    intro r hr
    obtain ⟨i, hi, rfl⟩ := List.mem_take_iff_getElem.mp hr
    exact (hforce i (by omega)).mpr (by omega)
  have hlast : ∀ r ∈ store.ruleSets.drop (store.reach height), ¬ r.effectiveHeight ≤ height := by
    intro r hr hle
    obtain ⟨i, hi, rfl⟩ := List.mem_drop_iff_getElem.mp hr
    have := (hforce _ (by omega)).mp hle
    omega
  calc store.ruleSets.filter (·.effectiveHeight ≤ height)
    _ = (store.ruleSets.take (store.reach height) ++
          store.ruleSets.drop (store.reach height)).filter (·.effectiveHeight ≤ height) := by
      rw [List.take_append_drop]
    _ = store.ruleSets.take (store.reach height) := by
      rw [List.filter_append, List.filter_eq_self.mpr (by simpa using hfirst),
        List.filter_eq_nil_iff.mpr (by simpa using hlast), List.append_nil]

/-- The search finds what a scan for the last rule set in force does. -/
theorem getLast?_filter (store : RuleStore) (height : UInt32) :
    (store.ruleSets.filter (·.effectiveHeight ≤ height)).getLast? = some (store.get height) := by
  rw [filter_inForce, ← place_add_one, List.getLast?_take, if_neg (Nat.succ_ne_zero _),
    Nat.add_sub_cancel, getElem?_place, Option.some_or]

theorem get_inForce (store : RuleStore) (height : UInt32) :
    store.get height ∈ store.ruleSets ∧ (store.get height).effectiveHeight ≤ height := by
  have hmem := List.mem_of_getLast? (store.getLast?_filter height)
  simpa using hmem

theorem effectiveHeight_lt_get {height : UInt32} {r : RuleSet} (hr : r ∈ store.ruleSets)
    (hle : r.effectiveHeight ≤ height) (hne : r ≠ store.get height) :
    r.effectiveHeight < (store.get height).effectiveHeight := by
  have hmem : r ∈ store.ruleSets.filter (·.effectiveHeight ≤ height) := by simp [hr, hle]
  obtain ⟨front, hfront⟩ := List.getLast?_eq_some_iff.mp (store.getLast?_filter height)
  have hincreasing : (front ++ [store.get height]).Pairwise (·.effectiveHeight < ·.effectiveHeight) :=
    hfront ▸ store.admissible.increasing.filter _
  rw [hfront, List.mem_append, List.mem_singleton] at hmem
  exact (List.pairwise_append.mp hincreasing).2.2 r (hmem.resolve_right hne) _ (by simp)

theorem get_mono {height later : UInt32} (hle : height ≤ later) :
    (store.get height).effectiveHeight ≤ (store.get later).effectiveHeight := by
  obtain ⟨hmem, hforce⟩ := store.get_inForce height
  by_cases hsame : store.get height = store.get later
  · rw [hsame]
    exact UInt32.le_refl _
  · exact UInt32.le_of_lt (effectiveHeight_lt_get hmem (UInt32.le_trans hforce hle) hsame)

end RuleStore

/-- Exactly the admissible tables are accepted, unchanged, and testing them divides by no zero and
is at no fault at all where timespans are signed 64-bit numbers. In an accepted table the search is
in bounds at every height and gives what a scan gives: the one rule set in force that is later than
all others in force. A later height never gets an earlier rule set. -/
theorem rule_lookup_is_scan_of_table :
    (∀ ruleSets : List RuleSet,
      ((∃ store, RuleStore.ofList ruleSets = .ok store) ↔ RuleSet.Admissible ruleSets) ∧
      (∀ store, RuleStore.ofList ruleSets = .ok store → store.ruleSets = ruleSets) ∧
      Checked.tableFault? ruleSets ≠ .error .zeroDivisor ∧
      ((∀ r ∈ ruleSets, Checked.IsWord r.timespan) →
        Checked.tableFault? ruleSets = .ok (RuleSet.tableFault? ruleSets))) ∧
    ∀ (store : RuleStore) (height : UInt32),
      let found := store.get height
      0 < store.reach height ∧ store.reach height - 1 < store.ruleSets.length ∧
      store.ruleSets[store.reach height - 1]? = some found ∧
      (store.ruleSets.filter (·.effectiveHeight ≤ height)).getLast? = some found ∧
      found.effectiveHeight ≤ height ∧
      (∀ r ∈ store.ruleSets, r.effectiveHeight ≤ height →
        r = found ∨ r.effectiveHeight < found.effectiveHeight) ∧
      ∀ later, height ≤ later → found.effectiveHeight ≤ (store.get later).effectiveHeight := by
  constructor
  · intro ruleSets
    obtain ⟨overflows, hsettles, hlong⟩ := Checked.tableFault?_settles ruleSets
    refine ⟨RuleStore.exists_ofList_iff, fun _ => RuleStore.ruleSets_of_ofList,
      hsettles.ne_zeroDivisor, fun hwords => hsettles.value fun h => ?_⟩
    obtain ⟨r, hr, hlarge⟩ := hlong h
    exact hlarge (hwords r hr)
  · intro store height found
    have hplace : store.reach height - 1 = store.place height := by
      rw [← store.place_add_one, Nat.add_sub_cancel]
    refine ⟨store.reach_pos height, ?_, ?_, store.getLast?_filter height,
      (store.get_inForce height).2, fun r hr hle => ?_, fun _ => RuleStore.get_mono⟩
    · rw [hplace]
      exact store.place_lt height
    · rw [hplace]
      exact store.getElem?_place height
    · by_cases hsame : r = found
      · exact Or.inl hsame
      · exact Or.inr (RuleStore.effectiveHeight_lt_get hr hle hsame)

/-- The test network: its table is accepted, and the block before a new rule set still has the one
before it. -/
theorem rule_lookup_is_scan_of_table_before_change :
    let rules := Network.testRules
    (∃ store, RuleStore.ofList rules = .ok store) ∧
      (∀ store, RuleStore.ofList rules = .ok store →
        store.get 157499 = Network.testDigiShield ∧
          (store.get 157499).effectiveHeight ≤ (store.get 157500).effectiveHeight) ∧
      (∀ r ∈ rules, Checked.IsWord r.timespan) ∧ Checked.tableFault? rules = .ok none := by
  intro rules
  obtain ⟨haccept, hkept, -, hchecked⟩ := rule_lookup_is_scan_of_table.1 rules
  have hwords : ∀ r ∈ rules, Checked.IsWord r.timespan := by decide
  refine ⟨haccept.mpr (RuleSet.tableFault?_eq_none_iff.mp (by decide)), fun store hstore => ?_,
    hwords, hchecked hwords⟩
  obtain ⟨-, -, -, hscan, -, -, hlater⟩ := rule_lookup_is_scan_of_table.2 store 157499
  refine ⟨?_, hlater 157500 (by decide)⟩
  rw [hkept store hstore] at hscan
  exact Option.some.inj (hscan.symm.trans rfl)

end PowConsensus
