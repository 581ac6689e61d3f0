import PowConsensus.Rules.RuleSet

/-! # Rule stores

A rule store is a table of rule sets without a fault: it is not empty, starts at height zero, has
strictly increasing heights, and each set has a positive spacing and interval. `get` finds the
rule set in force at a height by binary search.
-/
namespace PowConsensus

namespace RuleSet

inductive TableFault where
  | empty
  | lateStart (height : UInt32)
  | notIncreasing (first second : UInt32)
  | badTiming (height : UInt32) (spacing timespan : Int)
  deriving DecidableEq, Repr

def TableFault.message : TableFault → String
  | .empty => "no rule-sets"
  | .lateStart height => s!"first rule-set takes effect at {height}, expected 0"
  | .notIncreasing first second =>
    s!"effective heights not strictly increasing: {first} then {second}"
  | .badTiming height spacing timespan =>
    s!"rule-set at {height} has spacing {spacing} and timespan {timespan}"

/-- The first two neighbours whose heights do not increase. -/
def disorder? : List RuleSet → Option (UInt32 × UInt32)
  | a :: b :: rest =>
    if a.effectiveHeight < b.effectiveHeight then disorder? (b :: rest)
    else some (a.effectiveHeight, b.effectiveHeight)
  | _ => none

def wellTimed (r : RuleSet) : Bool := 0 < r.spacing ∧ 0 < r.interval

/-- What is wrong with a table; the faults are looked for in this order. -/
def tableFault? : List RuleSet → Option TableFault
  | [] => some .empty
  | first :: rest =>
    if first.effectiveHeight ≠ 0 then some (.lateStart first.effectiveHeight)
    else match disorder? (first :: rest) with
      | some (a, b) => some (.notIncreasing a b)
      | none => ((first :: rest).find? (! ·.wellTimed)).map fun r =>
          .badTiming r.effectiveHeight r.spacing r.timespan

end RuleSet

structure RuleStore where
  ruleSets : List RuleSet
  faultless : RuleSet.tableFault? ruleSets = none

namespace RuleStore

def ofList (ruleSets : List RuleSet) : Except RuleSet.TableFault RuleStore :=
  match h : RuleSet.tableFault? ruleSets with
  | some fault => .error fault
  | none => .ok ⟨ruleSets, h⟩

theorem length_pos (s : RuleStore) : 0 < s.ruleSets.length := by
  obtain ⟨ruleSets, h⟩ := s
  cases ruleSets with
  | nil => simp [RuleSet.tableFault?] at h
  | cons => simp

/-- Binary search between `low` and `high` for the first place where `holds` fails. -/
def partitionPoint (holds : Nat → Bool) (low high : Nat) : Nat :=
  if low < high then
    let middle := (low + high) / 2
    if holds middle then partitionPoint holds (middle + 1) high
    else partitionPoint holds low middle
  else low
termination_by high - low
decreasing_by all_goals omega

theorem partitionPoint_le (holds : Nat → Bool) (low high : Nat) (h : low ≤ high) :
    partitionPoint holds low high ≤ high := by
  fun_induction partitionPoint holds low high <;> omega

def inForce (s : RuleStore) (height : UInt32) (place : Nat) : Bool :=
  match s.ruleSets[place]? with
  | some r => r.effectiveHeight ≤ height
  | none => false

/-- Place of the last rule set in force at `height`. -/
def place (s : RuleStore) (height : UInt32) : Nat :=
  partitionPoint (s.inForce height) 0 s.ruleSets.length - 1

theorem place_lt (s : RuleStore) (height : UInt32) : s.place height < s.ruleSets.length := by
  have h := partitionPoint_le (s.inForce height) 0 s.ruleSets.length (Nat.zero_le _)
  have := s.length_pos
  unfold place
  omega

def get (s : RuleStore) (height : UInt32) : RuleSet :=
  s.ruleSets.get ⟨s.place height, s.place_lt height⟩

end RuleStore
end PowConsensus
