import PowConsensus.Checked
import PowConsensus.Rules.RuleStore

/-! # Testing a table in checked arithmetic

The interval of a rule set is a quotient of seconds, which a table of rules is tested for. A set
without a positive spacing is badly timed already, and its interval is not computed.
-/
namespace PowConsensus.Checked
open RuleSet (TableFault disorder?)

def interval (rules : RuleSet) : Checked Int := quotient rules.timespan rules.spacing

theorem interval_eq {rules : RuleSet} (hspacing : 0 < rules.spacing)
    (hword : IsWord rules.timespan) : interval rules = .ok rules.interval :=
  quotient_of_pos hspacing hword

def wellTimed (rules : RuleSet) : Checked Bool :=
  if 0 < rules.spacing then do
    let interval ← interval rules
    return 0 < interval
  else return false

def badlyTimed? : List RuleSet → Checked (Option RuleSet)
  | [] => return none
  | rules :: rest => do
    let timed ← wellTimed rules
    if timed then badlyTimed? rest else return some rules

def tableFault? : List RuleSet → Checked (Option TableFault)
  | [] => return some .empty
  | first :: rest =>
    if first.effectiveHeight ≠ 0 then return some (.lateStart first.effectiveHeight)
    else match disorder? (first :: rest) with
      | some (a, b) => return some (.notIncreasing a b)
      | none => do
        let bad ← badlyTimed? (first :: rest)
        return bad.map fun r => .badTiming r.effectiveHeight r.spacing r.timespan

end PowConsensus.Checked
