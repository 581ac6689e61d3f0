import PowConsensus.Proofs.Retarget.Eras
import PowConsensus.Proofs.Rules.Lookup

/-! # The order of the eras

A fork that has been reached stays reached, and the rank of the selected algorithm counts the eras
that some fork has ended. So the algorithms follow one another in one order, also under rules whose
fork heights are in no order; what such rules change is which algorithms are left out.
-/
namespace PowConsensus
namespace RetargetAlgorithm
variable {rules : RuleSet} {next later : UInt32}

/-- The algorithms of a chain that retargets, in the order of their eras. -/
def succession : List RetargetAlgorithm :=
  [.legacy, .kimotoGravityWell, .fork2Pause, .digiShield, .darkGravityWave]

def rank (algorithm : RetargetAlgorithm) : Nat := succession.idxOf algorithm

/-- A fork has been reached that ends the era of rank `k`. -/
def Ended (rules : RuleSet) (next : UInt32) : Nat → Prop
  | 0 => rules.fork1Height ≤ next ∨ rules.fork2Height ≤ next ∨ rules.fork4Height ≤ next
  | 1 => rules.fork2Height ≤ next ∨ rules.fork4Height ≤ next
  | 2 => rules.fork2Height < next ∨ rules.fork4Height ≤ next
  | 3 => rules.fork4Height ≤ next
  | _ => False

theorem Ended.mono {k : Nat} (h : Ended rules next k) (hle : next ≤ later) :
    Ended rules later k := by
  match k, h with
  | 0, h =>
    exact h.imp (UInt32.le_trans · hle) (.imp (UInt32.le_trans · hle) (UInt32.le_trans · hle))
  | 1, h => exact h.imp (UInt32.le_trans · hle) (UInt32.le_trans · hle)
  | 2, h => exact h.imp (UInt32.lt_of_lt_of_le · hle) (UInt32.le_trans · hle)
  | 3, h => exact UInt32.le_trans h hle

section Retargeting
variable (hretargets : rules.noRetargeting = false)
include hretargets

theorem Era.lt_rank_iff {algorithm : RetargetAlgorithm} (hera : Era rules next algorithm)
    (k : Nat) : k < rank algorithm ↔ Ended rules next k := by
  have hranks : rank .legacy = 0 ∧ rank .kimotoGravityWell = 1 ∧ rank .fork2Pause = 2 ∧
    rank .digiShield = 3 ∧ rank .darkGravityWave = 4 := by decide
  cases algorithm with
  | noRetarget => exact absurd (hretargets.symm.trans hera) Bool.false_ne_true
  | _ =>
    simp only [Era, UInt32.le_iff_toNat_le, UInt32.lt_iff_toNat_lt, ← UInt32.toNat_inj] at hera
    rcases k with _ | _ | _ | _ | k <;>
      simp only [Ended, UInt32.le_iff_toNat_le, UInt32.lt_iff_toNat_lt, iff_false] <;> omega

theorem rank_select_mono (hle : next ≤ later) :
    rank (select rules next) ≤ rank (select rules later) := by
  refine Nat.le_of_not_lt fun hlt => ?_
  have hended : Ended rules next (rank (select rules later)) :=
    ((era_select rules next).lt_rank_iff hretargets _).mp hlt
  exact Nat.lt_irrefl _ (((era_select rules later).lt_rank_iff hretargets _).mpr (hended.mono hle))

theorem select_mem_succession (next : UInt32) : select rules next ∈ succession := by
  have hera := era_select rules next
  cases hselect : select rules next with
  | noRetarget =>
    rw [hselect] at hera
    exact absurd (hretargets.symm.trans hera) Bool.false_ne_true
  | _ => decide

theorem select_eq_fork2Pause_iff :
    select rules next = .fork2Pause ↔
      next = rules.fork2Height ∧ rules.fork2Height < rules.fork4Height := by
  constructor
  · intro hselect
    obtain ⟨-, hbefore4, rfl⟩ := era_of_select hselect
    exact ⟨rfl, hbefore4⟩
  · rintro ⟨rfl, hbefore4⟩
    rw [select, if_neg (ne_true_of_eq_false hretargets), if_neg (UInt32.not_le.mpr hbefore4),
      if_neg (Nat.not_succ_le_self _), if_pos rfl]

end Retargeting

theorem select_main (next : UInt32) : select Network.mainRules[0] next =
    if next < 35000 then .legacy
    else if next ≤ 199999 then .kimotoGravityWell
    else if next = 200000 then .fork2Pause
    else if next ≤ 384999 then .digiShield
    else .darkGravityWave := by
  simp only [UInt32.lt_iff_toNat_lt, UInt32.le_iff_toNat_le, ← UInt32.toNat_inj,
    UInt32.reduceToNat]
  cases hselect : select Network.mainRules[0] next with
  | noRetarget => exact (era_main hselect).elim
  | legacy => rw [if_pos (era_main hselect)]
  | kimotoGravityWell =>
    obtain ⟨hlow, hhigh⟩ := era_main hselect
    rw [if_neg (by omega), if_pos (by omega)]
  | fork2Pause =>
    have hat : next.toNat = 200000 := era_main hselect
    rw [if_neg (by omega), if_neg (by omega), if_pos hat]
  | digiShield =>
    obtain ⟨hlow, hhigh⟩ := era_main hselect
    rw [if_neg (by omega), if_neg (by omega), if_neg (by omega), if_pos (by omega)]
  | darkGravityWave =>
    have hlow : 385000 ≤ next.toNat := era_main hselect
    rw [if_neg (by omega), if_neg (by omega), if_neg (by omega), if_neg (by omega)]

end RetargetAlgorithm

namespace Network

theorem get_main (height : UInt32) : main.rules.get height = mainRules[0] :=
  List.mem_singleton.mp (main.rules.get_inForce height).1

theorem get_test (height : UInt32) :
    (test.rules.get height).noRetargeting = false ∧ (test.rules.get height).fork4Height = 0 := by
  have hall : ∀ r ∈ testRules, r.noRetargeting = false ∧ r.fork4Height = 0 := by decide
  exact hall _ (test.rules.get_inForce height).1

theorem get_regtest (height : UInt32) : (regtest.rules.get height).noRetargeting = true := by
  have hall : ∀ r ∈ regtestRules, r.noRetargeting = true := by decide
  exact hall _ (regtest.rules.get_inForce height).1

end Network

open RetargetAlgorithm in
/-- Where there is retargeting, a later height never selects an algorithm of an earlier era, however
the fork heights lie; the pause is selected at the second fork alone, and there unless the fourth
has been reached. The networks select Dark Gravity Wave at every height (test), no algorithm at all
(regtest), and all five in turn (main). -/
theorem eras_never_go_back :
    (∀ rules : RuleSet, rules.noRetargeting = false →
      (∀ height, select rules height ∈ succession) ∧
      (∀ height later, height ≤ later →
        rank (select rules height) ≤ rank (select rules later)) ∧
      ∀ height, select rules height = .fork2Pause ↔
        height = rules.fork2Height ∧ rules.fork2Height < rules.fork4Height) ∧
    ∀ height : UInt32,
      select (Network.test.rules.get height) height = .darkGravityWave ∧
      select (Network.regtest.rules.get height) height = .noRetarget ∧
      select (Network.main.rules.get height) height =
        if height < 35000 then .legacy
        else if height ≤ 199999 then .kimotoGravityWell
        else if height = 200000 then .fork2Pause
        else if height ≤ 384999 then .digiShield
        else .darkGravityWave := by
  refine ⟨fun rules hretargets => ⟨select_mem_succession hretargets,
    fun _ _ => rank_select_mono hretargets, fun _ => select_eq_fork2Pause_iff hretargets⟩,
    fun height => ⟨?_, if_pos (Network.get_regtest height), ?_⟩⟩
  · obtain ⟨hretargets, hfork4⟩ := Network.get_test height
    have hreached : (Network.test.rules.get height).fork4Height ≤ height := by
      rw [hfork4, UInt32.le_iff_toNat_le]
      exact Nat.zero_le _
    rw [select, if_neg (ne_true_of_eq_false hretargets), if_pos hreached]
  · rw [Network.get_main]
    exact select_main height

open RetargetAlgorithm in
/-- Fork heights in no order: the fourth fork comes before the first, and the second at the largest
height of all, so that the legacy era is followed by the last one at once. -/
theorem eras_never_go_back_with_forks_out_of_order :
    let rules : RuleSet :=
      { Network.testBase with fork1Height := 500, fork2Height := 4294967295, fork4Height := 100 }
    rules.noRetargeting = false ∧ select rules 99 = .legacy ∧ select rules 100 = .darkGravityWave ∧
      rank (select rules 99) ≤ rank (select rules 4294967295) ∧
      select rules 4294967295 ≠ .fork2Pause := by
  intro rules
  obtain ⟨-, hmono, hpause⟩ := eras_never_go_back.1 rules rfl
  refine ⟨rfl, by decide, by decide, hmono 99 4294967295 (by decide), fun h => ?_⟩
  exact absurd ((hpause _).mp h).2 (by decide)

end PowConsensus
