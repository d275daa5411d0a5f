import Aperod.Lib.CarriedDivision
import Aperod.Lpod.Accounting
import Aperod.Lpod.Ledger

/-!
# Settlement is the exact ledger, and rounding loses nothing

`Settle` computes with 64-bit numbers.  Where no exact sum or quotient exceeds them (`NoOverflow`)
it is the exact ledger (`settle_conserves`).

Over a run of settlements the carried remainders make up for the rounding of every division
(`rounding_conserved`).
-/

namespace Aperod.Lpod

open Go Lib CarriedDivision Carry List

variable {s s' : State} {c c' : Carry} {t : Tier} {v : Vault} {f : Flow}
variable {l : Ledger} {balance carry divisor due residual : UInt64}

/-! ### Arithmetic -/

variable {a b n q r total height : UInt64} {id : Bytes} {p : State × Carries × List Flow}

theorem add_eq_ok : add a b = .ok n ↔ n.toNat = a.toNat + b.toNat := addOr_eq_ok

theorem exists_add_eq_ok (h : a.toNat + b.toNat < 2 ^ 64) :
    ∃ n, add a b = .ok n ∧ n.toNat = a.toNat + b.toNat := exists_addOr_eq_ok h

theorem rational_eq_ok (h : rational a b n carry divisor = .ok (q, r))
    (hd : 0 < divisor.toNat) :
    q.toNat = quotient divisor.toNat carry.toNat (a.toNat * b.toNat * n.toNat) ∧
      r.toNat = remainder divisor.toNat carry.toNat
        (a.toNat * b.toNat * n.toNat) := by
  unfold rational at h
  dsimp only at h
  split_ifs at h with hlt
  · cases h
    have hrem := Nat.mod_lt (a.toNat * b.toNat * n.toNat + carry.toNat) hd
    have hdiv := divisor.toNat_lt
    exact ⟨UInt64.toNat_ofNat_of_lt' hlt, UInt64.toNat_ofNat_of_lt' (hrem.trans hdiv)⟩
  · cases h

theorem exists_rational_eq_ok
    (h : quotient divisor.toNat carry.toNat (a.toNat * b.toNat * n.toNat) < 2 ^ 64)
    :
    ∃ p, rational a b n carry divisor = .ok p := by
  exact ⟨_, if_pos h⟩

/-! ### Tiers -/

theorem mem_tiers_of_tierFor (h : tierFor total = .ok t) : t ∈ tiers := by
  unfold tierFor at h
  split_ifs at h
  · cases h
  · split at h
    · rename_i t' hfind
      cases h
      exact mem_reverse.mp (mem_of_find?_eq_some hfind)
    · cases h

theorem tierFor_leaderPercent (h : tierFor total = .ok t) : t.leaderPercent.toNat ≤ 100 := by
  have hall : ∀ t ∈ tiers, t.leaderPercent.toNat ≤ 100 := by decide
  exact hall t (mem_tiers_of_tierFor h)

theorem exists_tierFor_eq_ok (hmin : minVault ≤ total) (hmax : total ≤ maxVault) :
    ∃ t, tierFor total = .ok t := by
  unfold tierFor
  rw [if_neg]
  · have hfirst : ∃ t ∈ tiers.reverse, t.threshold ≤ total :=
      ⟨⟨minVault, 100 * unit, 8, 3⟩, by decide, hmin⟩
    obtain ⟨t, hmem, hle⟩ := hfirst
    cases hfind : tiers.reverse.find? fun t => decide (t.threshold ≤ total) with
    | some t => exact ⟨t, rfl⟩
    | none =>
      have hnone := find?_eq_none.mp hfind t hmem
      exact absurd hle (by simpa using hnone)
  · rintro (hlt | hgt)
    · exact absurd hmin (UInt64.not_le.mpr hlt)
    · exact absurd hmax (UInt64.not_le.mpr hgt)

def Vault.tier (v : Vault) : Tier := (tierFor v.totalStake).toOption.getD ⟨0, 0, 0, 0⟩

theorem Vault.tier_of_tierFor (h : tierFor v.totalStake = .ok t) : v.tier = t := by
  unfold Vault.tier
  rw [h]
  rfl

/-! ### The exact ledger -/

/-- The totals of a checkpoint. -/
def State.ledger (s : State) : Ledger where
  balance := s.balance.toNat
  rewardInflow := s.rewardInflow.toNat
  leaderPaid := s.leaderPaid.toNat
  angelPaid := s.angelPaid.toNat
  surplusInflow := s.surplusInflow.toNat
  deficitOutflow := s.deficitOutflow.toNat
  unfundedLiability := s.unfundedLiability.toNat
  accruedLiability := s.accruedLiability.toNat

/-- The totals fit 64 bits. -/
structure Ledger.Bounded (l : Ledger) : Prop where
  balance : l.balance < 2 ^ 64
  rewardInflow : l.rewardInflow < 2 ^ 64
  leaderPaid : l.leaderPaid < 2 ^ 64
  angelPaid : l.angelPaid < 2 ^ 64
  surplusInflow : l.surplusInflow < 2 ^ 64
  deficitOutflow : l.deficitOutflow < 2 ^ 64
  unfundedLiability : l.unfundedLiability < 2 ^ 64
  accruedLiability : l.accruedLiability < 2 ^ 64

/-- What a vault accrues at the rate of its tier. -/
def Vault.rate (v : Vault) (c : Carry) (t : Tier) : ℕ :=
  quotient denominator.toNat c.apr.toNat
    (v.guardianStake.toNat * t.aprPercent.toNat * v.elapsedSeconds.toNat)

/-- What a vault brings and asks for, in exact numbers. -/
def Vault.demand (v : Vault) (c : Carry) (t : Tier) : Demand where
  income := v.actualIncome.toNat
  leader := quotient 100 c.leader.toNat
    (v.actualIncome.toNat * t.leaderPercent.toNat)
  accrual := (v.exactAccrual.map UInt64.toNat).getD (v.rate c t)
  arrears := v.arrears.toNat

theorem denominator_pos : 0 < denominator.toNat := by decide

theorem validate_eq_ok : s.validate = .ok () ↔
    s.fundingDebit = initialNAPRO ∧ s.ledger.Conserves initialNAPRO.toNat ∧
      initialNAPRO.toNat + s.rewardInflow.toNat < 2 ^ 64 ∧
      initialNAPRO.toNat + s.surplusInflow.toNat < 2 ^ 64 := by
  unfold State.validate
  simp only [bind_eq_ok, failIf_eq_ok, add_eq_ok, not_not, not_or, exists_const]
  constructor
  · rintro ⟨hfund, left, hleft, right1, hright1, right, hright, rfl, available, havail,
      ⟨hge, hbal⟩, liability, hliab, rfl⟩
    rw [hfund] at hleft havail
    have hle : s.deficitOutflow.toNat ≤ available.toNat := by
      rw [UInt64.lt_iff_toNat_lt] at hge
      omega
    have hbal : available.toNat - s.deficitOutflow.toNat = s.balance.toNat := by
      rw [← hbal, toNat_sub hle]
    have hl := left.toNat_lt
    have ha := available.toNat_lt
    refine ⟨hfund, ⟨?_, ?_, ?_⟩, by omega, by omega⟩
    · show initialNAPRO.toNat + s.rewardInflow.toNat = s.balance.toNat + s.leaderPaid.toNat + s.angelPaid.toNat
      omega
    · show initialNAPRO.toNat + s.surplusInflow.toNat = s.balance.toNat + s.deficitOutflow.toNat
      omega
    · exact hliab.symm
  · rintro ⟨hfund, hcons, hreward, hsurplus⟩
    have hincome : initialNAPRO.toNat + s.rewardInflow.toNat =
      s.balance.toNat + s.leaderPaid.toNat + s.angelPaid.toNat := hcons.income
    have hreserve : initialNAPRO.toNat + s.surplusInflow.toNat =
      s.balance.toNat + s.deficitOutflow.toNat := hcons.reserve
    have hliability : s.angelPaid.toNat + s.unfundedLiability.toNat = s.accruedLiability.toNat :=
      hcons.liability
    rw [hfund]
    obtain ⟨left, -, hleft⟩ := exists_add_eq_ok hreward
    obtain ⟨right1, -, hright1⟩ := exists_add_eq_ok (a := s.balance) (b := s.leaderPaid) (by omega)
    obtain ⟨available, -, havail⟩ := exists_add_eq_ok hsurplus
    have hle : s.deficitOutflow.toNat ≤ available.toNat := by omega
    refine ⟨rfl, left, hleft, right1, hright1, left, by omega, rfl, available, havail, ⟨?_, ?_⟩,
      s.accruedLiability, hliability.symm, rfl⟩
    · rw [UInt64.lt_iff_toNat_lt]
      omega
    · apply UInt64.toNat_inj.mp
      rw [toNat_sub hle]
      omega

/-! ### One vault -/

theorem splitResidual_spec {p : Split}
    (h : splitResidual balance residual due = .ok p) :
    p.surplus.toNat = residual.toNat - due.toNat ∧
      p.deficit.toNat = min (due.toNat - residual.toNat) balance.toNat ∧
      p.balance.toNat + p.deficit.toNat = balance.toNat + p.surplus.toNat ∧
      p.paid.toNat = min due.toNat (residual.toNat + balance.toNat) ∧
      p.missing.toNat = due.toNat - p.paid.toNat := by
  have hdue := due.toNat_lt
  unfold splitResidual at h
  split_ifs at h with hge
  · rw [ge_iff_le, UInt64.le_iff_toNat_le] at hge
    obtain ⟨n, hn, h⟩ := unbind h
    rw [add_eq_ok, toNat_sub hge] at hn
    cases h
    refine ⟨toNat_sub hge, ?_, ?_, ?_, ?_⟩
    · show (0 : UInt64).toNat = _
      rw [UInt64.toNat_zero]
      omega
    · show n.toNat + (0 : UInt64).toNat = balance.toNat + (residual - due).toNat
      rw [UInt64.toNat_zero, toNat_sub hge]
      omega
    · show due.toNat = _
      omega
    · show (0 : UInt64).toNat = due.toNat - due.toNat
      rw [UInt64.toNat_zero]
      omega
  · rw [ge_iff_le, UInt64.le_iff_toNat_le] at hge
    cases h
    have hshort : (due - residual).toNat = due.toNat - residual.toNat := toNat_sub (by omega)
    -- the deficit is the smaller of the shortfall and the balance
    have hdef : (if due - residual > balance then balance else due - residual).toNat =
        min (due.toNat - residual.toNat) balance.toNat := by
      split_ifs with hgt
      all_goals rw [gt_iff_lt, UInt64.lt_iff_toNat_lt, hshort] at hgt
      · omega
      · omega
    have hpaid : (residual + if due - residual > balance then balance else due - residual).toNat =
        min due.toNat (residual.toNat + balance.toNat) := by
      rw [UInt64.toNat_add]
      omega
    refine ⟨?_, hdef, ?_, hpaid, ?_⟩
    · show (0 : UInt64).toNat = _
      rw [UInt64.toNat_zero]
      omega
    · show (balance - if due - residual > balance then balance else due - residual).toNat +
        (if due - residual > balance then balance else due - residual).toNat =
          balance.toNat + (0 : UInt64).toNat
      rw [toNat_sub (by omega), UInt64.toNat_zero]
      omega
    · exact toNat_sub (by omega)

theorem exists_splitResidual_eq_ok (h : balance.toNat + (residual.toNat - due.toNat) < 2 ^ 64) :
    ∃ p, splitResidual balance residual due = .ok p := by
  unfold splitResidual
  split_ifs with hge
  · rw [ge_iff_le, UInt64.le_iff_toNat_le] at hge
    rw [← toNat_sub hge] at h
    obtain ⟨n, hn, -⟩ := exists_add_eq_ok h
    rw [hn]
    exact ⟨_, rfl⟩
  · exact ⟨_, rfl⟩

/-- What `settleVault` computes: the remainders, and the flow in exact numbers. -/
structure Booked (s : State) (c : Carry) (t : Tier) (v : Vault) (s' : State) (c' : Carry) (f : Flow) :
    Prop where
  vaultID : f.vaultID = v.id
  leader : f.leader.toNat = (v.demand c t).leader
  accrual : f.accrual.toNat = (v.demand c t).accrual
  surplus : f.surplus.toNat = (v.demand c t).surplus
  deficit : f.deficit.toNat = (v.demand c t).deficit s.balance.toNat
  angels : f.angels.toNat = (v.demand c t).paid s.balance.toNat
  unfunded : f.unfunded.toNat = (v.demand c t).missing s.balance.toNat
  admits : s.ledger.Admits (v.demand c t)
  ledger : s'.ledger = s.ledger.settle (v.demand c t)
  leaderCarry : c'.leader.toNat = remainder 100 c.leader.toNat
    (v.actualIncome.toNat * t.leaderPercent.toNat)
  aprCarry : c'.apr.toNat = if v.exactAccrual.isSome then c.apr.toNat else
    remainder denominator.toNat c.apr.toNat
      (v.guardianStake.toNat * t.aprPercent.toNat * v.elapsedSeconds.toNat)
  fundingDebit : s'.fundingDebit = s.fundingDebit
  lastHeight : s'.lastHeight = s.lastHeight

theorem demand_leader_le (hc : c.leader.toNat < 100) (ht : t.leaderPercent.toNat ≤ 100) :
    (v.demand c t).leader ≤ (v.demand c t).income := quotient_le ht hc

theorem demand_leader_eq (h : rational v.actualIncome t.leaderPercent 1 c.leader 100 = .ok (q, r)) :
    q.toNat = (v.demand c t).leader ∧ r.toNat = remainder 100 c.leader.toNat
      (v.actualIncome.toNat * t.leaderPercent.toNat) := by
  have hspec := rational_eq_ok h (by decide)
  have hone : (1 : UInt64).toNat = 1 := rfl
  rw [hone, Nat.mul_one] at hspec
  exact hspec

theorem demand_accrual_eq
    (h : rational v.guardianStake t.aprPercent v.elapsedSeconds c.apr denominator = .ok (q, r)) :
    (v.exactAccrual.getD q).toNat = (v.demand c t).accrual ∧
      r.toNat = remainder denominator.toNat c.apr.toNat
        (v.guardianStake.toNat * t.aprPercent.toNat * v.elapsedSeconds.toNat) := by
  obtain ⟨hq, hr⟩ := rational_eq_ok h denominator_pos
  refine ⟨?_, hr⟩
  show _ = (v.exactAccrual.map UInt64.toNat).getD (v.rate c t)
  cases v.exactAccrual with
  | none => exact hq
  | some n => rfl

theorem demand_residual_eq (hq : q.toNat = (v.demand c t).leader)
    (hle : (v.demand c t).leader ≤ v.actualIncome.toNat) :
    (v.actualIncome - q).toNat = (v.demand c t).residual := by
  rw [toNat_sub (hq ▸ hle), hq]
  rfl

theorem settleVault_booked (h : settleVault s c t v = .ok (s', c', f)) (hc : c.leader.toNat < 100)
    (ht : t.leaderPercent.toNat ≤ 100) : Booked s c t v s' c' f := by
  obtain ⟨⟨leader, leaderRem⟩, hleader, h⟩ := unbind h
  obtain ⟨⟨rate, rateRem⟩, hrate, h⟩ := unbind h
  obtain ⟨⟨⟩, harrears, h⟩ := unbind h
  obtain ⟨due, hdue, h⟩ := unbind h
  obtain ⟨p, hsplit, h⟩ := unbind h
  obtain ⟨reward, hreward, h⟩ := unbind h
  obtain ⟨leaderPaid, hleaderPaid, h⟩ := unbind h
  obtain ⟨angelPaid, hangelPaid, h⟩ := unbind h
  obtain ⟨unfunded, hunfunded, h⟩ := unbind h
  obtain ⟨accrued, haccrued, h⟩ := unbind h
  obtain ⟨surplus, hsurplus, h⟩ := unbind h
  obtain ⟨deficit, hdeficit, h⟩ := unbind h
  cases h
  rw [add_eq_ok] at hdue hreward hleaderPaid hangelPaid hunfunded haccrued hsurplus hdeficit
  rw [failIf_eq_ok, gt_iff_lt, UInt64.lt_iff_toNat_lt, not_lt] at harrears
  obtain ⟨hleader, hleaderRem⟩ := demand_leader_eq hleader
  obtain ⟨haccrual, hrateRem⟩ := demand_accrual_eq hrate
  have hdue : due.toNat = (v.demand c t).due := by
    rw [hdue, haccrual]
    rfl
  have hresidual := demand_residual_eq hleader (demand_leader_le hc ht)
  obtain ⟨hp1, hp2, hp3, hp4, hp5⟩ := splitResidual_spec hsplit
  rw [hresidual, hdue] at hp1 hp2 hp4
  rw [hdue] at hp5
  refine ⟨rfl, hleader, haccrual, hp1, hp2, hp4, ?_, ⟨demand_leader_le hc ht, harrears⟩, ?_,
    hleaderRem, ?_, rfl, rfl⟩
  · show p.missing.toNat = _
    rw [hp5, hp4]
    rfl
  · unfold State.ledger Ledger.settle
    rw [hreward, hleaderPaid, hangelPaid, hsurplus, hdeficit, hunfunded, haccrued, hleader, hp5,
      haccrual, hp4, toNat_sub harrears]
    have hbalance : p.balance.toNat = s.balance.toNat + (v.demand c t).surplus -
        (v.demand c t).deficit s.balance.toNat := by
      show _ = s.balance.toNat + ((v.demand c t).residual - (v.demand c t).due) -
        min ((v.demand c t).due - (v.demand c t).residual) s.balance.toNat
      omega
    rw [hbalance, hp1, hp2]
    rfl
  · show (if v.exactAccrual.isSome then c.apr else rateRem).toNat = _
    split_ifs
    · rfl
    · exact hrateRem

theorem exists_leader_eq_ok (hle : (v.demand c t).leader ≤ (v.demand c t).income) :
    ∃ p, rational v.actualIncome t.leaderPercent 1 c.leader 100 = .ok p := by
  apply exists_rational_eq_ok
  have hone : (1 : UInt64).toNat = 1 := rfl
  rw [hone, Nat.mul_one]
  exact lt_of_le_of_lt hle v.actualIncome.toNat_lt

/-- The exact sums and quotients of one vault fit 64 bits. -/
structure Vault.Fits (v : Vault) (c : Carry) (t : Tier) (l : Ledger) : Prop where
  rate : v.rate c t < 2 ^ 64
  due : (v.demand c t).due < 2 ^ 64
  ledger : (l.settle (v.demand c t)).Bounded

theorem exists_settleVault_eq_ok (had : s.ledger.Admits (v.demand c t)) (hfit : v.Fits c t s.ledger) :
    ∃ r, settleVault s c t v = .ok r := by
  have hbound := hfit.ledger
  have hle : (v.demand c t).leader ≤ v.actualIncome.toNat := had.leader_le
  have harrears : v.arrears.toNat ≤ s.unfundedLiability.toNat := had.arrears_le
  obtain ⟨⟨leader, leaderRem⟩, hleaderOk⟩ := exists_leader_eq_ok had.leader_le
  obtain ⟨⟨rate, rateRem⟩, hrateOk⟩ : ∃ p, rational v.guardianStake t.aprPercent v.elapsedSeconds c.apr
      denominator = .ok p := exists_rational_eq_ok hfit.rate
  obtain ⟨hleader, -⟩ := demand_leader_eq hleaderOk
  obtain ⟨haccrual, -⟩ := demand_accrual_eq hrateOk
  obtain ⟨due, hdueOk, hdue⟩ := exists_add_eq_ok (b := v.arrears) (by
    rw [haccrual]
    exact hfit.due)
  have hdue : due.toNat = (v.demand c t).due := by
    rw [hdue, haccrual]
    rfl
  have hresidual := demand_residual_eq hleader hle
  obtain ⟨p, hsplitOk⟩ : ∃ p, splitResidual s.balance (v.actualIncome - leader) due = .ok p := by
    apply exists_splitResidual_eq_ok
    have hb : s.balance.toNat + ((v.demand c t).residual - (v.demand c t).due) -
      min ((v.demand c t).due - (v.demand c t).residual) s.balance.toNat < 2 ^ 64 := hbound.balance
    have hs := s.balance.toNat_lt
    omega
  obtain ⟨hp1, hp2, -, hp4, hp5⟩ := splitResidual_spec hsplitOk
  rw [hresidual, hdue] at hp1 hp2 hp4
  rw [hdue, hp4] at hp5
  obtain ⟨reward, hreward, -⟩ := exists_add_eq_ok
    hbound.rewardInflow
  obtain ⟨leaderPaid, hleaderPaid, -⟩ := exists_add_eq_ok (a := s.leaderPaid) (by
    rw [hleader]
    exact hbound.leaderPaid)
  obtain ⟨angelPaid, hangelPaid, -⟩ := exists_add_eq_ok (a := s.angelPaid) (by
    rw [hp4]
    exact hbound.angelPaid)
  obtain ⟨unfunded, hunfunded, -⟩ := exists_add_eq_ok
    (b := p.missing) (by
      rw [toNat_sub harrears, hp5]
      exact hbound.unfundedLiability)
  obtain ⟨accrued, haccrued, -⟩ := exists_add_eq_ok (a := s.accruedLiability)
    (by
      rw [haccrual]
      exact hbound.accruedLiability)
  obtain ⟨surplus, hsurplus, -⟩ := exists_add_eq_ok (a := s.surplusInflow) (by
    rw [hp1]
    exact hbound.surplusInflow)
  obtain ⟨deficit, hdeficit, -⟩ := exists_add_eq_ok (a := s.deficitOutflow) (by
    rw [hp2]
    exact hbound.deficitOutflow)
  have hcheck : failIf (v.arrears > s.unfundedLiability) "lpod: arrears exceed outstanding liability" =
      .ok () := by
    rw [failIf_eq_ok, gt_iff_lt, UInt64.lt_iff_toNat_lt]
    omega
  exact ⟨_, bind_ok hleaderOk <| bind_ok hrateOk <| pass hcheck <|
    bind_ok hdueOk <| bind_ok hsplitOk <| bind_ok hreward <|
    bind_ok hleaderPaid <| bind_ok hangelPaid <|
    bind_ok hunfunded <| bind_ok haccrued <|
    bind_ok hsurplus <| bind_ok hdeficit rfl⟩

/-! ### All vaults -/

variable {out out' carries : Carries} {prev : Option Bytes} {vs : List Vault} {fs : List Flow}

/-- The carry of a vault; a vault without one starts with nothing. -/
def carryOf (m : Carries) (id : Bytes) : Carry := (m.get id).getD {}

theorem carry_valid_iff : c.valid id = true ↔
    id ≠ [] ∧ c.apr.toNat < denominator.toNat ∧ c.leader.toNat < 100 := by
  unfold valid
  simp only [Bool.not_eq_true', Bool.or_eq_false_iff, isEmpty_eq_false_iff,
    decide_eq_false_iff_not, ge_iff_le, UInt64.le_iff_toNat_le, not_le, and_assoc]
  rfl

theorem carryOf_lt (h : out.all valid = true) (id : Bytes) :
    (carryOf out id).apr.toNat < denominator.toNat ∧ (carryOf out id).leader.toNat < 100 := by
  unfold carryOf
  cases hget : out.get id with
  | none => exact ⟨denominator_pos, by decide⟩
  | some c => exact (carry_valid_iff.mp (GoMap.all_eq_true.mp h id c hget)).2

theorem carryOf_set (m : Carries) (id id' : Bytes) (c : Carry) :
    carryOf (m.set id c) id' = if id' = id then c else carryOf m id' := by
  unfold carryOf
  rw [GoMap.get_set]
  split_ifs <;> rfl

theorem Booked.carry_valid (h : Booked s c t v s' c' f) (hid : v.id ≠ [])
    (hc : c.apr.toNat < denominator.toNat) : c'.valid v.id = true := by
  rw [carry_valid_iff, h.aprCarry, h.leaderCarry]
  refine ⟨hid, ?_, remainder_lt (by decide) _ _⟩
  split_ifs
  · exact hc
  · exact remainder_lt denominator_pos _ _

theorem all_valid_set (h : out.all valid = true) (hc : c.valid id = true) :
    (out.set id c).all valid = true := by
  rw [GoMap.all_eq_true] at h ⊢
  intro k c' hget
  rw [GoMap.get_set] at hget
  split_ifs at hget with hk
  · cases hget
    rwa [hk]
  · exact h k c' hget

theorem settleVaults_cons_eq_ok :
    settleVaults prev s out (v :: vs) = .ok p ↔
      (v.id ≠ [] ∧ prev.all (less · v.id) = true) ∧ v.guardianStake ≤ v.totalStake ∧
      ∃ t s1 c1 f fs, tierFor v.totalStake = .ok t ∧
        settleVault s (carryOf out v.id) t v = .ok (s1, c1, f) ∧
        settleVaults (some v.id) s1 (out.set v.id c1) vs = .ok (p.1, p.2.1, fs) ∧
        p.2.2 = f :: fs := by
  have hprev : (¬ (v.id = [] ∨ prev.any (fun p => !less p v.id) = true)) ↔
      v.id ≠ [] ∧ prev.all (less · v.id) = true := by
    cases prev <;> simp
  rw [settleVaults]
  simp only [bind_eq_ok, failIf_eq_ok, exists_const, hprev]
  constructor
  · rintro ⟨hid, t, ht, hguard, ⟨s1, c1, f⟩, hone, ⟨s2, out2, fs⟩, hrest, h⟩
    cases h
    exact ⟨hid, UInt64.not_lt.mp hguard, t, s1, c1, f, fs, ht, hone, hrest, rfl⟩
  · rintro ⟨hid, hguard, t, s1, c1, f, fs, ht, hone, hrest, hfs⟩
    refine ⟨hid, t, ht, UInt64.not_lt.mpr hguard, (s1, c1, f), hone, (p.1, p.2.1, fs), hrest, ?_⟩
    rw [← hfs]

theorem settleVaults_less (h : settleVaults (some id) s out vs = .ok p) :
    ∀ w ∈ vs, less id w.id = true := by
  induction vs generalizing id s out p with
  | nil => nofun
  | cons v vs ih =>
    obtain ⟨⟨-, hprev⟩, -, t, s1, c1, f, fs, -, -, hrest, -⟩ := settleVaults_cons_eq_ok.mp h
    have hv : less id v.id = true := hprev
    rw [forall_mem_cons]
    exact ⟨hv, fun w hw => less_trans hv (ih hrest w hw)⟩

/-- What a vault brings and asks for in a settlement that starts with these carries. -/
def demandOf (carries : Carries) (v : Vault) : Demand := v.demand (carryOf carries v.id) v.tier

theorem demandOf_set (h : ∀ w ∈ vs, less id w.id = true) :
    vs.map (demandOf (out.set id c)) = vs.map (demandOf out) := by
  apply map_congr_left
  intro w hw
  unfold demandOf
  rw [carryOf_set, if_neg (ne_of_less (h w hw)).symm]

/-- The books of one vault balance. -/
structure Flow.Balances (v : Vault) (f : Flow) : Prop where
  vaultID : f.vaultID = v.id
  leader_le : f.leader.toNat ≤ v.actualIncome.toNat
  income : f.leader.toNat + f.angels.toNat + f.surplus.toNat =
    v.actualIncome.toNat + f.deficit.toNat
  due : f.angels.toNat + f.unfunded.toNat = f.accrual.toNat + v.arrears.toNat

theorem Booked.balances (h : Booked s c t v s' c' f) : f.Balances v := by
  have hle := h.admits.leader_le
  refine ⟨h.vaultID, ?_, ?_, ?_⟩
  · rw [h.leader]
    exact hle
  · rw [h.leader, h.angels, h.surplus, h.deficit]
    exact Demand.income_split _ _ hle
  · rw [h.angels, h.unfunded, h.accrual]
    exact Demand.due_split _ _

theorem settleVaults_cons_booked (h : settleVaults prev s out (v :: vs) = .ok (s', out', fs))
    (hvalid : out.all valid = true) : ∃ t s1 c1 f fs1, v.id ≠ [] ∧ tierFor v.totalStake = .ok t ∧
      Booked s (carryOf out v.id) t v s1 c1 f ∧ (out.set v.id c1).all valid = true ∧
      settleVaults (some v.id) s1 (out.set v.id c1) vs = .ok (s', out', fs1) ∧ fs = f :: fs1 := by
  obtain ⟨⟨hid, -⟩, -, t, s1, c1, f, fs1, ht, hone, hrest, hfs⟩ := settleVaults_cons_eq_ok.mp h
  obtain ⟨hapr, hlead⟩ := carryOf_lt hvalid v.id
  have hb := settleVault_booked hone hlead (tierFor_leaderPercent ht)
  exact ⟨t, s1, c1, f, fs1, hid, ht, hb, all_valid_set hvalid (hb.carry_valid hid hapr), hrest, hfs⟩

/-- The loop books every vault, and the totals are those of the exact ledger. -/
theorem settleVaults_spec (h : settleVaults prev s out vs = .ok (s', out', fs))
    (hvalid : out.all valid = true) :
    s'.ledger = s.ledger.settleAll (vs.map (demandOf out)) ∧
      s.ledger.AdmitsAll (vs.map (demandOf out)) ∧ out'.all valid = true ∧
      List.Forall₂ (fun v f => Flow.Balances v f) vs fs ∧
      s'.fundingDebit = s.fundingDebit := by
  induction vs generalizing prev s out fs with
  | nil =>
    cases h
    exact ⟨rfl, trivial, hvalid, .nil, rfl⟩
  | cons v vs ih =>
    obtain ⟨t, s1, c1, f, fs1, -, ht, hb, hvalid1, hrest, rfl⟩ := settleVaults_cons_booked h hvalid
    obtain ⟨hledger, hadmits, hout, hflows, hfund⟩ := ih hrest hvalid1
    rw [demandOf_set (settleVaults_less hrest), hb.ledger] at hledger hadmits
    have hdemand : demandOf out v = v.demand (carryOf out v.id) t := by
      unfold demandOf
      rw [v.tier_of_tierFor ht]
    rw [map_cons, hdemand]
    exact ⟨hledger, ⟨hb.admits, hadmits⟩, hout, .cons hb.balances hflows,
      hfund.trans hb.fundingDebit⟩

/-- No exact sum or quotient of a settlement exceeds 64 bits. -/
structure NoOverflow (l : Ledger) (carries : Carries) (vs : List Vault) : Prop where
  rate : ∀ v ∈ vs, v.rate (carryOf carries v.id) v.tier < 2 ^ 64
  due : ∀ v ∈ vs, (demandOf carries v).due < 2 ^ 64
  ledger : ∀ pre, pre <+: vs → (l.settleAll (pre.map (demandOf carries))).Bounded

theorem NoOverflow.fits (h : NoOverflow l carries (v :: vs)) :
    v.Fits (carryOf carries v.id) v.tier l :=
  ⟨h.rate v mem_cons_self, h.due v mem_cons_self, h.ledger [v] ⟨vs, rfl⟩⟩

theorem NoOverflow.tail (h : NoOverflow l carries (v :: vs)) :
    NoOverflow (l.settle (demandOf carries v)) carries vs :=
  ⟨fun w hw => h.rate w (mem_cons_of_mem _ hw), fun w hw => h.due w (mem_cons_of_mem _ hw),
    fun pre hpre => h.ledger (v :: pre) (prefix_cons_inj v |>.mpr hpre)⟩

/-- The checks of a vault that do not depend on the totals. -/
structure Vault.Accepted (v : Vault) : Prop where
  id_ne : v.id ≠ []
  tier : ∃ t, tierFor v.totalStake = .ok t
  guardian_le : v.guardianStake ≤ v.totalStake

theorem exists_settleVaults_eq_ok (hacc : ∀ v ∈ vs, v.Accepted)
    (hsorted : vs.Pairwise fun v w => less v.id w.id = true)
    (hprev : ∀ v ∈ vs, prev.all (less · v.id) = true)
    (hcarry : ∀ v ∈ vs, carryOf out v.id = carryOf carries v.id)
    (had : s.ledger.AdmitsAll (vs.map (demandOf carries)))
    (hfit : NoOverflow s.ledger carries vs) (hlead : ∀ v ∈ vs, (carryOf carries v.id).leader.toNat < 100) :
    ∃ p, settleVaults prev s out vs = .ok p := by
  induction vs generalizing prev s out with
  | nil => exact ⟨_, rfl⟩
  | cons v vs ih =>
    rw [forall_mem_cons] at hacc hprev hcarry hlead
    obtain ⟨hv, hvs⟩ := pairwise_cons.mp hsorted
    obtain ⟨t, ht⟩ := hacc.1.tier
    have htier : v.tier = t := v.tier_of_tierFor ht
    have hfits := hfit.fits
    have hadm : s.ledger.Admits (v.demand (carryOf carries v.id) v.tier) := had.1
    rw [htier, ← hcarry.1] at hfits hadm
    obtain ⟨⟨s1, c1, f⟩, hone⟩ := exists_settleVault_eq_ok hadm hfits
    have hb := settleVault_booked hone (by rw [hcarry.1]; exact hlead.1) (tierFor_leaderPercent ht)
    have hledger : s1.ledger = s.ledger.settle (demandOf carries v) := by
      unfold demandOf
      rw [hb.ledger, htier, hcarry.1]
    have hcarry1 : ∀ w ∈ vs, carryOf (out.set v.id c1) w.id = carryOf carries w.id := by
      intro w hw
      rw [carryOf_set, if_neg (ne_of_less (hv w hw)).symm]
      exact hcarry.2 w hw
    obtain ⟨⟨s2, out2, fs⟩, hrest⟩ : ∃ p, settleVaults (some v.id) s1 (out.set v.id c1) vs = .ok p :=
      ih hacc.2 hvs (hv) hcarry1 (by rw [hledger]; exact had.2)
        (by rw [hledger]; exact hfit.tail) hlead.2
    refine ⟨(s2, out2, f :: fs), settleVaults_cons_eq_ok.mpr ?_⟩
    exact ⟨⟨hacc.1.id_ne, hprev.1⟩, hacc.1.guardian_le, t, s1, c1, f, fs, ht, hone, hrest, rfl⟩

/-! ### A block -/

theorem settleFlows_eq_ok :
    settleFlows s carries height vs = .ok p ↔
      s.validate = .ok () ∧ (s.lastHeight ≠ uint64Max ∧ height = s.lastHeight + 1) ∧
      carries.all valid = true ∧ ∃ s1, settleVaults none s carries vs = .ok (s1, p.2) ∧
        p.1 = { s1 with lastHeight := height } ∧ p.1.validate = .ok () := by
  unfold settleFlows
  simp only [bind_eq_ok, failIf_eq_ok, exists_const, not_or, not_not]
  constructor
  · rintro ⟨⟨⟩, hvalid, hheight, hcarries, ⟨s1, rest⟩, hall, ⟨⟩, hvalid', h⟩
    cases h
    exact ⟨hvalid, hheight, hcarries, s1, hall, rfl, hvalid'⟩
  · rintro ⟨hvalid, hheight, hcarries, s1, hall, hp, hvalid'⟩
    refine ⟨(), hvalid, hheight, hcarries, (s1, p.2), hall, (), ?_, ?_⟩
    · rw [← hp]
      exact hvalid'
    · rw [← hp]

theorem settle_eq_ok {p : State × Carries × List Payment} :
    settle s carries height vs = .ok p ↔
      ∃ flows, settleFlows s carries height vs = .ok (p.1, p.2.1, flows) ∧
        p.2.2 = flows.map Flow.toPayment := by
  unfold settle
  rw [bind_eq_ok]
  constructor
  · rintro ⟨⟨s', out, flows⟩, hok, h⟩
    cases h
    exact ⟨flows, hok, rfl⟩
  · rintro ⟨flows, hok, hp⟩
    refine ⟨_, hok, ?_⟩
    rw [← hp]

def totalIncome (vs : List Vault) : ℕ := (vs.map fun v => v.actualIncome.toNat).sum

/-- What a successful settlement leaves. -/
structure Settled (s : State) (height : UInt64) (vs : List Vault) (next : State) (out : Carries) :
    Prop where
  lastHeight_ne : s.lastHeight ≠ uint64Max
  height_eq : height = s.lastHeight + 1
  validate : next.validate = .ok ()
  lastHeight : next.lastHeight = height
  carries : out.all valid = true
  rewardInflow : next.rewardInflow.toNat = s.rewardInflow.toNat + totalIncome vs

theorem settle_settled {next : State} {out : Carries} {payments : List Payment}
    (h : settle s carries height vs = .ok (next, out, payments)) :
    Settled s height vs next out := by
  obtain ⟨flows, hflows, -⟩ := settle_eq_ok.mp h
  obtain ⟨-, ⟨hne, heq⟩, hcarries, s1, hall, hnext, hvalid⟩ := settleFlows_eq_ok.mp hflows
  obtain ⟨hledger, -, hout, -, -⟩ := settleVaults_spec hall hcarries
  subst hnext
  refine ⟨hne, heq, hvalid, rfl, hout, ?_⟩
  show s1.ledger.rewardInflow = s.ledger.rewardInflow + totalIncome vs
  rw [hledger, Ledger.settleAll_rewardInflow, map_map]
  rfl

/-- A settlement succeeds on every list of vaults that passes its checks, if no sum or quotient
overflows: the new totals are those of the exact ledger and conserve the fund, the books of every
vault balance, and the carries are valid again. -/
theorem settle_conserves {height : UInt64} (hvalid : s.validate = .ok ())
    (hcarries : carries.all valid = true)
    (hheight : s.lastHeight ≠ uint64Max ∧ height = s.lastHeight + 1)
    (hsorted : vs.Pairwise fun v w => less v.id w.id = true) (hacc : ∀ v ∈ vs, v.Accepted)
    (harrears : s.ledger.CoversArrears (vs.map (demandOf carries)))
    (hfit : NoOverflow s.ledger carries vs)
    (htotal : initialNAPRO.toNat +
      (s.ledger.settleAll (vs.map (demandOf carries))).rewardInflow < 2 ^ 64)
    (havail : initialNAPRO.toNat +
      (s.ledger.settleAll (vs.map (demandOf carries))).surplusInflow < 2 ^ 64) :
    ∃ next out flows, settleFlows s carries height vs = .ok (next, out, flows) ∧
      settle s carries height vs = .ok (next, out, flows.map Flow.toPayment) ∧
      next.ledger = s.ledger.settleAll (vs.map (demandOf carries)) ∧
      next.ledger.Conserves initialNAPRO.toNat ∧ next.validate = .ok () ∧
      next.lastHeight = height ∧ out.all valid = true ∧
      List.Forall₂ (fun v f => Flow.Balances v f) vs flows := by
  have hlead : ∀ v ∈ vs, (carryOf carries v.id).leader.toNat < 100 := fun v _ =>
    (carryOf_lt hcarries v.id).2
  have had : s.ledger.AdmitsAll (vs.map (demandOf carries)) := by
    apply harrears.admitsAll
    intro d hd
    obtain ⟨v, hv, rfl⟩ := mem_map.mp hd
    obtain ⟨t, ht⟩ := (hacc v hv).tier
    apply demand_leader_le (hlead v hv)
    rw [v.tier_of_tierFor ht]
    exact tierFor_leaderPercent ht
  obtain ⟨⟨s1, out, fs⟩, hall⟩ : ∃ p, settleVaults none s carries vs = .ok p :=
    exists_settleVaults_eq_ok hacc hsorted (fun _ _ => rfl) (fun _ _ => rfl) had hfit hlead
  obtain ⟨hledger, -, hout, hflows, hfund⟩ := settleVaults_spec hall hcarries
  obtain ⟨hfund0, hcons0, -, -⟩ := validate_eq_ok.mp hvalid
  have hcons : s1.ledger.Conserves initialNAPRO.toNat := by
    rw [hledger]
    exact hcons0.settleAll had
  have hvalid' : ({ s1 with lastHeight := height } : State).validate = .ok () := by
    rw [validate_eq_ok]
    refine ⟨hfund.trans hfund0, hcons, ?_, ?_⟩
    · show initialNAPRO.toNat + s1.ledger.rewardInflow < 2 ^ 64
      rw [hledger]
      exact htotal
    · show initialNAPRO.toNat + s1.ledger.surplusInflow < 2 ^ 64
      rw [hledger]
      exact havail
  have hflowsOk : settleFlows s carries height vs =
      .ok ({ s1 with lastHeight := height }, out, fs) :=
    settleFlows_eq_ok.mpr ⟨hvalid, hheight, hcarries, s1, hall, rfl, hvalid'⟩
  refine ⟨{ s1 with lastHeight := height }, out, fs, hflowsOk, ?_, hledger, hcons, hvalid', rfl, hout,
    hflows⟩
  unfold settle
  rw [hflowsOk]
  rfl

/-- A checkpoint with an open liability of 10. -/
def sampleState : State :=
  { fundingDebit := initialNAPRO, balance := initialNAPRO, unfundedLiability := 10
    accruedLiability := 10, lastHeight := 4 }

/-- A carry one short of a whole unit. -/
def sampleCarries : Carries := GoMap.set ∅ [1] { apr := 7, leader := 99 }

/-- A vault that claims the liability, and one with a given accrual that exceeds its income. -/
def sampleVaults : List Vault := [
  { id := [1], totalStake := 600000 * unit, guardianStake := 200000 * unit, actualIncome := 3 * unit
    elapsedSeconds := 10, arrears := 10 },
  { id := [2], totalStake := maxVault, guardianStake := maxVault, exactAccrual := some 5 }]

/-- The hypotheses of the settlement hold for the sample. -/
theorem sample_settles : ∃ next out flows,
    settleFlows sampleState sampleCarries 5 sampleVaults = .ok (next, out, flows) ∧
      next.ledger.Conserves initialNAPRO.toNat ∧ out.all valid = true ∧
      List.Forall₂ (fun v f => Flow.Balances v f) sampleVaults flows := by
  have hacc : ∀ v ∈ sampleVaults, v.Accepted := by
    intro v hv
    have hv : v = sampleVaults[0] ∨ v = sampleVaults[1] := by simpa [sampleVaults] using hv
    rcases hv with rfl | rfl
    · exact ⟨by decide, exists_tierFor_eq_ok (by decide) (by decide), by decide⟩
    · exact ⟨by decide, exists_tierFor_eq_ok (by decide) (by decide), by decide⟩
  have hfit : NoOverflow sampleState.ledger sampleCarries sampleVaults := by
    refine ⟨by decide +kernel, by decide +kernel, fun pre hpre => ?_⟩
    have hpre : pre = [] ∨ pre = sampleVaults.take 1 ∨ pre = sampleVaults := by
      have hmem := (mem_inits _ _).mpr hpre
      simpa [sampleVaults] using hmem
    rcases hpre with rfl | rfl | rfl
    all_goals constructor <;> decide +kernel
  have hheight : sampleState.lastHeight ≠ uint64Max ∧ (5 : UInt64) = sampleState.lastHeight + 1 := by
    decide
  obtain ⟨next, out, flows, hok, -, -, hcons, -, -, hout, hflows⟩ :=
    settle_conserves (by decide +kernel) (by decide +kernel) hheight
      (by decide +kernel) hacc ⟨by decide +kernel, by decide +kernel, trivial⟩ hfit (by decide +kernel)
      (by decide +kernel)
  exact ⟨next, out, flows, hok, hcons, hout, hflows⟩

/-! ### Rounding over a run -/

/-- A call of `Settle`, with what it booked. -/
structure Call where
  height : UInt64
  vaults : List Vault
  flows : List Flow

/-- The call takes one checkpoint and its carries to the next. -/
def SettleStep (a : State × Carries) (e : Call) (b : State × Carries) : Prop :=
  settleFlows a.1 a.2 e.height e.vaults = .ok (b.1, b.2, e.flows)

/-- The leader amounts of a vault. -/
def leaderPaid (id : Bytes) (fs : List Flow) : ℕ :=
  ((fs.filter fun f => f.vaultID = id).map fun f => f.leader.toNat).sum

/-- A hundred times what its leader is due. -/
def leaderShare (id : Bytes) (vs : List Vault) : ℕ :=
  ((vs.filter fun v => v.id = id).map fun v =>
    v.actualIncome.toNat * v.tier.leaderPercent.toNat).sum

/-- The new accruals of a vault where no exact accrual is given. -/
def aprAccrued (id : Bytes) (vs : List Vault) (fs : List Flow) : ℕ :=
  (((vs.zip fs).filter fun x => x.1.id = id ∧ x.1.exactAccrual = none).map fun x =>
    x.2.accrual.toNat).sum

/-- What the rate of its tier gives there, times the denominator. -/
def aprShare (id : Bytes) (vs : List Vault) : ℕ :=
  ((vs.filter fun v => v.id = id ∧ v.exactAccrual = none).map fun v =>
    v.guardianStake.toNat * v.tier.aprPercent.toNat * v.elapsedSeconds.toNat).sum

theorem Booked.divisions (h : Booked s c t v s' c' f) :
    100 * f.leader.toNat + c'.leader.toNat =
        v.actualIncome.toNat * t.leaderPercent.toNat + c.leader.toNat ∧
      (v.exactAccrual = none → denominator.toNat * f.accrual.toNat + c'.apr.toNat =
        v.guardianStake.toNat * t.aprPercent.toNat * v.elapsedSeconds.toNat + c.apr.toNat) ∧
      (v.exactAccrual ≠ none → c'.apr.toNat = c.apr.toNat) := by
  refine ⟨?_, fun hnone => ?_, fun hsome => ?_⟩
  · rw [h.leader, h.leaderCarry]
    exact quotient_mul_add_remainder _ _ _
  · have haccrual : (v.demand c t).accrual = v.rate c t := by
      show (v.exactAccrual.map UInt64.toNat).getD (v.rate c t) = _
      rw [hnone]
      rfl
    rw [h.accrual, haccrual, h.aprCarry, hnone]
    exact quotient_mul_add_remainder _ _ _
  · rw [h.aprCarry, if_pos (Option.isSome_iff_ne_none.mpr hsome)]

theorem settleVaults_divisions (h : settleVaults prev s out vs = .ok (s', out', fs))
    (hvalid : out.all valid = true) (id : Bytes) :
    100 * leaderPaid id fs + (carryOf out' id).leader.toNat =
        leaderShare id vs + (carryOf out id).leader.toNat ∧
      denominator.toNat * aprAccrued id vs fs + (carryOf out' id).apr.toNat =
        aprShare id vs + (carryOf out id).apr.toNat := by
  induction vs generalizing prev s out fs with
  | nil =>
    cases h
    exact ⟨rfl, rfl⟩
  | cons v vs ih =>
    obtain ⟨t, s1, c1, f, fs1, -, ht, hb, hvalid1, hrest, rfl⟩ := settleVaults_cons_booked h hvalid
    obtain ⟨hleader, hrate, hexact⟩ := hb.divisions
    obtain ⟨ihl, iha⟩ := ih hrest hvalid1
    rw [carryOf_set] at ihl iha
    unfold leaderPaid leaderShare aprAccrued aprShare at *
    rw [zip_cons_cons]
    by_cases hv : v.id = id
    · subst hv
      rw [if_pos rfl] at ihl iha
      have hf : f.vaultID = v.id := hb.vaultID
      rw [filter_cons_of_pos (by simpa using hf), filter_cons_of_pos (by simp), map_cons,
        sum_cons, map_cons, sum_cons, v.tier_of_tierFor ht]
      refine ⟨by omega, ?_⟩
      by_cases hnone : v.exactAccrual = none
      · have hone := hrate hnone
        rw [filter_cons_of_pos (by simp [hnone]), filter_cons_of_pos (by simp [hnone]),
          map_cons, sum_cons, map_cons, sum_cons, v.tier_of_tierFor ht, Nat.mul_add]
        dsimp only
        omega
      · have hone := hexact hnone
        rw [filter_cons_of_neg (by simp [hnone]), filter_cons_of_neg (by simp [hnone])]
        omega
    · have hf : f.vaultID ≠ id := by rwa [hb.vaultID]
      rw [if_neg (Ne.symm hv)] at ihl iha
      rw [filter_cons_of_neg (by simpa using hf), filter_cons_of_neg (by simpa using hv),
        filter_cons_of_neg (by simp [hv]), filter_cons_of_neg (by simp [hv])]
      exact ⟨ihl, iha⟩

theorem SettleStep.divisions {a b : State × Carries} {e : Call} (h : SettleStep a e b) (id : Bytes) :
    100 * leaderPaid id e.flows + (carryOf b.2 id).leader.toNat =
        leaderShare id e.vaults + (carryOf a.2 id).leader.toNat ∧
      denominator.toNat * aprAccrued id e.vaults e.flows + (carryOf b.2 id).apr.toNat =
        aprShare id e.vaults + (carryOf a.2 id).apr.toNat := by
  obtain ⟨-, -, hcarries, s1, hall, -⟩ := settleFlows_eq_ok.mp h
  exact settleVaults_divisions hall hcarries id

/-- Over every run of settlements, the leader amounts of a vault with the last carry are its shares of
the incomes with the first, and its new accruals with the last carry are what the rates give with the
first.  A settlement where the accrual of the vault is given leaves its APR carry alone. -/
theorem rounding_conserved {a b : State × Carries} {es : List Call} (h : Run SettleStep a es b)
    (id : Bytes) :
    100 * (es.map fun e => leaderPaid id e.flows).sum + (carryOf b.2 id).leader.toNat =
        (es.map fun e => leaderShare id e.vaults).sum + (carryOf a.2 id).leader.toNat ∧
      denominator.toNat * (es.map fun e => aprAccrued id e.vaults e.flows).sum +
          (carryOf b.2 id).apr.toNat =
        (es.map fun e => aprShare id e.vaults).sum + (carryOf a.2 id).apr.toNat ∧
      ∀ a e b, SettleStep a e b → (∀ v ∈ e.vaults, v.id = id → v.exactAccrual ≠ none) →
        (carryOf b.2 id).apr = (carryOf a.2 id).apr := by
  refine ⟨?_, ?_, ?_⟩
  · exact telescopes (fun x => (carryOf x.2 id).leader.toNat)
      (fun e => leaderPaid id e.flows) (fun e => leaderShare id e.vaults)
      (fun _ _ _ he => (SettleStep.divisions he id).1) h
  · exact telescopes (fun x => (carryOf x.2 id).apr.toNat)
      (fun e => aprAccrued id e.vaults e.flows) (fun e => aprShare id e.vaults)
      (fun _ _ _ he => (SettleStep.divisions he id).2) h
  intro a e b he hexact
  have hdiv := (he.divisions id).2
  have hshare : aprShare id e.vaults = 0 := by
    unfold aprShare
    rw [filter_eq_nil_iff.mpr]
    · rfl
    · intro v hv hcond
      simp only [decide_eq_true_eq] at hcond
      exact hexact v hv hcond.1 hcond.2
  have haccrued : aprAccrued id e.vaults e.flows = 0 := by
    unfold aprAccrued
    rw [filter_eq_nil_iff.mpr]
    · rfl
    · intro x hx hcond
      simp only [decide_eq_true_eq] at hcond
      exact hexact x.1 (of_mem_zip hx).1 hcond.1 hcond.2
  rw [haccrued] at hdiv
  apply UInt64.toNat_inj.mp
  omega

/-- Two settlements; the second vault is absent from the first of them. -/
theorem sample_rounding : ∃ es b, Run SettleStep (sampleState, sampleCarries) es b ∧ es.length = 2 ∧
    100 * (es.map fun e => leaderPaid [1] e.flows).sum + (carryOf b.2 [1]).leader.toNat =
      (es.map fun e => leaderShare [1] e.vaults).sum + 99 := by
  obtain ⟨p, hp, hp'⟩ : ∃ p, settleFlows sampleState sampleCarries 5 (sampleVaults.take 1) = .ok p ∧
      (settleFlows p.1 p.2.1 6 sampleVaults.tail).toOption.isSome = true :=
    exists_ok_of_test (by decide +kernel)
  obtain ⟨q, hq⟩ : ∃ q, settleFlows p.1 p.2.1 6 sampleVaults.tail = .ok q := by
    cases hq : settleFlows p.1 p.2.1 6 sampleVaults.tail with
    | ok q => exact ⟨q, rfl⟩
    | error err =>
      rw [hq] at hp'
      cases hp'
  have hrun : Run SettleStep (sampleState, sampleCarries)
      [⟨5, sampleVaults.take 1, p.2.2⟩, ⟨6, sampleVaults.tail, q.2.2⟩] (q.1, q.2.1) :=
    .cons (t := (p.1, p.2.1)) hp (.cons (t := (q.1, q.2.1)) hq (.nil _))
  exact ⟨_, _, hrun, rfl, (rounding_conserved hrun [1]).1⟩

end Aperod.Lpod
