import Aperod.Lpod.Equiv.Settle
import Aperod.Lpod.Store

/-!
# The allocation over a run

What the loader checks of an allocation falls into two parts.  Most of it is fixed when the reserve is
funded (`Allocation.Sound`), by the checks of the migration (`allocation_sound`).  The pool of the
validators and the tail issue follow the rewards (`Allocation.Drawn`): as long as the pool lasts the
rewards come from it, and afterwards they are issued (`rewardDebit_drawn`).
-/

namespace Aperod.Lpod

open Go

variable {C : Externals} {K : Encodings} {a a' : Allocation} {m : Migration}
variable {parent : Hash32} {issued : UInt64}

/-! ### What never changes -/

/-- The checks of an allocation that do not look at the accounting state. -/
structure Allocation.Sound (C : Externals) (K : Encodings) (a : Allocation) : Prop where
  pool_le : a.initialValidatorRemaining.toNat ≤ validatorAllocation.toNat
  version : a.validV1 = true ∨ a.validV2 = true ∨ a.validV3 C K = true
  lifecycle : a.positionLifecycleVersion = 1
  fundingHeight : a.fundingHeight ≠ 0

theorem verifyV2_sound (h : m.verifyV2Authorization C K = .ok ()) (hversion : m.version = 2)
    (hash : Hash32) (height : UInt64) :
    (m.allocation C K m.historicalIssued hash height).validV2 = true ∧
      m.validatorRemaining.toNat ≤ validatorAllocation.toNat := by
  unfold Migration.verifyV2Authorization at h
  simp only [bind_eq_ok, failIf_eq_ok, exists_const, not_or, not_not, gt_iff_lt, UInt64.not_lt] at h
  obtain ⟨-, -, -, ⟨hgenesis, htrust, hparent, hsnapshot, hsale, hissued, hnominal, hnone, hpool, hfit,
    hfit'⟩, -, -⟩ := h
  refine ⟨?_, UInt64.le_iff_toNat_le.mp hpool⟩
  rw [UInt64.le_iff_toNat_le] at hissued hfit hfit'
  have hle1 : (publicAllocation - m.historicalIssued).toNat =
      publicAllocation.toNat - m.historicalIssued.toNat := toNat_sub hissued
  have hle2 : (publicAllocation - m.historicalIssued - m.historicalSaleRemain).toNat =
      publicAllocation.toNat - m.historicalIssued.toNat - m.historicalSaleRemain.toNat := by
    rw [toNat_sub hfit, hle1]
  have hle3 : (publicAllocation - m.validatorRemaining).toNat =
      publicAllocation.toNat - m.validatorRemaining.toNat := toNat_sub (by omega)
  have hissued' : m.historicalIssued ≤ publicAllocation - m.validatorRemaining := by
    rw [UInt64.le_iff_toNat_le]
    omega
  have hsale' : m.historicalSaleRemain ≤
      publicAllocation - m.validatorRemaining - m.historicalIssued := by
    rw [UInt64.le_iff_toNat_le, toNat_sub (UInt64.le_iff_toNat_le.mp hissued')]
    omega
  unfold Allocation.validV2
  simp only [Migration.allocation, Migration.saleRemaining, hversion, Bool.and_eq_true,
    decide_eq_true_eq, ge_iff_le]
  exact ⟨⟨⟨⟨⟨⟨⟨⟨⟨⟨trivial, hsale⟩, hnominal⟩, if_neg (by decide)⟩, hissued'⟩, hsale'⟩, rfl⟩, hsnapshot⟩, hparent⟩,
    hgenesis⟩, htrust⟩

theorem verifyV3_sound (h : m.verifyV3Authorization C K = .ok ()) (hversion : m.version = 3)
    (hash : Hash32) (height : UInt64) :
    (m.allocation C K 0 hash height).validV3 C K = true ∧
      m.validatorRemaining.toNat ≤ validatorAllocation.toNat := by
  unfold Migration.verifyV3Authorization at h
  simp only [bind_eq_ok, failIf_eq_ok, exists_const, not_or, not_not, gt_iff_lt, UInt64.not_lt] at h
  obtain ⟨-, -, -, ⟨hgenesis, htrust, hparent, hsnapshot, hmin, hmax, hpool, -, hfit, -, hsale, -, -,
    hvalid⟩, -⟩ := h
  refine ⟨?_, UInt64.le_iff_toNat_le.mp hpool⟩
  unfold Allocation.validV3
  simp only [Migration.allocation, Migration.saleRemaining, hversion, Bool.and_eq_true,
    decide_eq_true_eq, ge_iff_le]
  exact ⟨⟨⟨⟨⟨⟨⟨⟨⟨⟨⟨trivial, hsale⟩, trivial⟩, hmin⟩, hmax⟩, hfit⟩, rfl⟩, hsnapshot⟩, hparent⟩, hgenesis⟩,
    htrust⟩, hvalid⟩

theorem reconcile_sound {read : UInt64 → Result Block}
    (h : reconcileLPoD C K m read = .ok (issued, parent)) (hash : Hash32) (height : UInt64) :
    (m.allocation C K issued hash height).validV1 = true ∧
      m.validatorRemaining.toNat ≤ validatorAllocation.toNat ∧ m.positionLifecycleVersion = 1 ∧
      m.height ≠ 0 := by
  unfold reconcileLPoD at h
  simp only [bind_eq_ok, failIf_eq_ok, exists_const, not_or, not_not, gt_iff_lt, UInt64.not_lt] at h
  obtain ⟨-, -, ⟨hversion, hlife, hheight, -, -⟩, hfields, -, -, hpool, s, -, ⟨-, -, -, hissued⟩, h⟩ := h
  cases h
  simp only [Migration.hasTrustFields, ne_eq, decide_not, Bool.not_eq_true, Bool.or_eq_false_iff,
    Bool.not_eq_false', decide_eq_true_eq] at hfields
  obtain ⟨⟨⟨⟨⟨htrust, hparent⟩, hsnapshot⟩, hsale⟩, hnominal⟩, hnone⟩ := hfields
  refine ⟨?_, UInt64.le_iff_toNat_le.mp hpool, hlife, hheight⟩
  unfold Allocation.validV1
  simp only [Migration.allocation, Migration.saleRemaining, hversion, Bool.and_eq_true,
    decide_eq_true_eq]
  exact ⟨⟨⟨⟨⟨⟨⟨⟨trivial, hsale⟩, hsnapshot⟩, hparent⟩, htrust⟩, hnominal⟩, if_neg (by decide)⟩, hissued⟩, rfl⟩

/-- The allocation of a verified migration passes the checks of the loader. -/
theorem allocation_sound {d : DB}
    (h : d.verifyLPoDMigration C K m = .ok (issued, parent)) (hash : Hash32) :
    (m.allocation C K issued hash m.height).Sound C K := by
  unfold DB.verifyLPoDMigration at h
  by_cases hversion : m.version = 2 ∨ m.version = 3
  · rw [if_pos hversion] at h
    obtain ⟨⟨⟩, hauth, h⟩ := unbind h
    replace h := past h
    replace h := past h
    cases h
    obtain ⟨⟨⟩, hhead, hauth⟩ := unbind hauth
    simp only [failIf_eq_ok, not_or, not_not] at hhead
    rcases hversion with hversion | hversion
    · rw [if_pos hversion] at hauth
      obtain ⟨hv, hpool⟩ := verifyV2_sound hauth hversion hash m.height
      rw [if_neg (by rw [hversion]; decide)]
      exact ⟨hpool, Or.inr (Or.inl hv), hhead.2.1, hhead.2.2⟩
    · rw [if_neg (by rw [hversion]; decide), if_pos hversion] at hauth
      obtain ⟨hv, hpool⟩ := verifyV3_sound hauth hversion hash m.height
      rw [if_pos hversion]
      exact ⟨hpool, Or.inr (Or.inr hv), hhead.2.1, hhead.2.2⟩
  · rw [if_neg hversion] at h
    obtain ⟨hv, hpool, hlife, hheight⟩ := reconcile_sound h hash m.height
    exact ⟨hpool, Or.inl hv, hlife, hheight⟩

/-! ### What follows the rewards -/

/-- The pool and the tail issue agree with the rewards so far. -/
structure Allocation.Drawn (a : Allocation) (rewardInflow : UInt64) : Prop where
  pool : a.validatorRemaining.toNat + min rewardInflow.toNat a.initialValidatorRemaining.toNat =
    a.initialValidatorRemaining.toNat
  tail : a.tailIssued.toNat + min rewardInflow.toNat a.initialValidatorRemaining.toNat =
    rewardInflow.toNat

/-- The two allocations differ at most in the pool and the tail issue. -/
def Allocation.SameGrant (a a' : Allocation) : Prop :=
  a' = { a with validatorRemaining := a'.validatorRemaining, tailIssued := a'.tailIssued }

theorem Allocation.Sound.of_sameGrant (h : a.Sound C K) (hsame : a.SameGrant a') : a'.Sound C K := by
  rw [hsame]
  exact ⟨h.pool_le, h.version, h.lifecycle, h.fundingHeight⟩

theorem rewardFor_le {n : UInt64} (h : n ≠ 0) : (rewardFor n).toNat ≤ n.toNat := by
  unfold rewardFor
  rw [if_neg h]
  split_ifs with hlt
  · exact le_rfl
  · exact UInt64.le_iff_toNat_le.mp (UInt64.not_lt.mp hlt)

/-- The debit takes the income of the vaults from the pool, or issues it once the pool is empty. -/
theorem rewardDebit_drawn {vaults : List Vault} {next : Option Allocation} {inflow inflow' : UInt64}
    (h : rewardDebit (some a) vaults = .ok next) (hdrawn : a.Drawn inflow)
    (hinflow : inflow'.toNat = inflow.toNat + totalIncome vaults) :
    ∃ a', next = some a' ∧ a.SameGrant a' ∧ a'.Drawn inflow' := by
  have hpool := hdrawn.pool
  have htail := hdrawn.tail
  obtain ⟨income, hincome, h⟩ := unbind h
  obtain ⟨⟨⟩, hreward, h⟩ := unbind h
  have hsum : income.toNat = totalIncome vaults := by
    rw [loop_addOr_eq_ok.mp hincome]
    exact Nat.zero_add _
  rw [failIf_eq_ok, not_not] at hreward
  split_ifs at h with hpos
  · cases h
    have hne : a.validatorRemaining ≠ 0 := by
      rintro h0
      rw [h0] at hpos
      exact absurd hpos (by decide)
    have hle : income.toNat ≤ a.validatorRemaining.toNat := by
      rw [hreward]
      exact rewardFor_le hne
    -- the pool is not used up, so all rewards so far came from it
    refine ⟨_, rfl, rfl, ?_, ?_⟩
    · show (a.validatorRemaining - income).toNat +
        min inflow'.toNat a.initialValidatorRemaining.toNat = a.initialValidatorRemaining.toNat
      rw [toNat_sub hle]
      omega
    · show a.tailIssued.toNat + min inflow'.toNat a.initialValidatorRemaining.toNat = inflow'.toNat
      omega
  · obtain ⟨tail, htail', h⟩ := unbind h
    cases h
    rw [addOr_eq_ok] at htail'
    have hzero : a.validatorRemaining.toNat = 0 := by
      rw [gt_iff_lt, UInt64.lt_iff_toNat_lt] at hpos
      have h0 : (0 : UInt64).toNat = 0 := rfl
      omega
    refine ⟨_, rfl, rfl, ?_, ?_⟩
    · show a.validatorRemaining.toNat + min inflow'.toNat a.initialValidatorRemaining.toNat =
        a.initialValidatorRemaining.toNat
      omega
    · show tail.toNat + min inflow'.toNat a.initialValidatorRemaining.toNat = inflow'.toNat
      omega

theorem allocation_drawn (issued : UInt64) (hash : Hash32) (height : UInt64) :
    (m.allocation C K issued hash height).Drawn 0 := by
  refine ⟨?_, ?_⟩
  · show m.validatorRemaining.toNat + min (0 : UInt64).toNat m.validatorRemaining.toNat =
      m.validatorRemaining.toNat
    rw [UInt64.toNat_zero, Nat.zero_min, Nat.add_zero]
  · show (0 : UInt64).toNat + min (0 : UInt64).toNat m.validatorRemaining.toNat = (0 : UInt64).toNat
    rw [UInt64.toNat_zero, Nat.zero_min]

theorem check_eq_ok {s : State} (hsound : a.Sound C K) (hdrawn : a.Drawn s.rewardInflow)
    (hheight : a.fundingHeight.toNat ≤ s.lastHeight.toNat) (hvalid : s.validate = .ok ()) :
    a.check C K s = .ok () := by
  obtain ⟨hfund, -, -, -⟩ := validate_eq_ok.mp hvalid
  have hpool := hdrawn.pool
  have htail := hdrawn.tail
  have hle := hsound.pool_le
  have hconst : validatorAllocation.toNat ≤ (publicAllocation - initialNAPRO).toNat := by decide
  have hdrawn : (a.drawn s.rewardInflow).toNat =
      min s.rewardInflow.toNat a.initialValidatorRemaining.toNat := by
    unfold Allocation.drawn
    split_ifs with hgt
    all_goals rw [gt_iff_lt, UInt64.lt_iff_toNat_lt] at hgt
    · omega
    · omega
  have hpool' : a.validatorRemaining =
      a.initialValidatorRemaining - a.drawn s.rewardInflow := by
    apply UInt64.toNat_inj.mp
    rw [toNat_sub (by omega)]
    omega
  have htail' : a.tailIssued = s.rewardInflow - a.drawn s.rewardInflow := by
    apply UInt64.toNat_inj.mp
    rw [toNat_sub (by omega)]
    omega
  refine pass ?_ ?_
  · rw [failIf_eq_ok, not_or, gt_iff_lt, gt_iff_lt, UInt64.not_lt, UInt64.not_lt,
      UInt64.le_iff_toNat_le, UInt64.le_iff_toNat_le]
    exact ⟨hle, hle.trans hconst⟩
  · simp only [failIf_eq_ok, not_or, not_not, UInt64.not_lt, UInt64.le_iff_toNat_le]
    refine ⟨?_, hsound.lifecycle, hsound.fundingHeight, hheight, hfund, hpool', htail'⟩
    rintro ⟨h1, h2, h3⟩
    rcases hsound.version with h | h | h
    · exact h1 h
    · exact h2 h
    · exact h3 h

end Aperod.Lpod
