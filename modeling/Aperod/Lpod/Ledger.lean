import Mathlib.Algebra.BigOperators.Group.List.Basic
import Mathlib.Algebra.GroupWithZero.Nat
import Mathlib.Tactic.Common

/-!
# The reserve as a ledger of exact numbers

What LPoD accounting is for: a fund of fixed size stands behind promised returns.  A vault earns an
income, its leader takes a share, and what is left pays the guardians of the vault what they are due.
A surplus goes to the reserve; a shortfall is drawn from it; what the reserve does not cover is an
open liability.

`Ledger.settle` is this step in natural numbers, without a bound.  It keeps three identities
(`Ledger.Conserves`): money in equals money held and paid, the reserve is the fund plus what was put
in minus what was taken out, and what was ever accrued is paid or open.
-/

namespace Aperod.Lpod

variable {fund : ℕ} {l : Ledger} {ds : List Demand}

/-- The totals of the fund so far. -/
structure Ledger where
  balance : ℕ
  rewardInflow : ℕ
  leaderPaid : ℕ
  angelPaid : ℕ
  surplusInflow : ℕ
  deficitOutflow : ℕ
  unfundedLiability : ℕ
  accruedLiability : ℕ

/-- What one vault brings and asks for: `accrual` is newly due to its guardians and `arrears` is the
part of the open liability that is due to them. -/
structure Demand where
  income : ℕ
  leader : ℕ
  accrual : ℕ
  arrears : ℕ

namespace Demand

variable (d : Demand) (balance : ℕ)

/-- What the guardians are due. -/
def due : ℕ := d.accrual + d.arrears

/-- What is left of the income for them. -/
def residual : ℕ := d.income - d.leader

/-- What goes to the reserve. -/
def surplus : ℕ := d.residual - d.due

/-- What is drawn from a reserve of this size. -/
def deficit : ℕ := min (d.due - d.residual) balance

/-- What the guardians get. -/
def paid : ℕ := min d.due (d.residual + balance)

/-- What stays open. -/
def missing : ℕ := d.due - d.paid balance

/-- What a vault brings is what it is paid and what goes to the reserve, if the leader does not take
more than there is. -/
theorem income_split (h : d.leader ≤ d.income) :
    d.leader + d.paid balance + d.surplus = d.income + d.deficit balance := by
  unfold paid surplus deficit residual due
  omega

theorem due_split : d.paid balance + d.missing balance = d.accrual + d.arrears := by
  unfold missing paid due
  omega

end Demand

namespace Ledger

/-- The ledger after one vault. -/
def settle (l : Ledger) (d : Demand) : Ledger where
  balance := l.balance + d.surplus - d.deficit l.balance
  rewardInflow := l.rewardInflow + d.income
  leaderPaid := l.leaderPaid + d.leader
  angelPaid := l.angelPaid + d.paid l.balance
  surplusInflow := l.surplusInflow + d.surplus
  deficitOutflow := l.deficitOutflow + d.deficit l.balance
  unfundedLiability := l.unfundedLiability - d.arrears + d.missing l.balance
  accruedLiability := l.accruedLiability + d.accrual

/-- The conservation identities of a fund of this size. -/
structure Conserves (fund : ℕ) (l : Ledger) : Prop where
  income : fund + l.rewardInflow = l.balance + l.leaderPaid + l.angelPaid
  reserve : fund + l.surplusInflow = l.balance + l.deficitOutflow
  liability : l.angelPaid + l.unfundedLiability = l.accruedLiability

/-- A demand the ledger can meet: the leader takes no more than the income, and no more arrears are
claimed than are open. -/
structure Admits (l : Ledger) (d : Demand) : Prop where
  leader_le : d.leader ≤ d.income
  arrears_le : d.arrears ≤ l.unfundedLiability

theorem Conserves.settle {d : Demand} (h : Conserves fund l)
    (had : l.Admits d) : Conserves fund (l.settle d) := by
  have hincome := h.income
  have hreserve := h.reserve
  have hliability := h.liability
  have hsplit := d.income_split l.balance had.leader_le
  have hdue := d.due_split l.balance
  have hle := had.arrears_le
  have hdeficit : d.deficit l.balance ≤ l.balance := Nat.min_le_right _ _
  refine ⟨?_, ?_, ?_⟩
  · show fund + (l.rewardInflow + d.income) = l.balance + d.surplus - d.deficit l.balance +
      (l.leaderPaid + d.leader) + (l.angelPaid + d.paid l.balance)
    omega
  · show fund + (l.surplusInflow + d.surplus) = l.balance + d.surplus - d.deficit l.balance +
      (l.deficitOutflow + d.deficit l.balance)
    omega
  · show l.angelPaid + d.paid l.balance + (l.unfundedLiability - d.arrears + d.missing l.balance) =
      l.accruedLiability + d.accrual
    omega

/-- All vaults of a block, in order. -/
def settleAll (l : Ledger) (ds : List Demand) : Ledger := ds.foldl settle l

/-- Every demand can be met at its turn. -/
def AdmitsAll : Ledger → List Demand → Prop
  | _, [] => True
  | l, d :: ds => l.Admits d ∧ (l.settle d).AdmitsAll ds

/-- No demand claims more arrears than are open at its turn. -/
def CoversArrears : Ledger → List Demand → Prop
  | _, [] => True
  | l, d :: ds => d.arrears ≤ l.unfundedLiability ∧ (l.settle d).CoversArrears ds

theorem CoversArrears.admitsAll (h : l.CoversArrears ds)
    (hle : ∀ d ∈ ds, d.leader ≤ d.income) : l.AdmitsAll ds := by
  induction ds generalizing l with
  | nil => trivial
  | cons d ds ih =>
    obtain ⟨hd, hds⟩ := List.forall_mem_cons.mp hle
    exact ⟨⟨hd, h.1⟩, ih h.2 hds⟩

theorem Conserves.settleAll (h : Conserves fund l)
    (had : l.AdmitsAll ds) : Conserves fund (l.settleAll ds) := by
  induction ds generalizing l with
  | nil => exact h
  | cons d ds ih => exact ih (h.settle had.1) had.2

theorem settleAll_rewardInflow (l : Ledger) (ds : List Demand) :
    (l.settleAll ds).rewardInflow = l.rewardInflow + (ds.map Demand.income).sum := by
  induction ds generalizing l with
  | nil => rfl
  | cons d ds ih =>
    rw [List.map_cons, List.sum_cons, ← Nat.add_assoc]
    exact ih (l.settle d)

end Ledger

end Aperod.Lpod
