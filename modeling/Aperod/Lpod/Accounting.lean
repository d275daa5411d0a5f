import Aperod.Go.Map
import Aperod.Go.Uint64

/-!
# LPoD accounting

The package `lpod`: the tiers of the vaults (`tierFor`), the checks of an accounting checkpoint
(`State.validate`) and the settlement of a block (`settle`).  Amounts are 64-bit numbers; `rational`
multiplies without a bound and divides with a carried remainder.

`settle` goes through the vaults in the order of their identities (`settleVaults`), and `settleVault`
is the body of that loop.  A `Flow` is what it computes for one vault: the payment that `Settle`
returns, and the amounts it only adds to the totals.
-/

namespace Aperod.Lpod

open Go

/-- `InitialNAPRO`: the reserve is funded with 1B APRO. -/
def initialNAPRO : UInt64 := 100000000000000000

def unit : UInt64 := 100000000

def yearSeconds : UInt64 := 365 * 24 * 60 * 60

/-- `denominator`: an APR in percent, per second. -/
def denominator : UInt64 := 100 * yearSeconds

/-! ### Tiers -/

structure Tier where
  threshold : UInt64
  minimumDeposit : UInt64
  leaderPercent : UInt64
  aprPercent : UInt64
  deriving DecidableEq

def tiers : List Tier := [
  ⟨100000 * unit, 100 * unit, 8, 3⟩,
  ⟨500000 * unit, 1000 * unit, 10, 5⟩,
  ⟨1000000 * unit, 10000 * unit, 12, 6⟩,
  ⟨5000000 * unit, 20000 * unit, 15, 8⟩,
  ⟨10000000 * unit, 50000 * unit, 16, 9⟩,
  ⟨30000000 * unit, 80000 * unit, 16, 9⟩,
  ⟨50000000 * unit, 100000 * unit, 16, 9⟩,
  ⟨80000000 * unit, 150000 * unit, 16, 9⟩,
  ⟨100000000 * unit, 200000 * unit, 20, 10⟩]

/-- The threshold of the first tier, and the minimum stake of a vault. -/
def minVault : UInt64 := 100000 * unit

/-- The threshold of the last tier. -/
def maxVault : UInt64 := 100000000 * unit

/-- `TierFor`: the last tier whose threshold is reached. -/
def tierFor (total : UInt64) : Result Tier :=
  if total < minVault ∨ total > maxVault then fail "lpod: vault stake outside 100K–100M APRO"
  else match tiers.reverse.find? fun t => decide (t.threshold ≤ total) with
    | some t => .ok t
    | none => .error .panic

/-! ### Data -/

/-- `State`: an accounting checkpoint. -/
structure State where
  fundingDebit : UInt64
  balance : UInt64
  rewardInflow : UInt64 := 0
  leaderPaid : UInt64 := 0
  angelPaid : UInt64 := 0
  surplusInflow : UInt64 := 0
  deficitOutflow : UInt64 := 0
  unfundedLiability : UInt64 := 0
  accruedLiability : UInt64 := 0
  lastHeight : UInt64 := 0
  deriving DecidableEq

/-- `Carry`: the remainders of the divisions of one vault. -/
structure Carry where
  apr : UInt64 := 0
  leader : UInt64 := 0
  deriving DecidableEq

abbrev Carries := GoMap Bytes Carry

structure Vault where
  id : Bytes
  totalStake : UInt64
  guardianStake : UInt64 := 0
  actualIncome : UInt64 := 0
  elapsedSeconds : UInt64 := 0
  exactAccrual : Option UInt64 := none
  arrears : UInt64 := 0
  deriving DecidableEq

structure Payment where
  vaultID : Bytes
  leader : UInt64
  angels : UInt64
  unfunded : UInt64
  deriving DecidableEq

/-- A payment with what else is booked for the vault: the new accrual, and what the reserve gains or
gives. -/
structure Flow extends Payment where
  accrual : UInt64
  surplus : UInt64
  deficit : UInt64
  deriving DecidableEq

/-! ### Arithmetic -/

def add : UInt64 → UInt64 → Result UInt64 := Go.addOr "lpod: uint64 overflow"

/-- `rational`: quotient and remainder of `a * b * c + carry` by `divisor`. -/
def rational (a b c carry divisor : UInt64) : Result (UInt64 × UInt64) :=
  let n := a.toNat * b.toNat * c.toNat + carry.toNat
  if n / divisor.toNat < 2 ^ 64 then
    .ok (UInt64.ofNat (n / divisor.toNat), UInt64.ofNat (n % divisor.toNat))
  else fail "lpod: rational result overflow"

def State.validate (s : State) : Result Unit := do
  failIf (s.fundingDebit ≠ initialNAPRO) "lpod: missing conserved 1B allocation debit"
  let left ← add s.fundingDebit s.rewardInflow
  let right ← add s.balance s.leaderPaid
  let right ← add right s.angelPaid
  failIf (left ≠ right) "lpod: income conservation violated"
  let available ← add s.fundingDebit s.surplusInflow
  failIf (available < s.deficitOutflow ∨ available - s.deficitOutflow ≠ s.balance)
    "lpod: reserve conservation violated"
  let liability ← add s.angelPaid s.unfundedLiability
  failIf (liability ≠ s.accruedLiability) "lpod: liability conservation violated"

/-! ### Settlement -/

/-- What the rest of the income does to the reserve. -/
structure Split where
  balance : UInt64
  paid : UInt64
  missing : UInt64
  surplus : UInt64
  deficit : UInt64

/-- The rest of the income pays what is due; the reserve takes a surplus or covers a shortfall as far
as it can. -/
def splitResidual (balance residual due : UInt64) : Result Split :=
  if residual ≥ due then do
    let balance ← add balance (residual - due)
    .ok { balance, paid := due, missing := 0, surplus := residual - due, deficit := 0 }
  else
    let short := due - residual
    let deficit := if short > balance then balance else short
    .ok { balance := balance - deficit
          paid := residual + deficit
          missing := due - (residual + deficit)
          surplus := 0
          deficit }

/-- The body of the loop of `Settle`, after its checks of the vault. -/
def settleVault (next : State) (c : Carry) (t : Tier) (v : Vault) :
    Result (State × Carry × Flow) := do
  let leader ← rational v.actualIncome t.leaderPercent 1 c.leader 100
  let due ← rational v.guardianStake t.aprPercent v.elapsedSeconds c.apr denominator
  let newDue := v.exactAccrual.getD due.1
  let aprRem := if v.exactAccrual.isSome then c.apr else due.2
  failIf (v.arrears > next.unfundedLiability) "lpod: arrears exceed outstanding liability"
  let due ← add newDue v.arrears
  let split ← splitResidual next.balance (v.actualIncome - leader.1) due
  let rewardInflow ← add next.rewardInflow v.actualIncome
  let leaderPaid ← add next.leaderPaid leader.1
  let angelPaid ← add next.angelPaid split.paid
  let unfundedLiability ← add (next.unfundedLiability - v.arrears) split.missing
  let accruedLiability ← add next.accruedLiability newDue
  let surplusInflow ← add next.surplusInflow split.surplus
  let deficitOutflow ← add next.deficitOutflow split.deficit
  .ok ({ next with
          balance := split.balance
          rewardInflow, leaderPaid, angelPaid, unfundedLiability, accruedLiability
          surplusInflow, deficitOutflow },
    { apr := aprRem, leader := leader.2 },
    { vaultID := v.id, leader := leader.1, angels := split.paid, unfunded := split.missing
      accrual := newDue, surplus := split.surplus, deficit := split.deficit })

/-- The loop of `Settle`; `prev` is the identity of the vault before. -/
def settleVaults : Option Bytes → State → Carries → List Vault →
    Result (State × Carries × List Flow)
  | _, next, out, [] => .ok (next, out, [])
  | prev, next, out, v :: rest => do
    failIf (v.id = [] ∨ prev.any (fun p => !less p v.id))
      "lpod: vault IDs must be sorted and unique"
    let t ← tierFor v.totalStake
    failIf (v.guardianStake > v.totalStake) "lpod: guardian stake exceeds vault stake"
    let one ← settleVault next ((out.get v.id).getD {}) t v
    let all ← settleVaults (some v.id) one.1 (out.set v.id one.2.1) rest
    .ok (all.1, all.2.1, one.2.2 :: all.2.2)

/-- The check of a carry. -/
def Carry.valid (id : Bytes) (c : Carry) : Bool :=
  !(id.isEmpty || c.apr ≥ denominator || c.leader ≥ 100)

/-- `Settle` with the flow of every vault. -/
def settleFlows (before : State) (carries : Carries) (height : UInt64) (vaults : List Vault) :
    Result (State × Carries × List Flow) := do
  before.validate
  failIf (before.lastHeight = uint64Max ∨ height ≠ before.lastHeight + 1)
    "lpod: duplicate or nonsequential settlement"
  failIf (¬ carries.all Carry.valid) "lpod: invalid carry"
  let all ← settleVaults none before carries vaults
  let next := { all.1 with lastHeight := height }
  next.validate
  .ok (next, all.2)

def settle (before : State) (carries : Carries) (height : UInt64) (vaults : List Vault) :
    Result (State × Carries × List Payment) := do
  let all ← settleFlows before carries height vaults
  .ok (all.1, all.2.1, all.2.2.map Flow.toPayment)

end Aperod.Lpod
