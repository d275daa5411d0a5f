import Aperod.Lpod.Store
import Aperod.Sale.Accounting

/-!
# The reserves a sale must leave

`store/sale_reserve_floors.go` and the files beside it: before the first sale the signed
reconciliation must cover what the LPoD checkpoint of the parent block shows to be issued or reserved
(`verifySaleReserveFloors`).  There is one form for every accounting basis.
-/

namespace Aperod.Store

open Go Sale

/-- The checkpoint with the allocation and the snapshot a version 3 reserve has. -/
def nominalReserve (c : Lpod.Checkpoint) : Option (Lpod.Allocation × Lpod.NominalSnapshot) :=
  c.allocation.bind fun a => a.nominalSnapshot.map fun s => (a, s)

def saleKnownIssuedFloor (c : Option Lpod.Checkpoint) : Result UInt64 :=
  match c.bind fun c => (nominalReserve c).map fun p => (c, p.2) with
  | none => fail "sale: canonical nominal issuance declaration missing"
  | some (c, snapshot) => do
    let before := snapshot.nominalCirculatingBefore
    failIf (before > capNAPRO ∨ c.state.rewardInflow > capNAPRO - before)
      "sale: known issuance exceeds the 10B cap"
    let issued := before + c.state.rewardInflow
    match c.genesisVesting with
    | none => .ok issued
    | some v => do
      failIf (v.paid > capNAPRO - issued) "sale: genesis delivery exceeds the 10B cap"
      .ok (issued + v.paid)

/-- The fields of `SaleAllocationReview` that a caller reads. -/
structure SaleAllocationReview where
  validatorReserve : UInt64
  lpodRewardBalance : UInt64
  lpodPrincipal : UInt64
  lpodUnassigned : UInt64

/-- `PrincipalLocked` is what was deposited and not returned. -/
def principalConserved (c : Lpod.Checkpoint) : Bool :=
  c.principalReturned ≤ c.principalDeposited &&
    c.principalLocked = c.principalDeposited - c.principalReturned

/-- `ReviewPostBurnSaleSource` with a declared wallet figure. -/
def reviewPostBurnSaleSource (c : Lpod.Checkpoint) (a : Lpod.Allocation)
    (snapshot : Lpod.NominalSnapshot) (burned wallet : UInt64) : Result SaleAllocationReview := do
  failIf (c.genesisVesting.isSome ∨ snapshot.preexistingGuardianReservation ≠ 0)
    "sale review: additional reserves require disjoint classification"
  c.state.validate
  failIf (¬ principalConserved c) "sale review: principal conservation invalid"
  let left ← loop (fun _ debit (left : UInt64) => do
    failIf (debit > left) "sale review: post-burn reserve accounting exceeds cap"
    .ok (left - debit)) 0 [burned, a.validatorRemaining, c.state.balance] capNAPRO
  failIf (c.principalLocked > left) "sale review: principal exceeds remaining allocation"
  let unprotected := left - c.principalLocked
  failIf (a.remaining > unprotected)
    "sale review: earmarked LPoD capital exceeds remaining allocation"
  failIf (wallet > unprotected - a.remaining)
    "sale review: issued wallet liabilities exceed available source"
  .ok {
    validatorReserve := a.validatorRemaining
    lpodRewardBalance := c.state.balance
    lpodPrincipal := c.principalLocked
    lpodUnassigned := a.remaining }

/-- What is left of a figure after amounts that may have been removed from it. -/
def afterRemovals (paid : UInt64) : List UInt64 → UInt64
  | [] => paid
  | removed :: rest => if removed ≥ paid then 0 else afterRemovals (paid - removed) rest

def saleRewardWalletFloor (c : Lpod.Checkpoint) (a : Lpod.Allocation) (burned : UInt64) :
    Result UInt64 := do
  failIf (a.initialValidatorRemaining > capNAPRO ∨ a.validatorRemaining > a.initialValidatorRemaining)
    "sale: invalid post-LPoD validator draw"
  let draw := a.initialValidatorRemaining - a.validatorRemaining
  failIf (c.state.rewardInflow > draw) "sale: LPoD reward inflow exceeds validator draw"
  let paid ← loop (fun _ outflow (paid : UInt64) => do
    failIf (outflow > capNAPRO - paid) "sale: known reward issuance exceeds cap"
    .ok (paid + outflow)) 0 [c.state.leaderPaid, c.state.angelPaid] (draw - c.state.rewardInflow)
  .ok (afterRemovals paid [burned, c.principalLocked])

def verifyNetSaleReserveFloors (c : Lpod.Checkpoint) (a : Lpod.Allocation)
    (snapshot : Lpod.NominalSnapshot) (r : Reconciliation) (n : NetAllocationBasis) :
    Result Unit := do
  let review ← reviewPostBurnSaleSource c a snapshot n.burned n.walletNet
  let consumed ← n.consumed
  failIf (r.historicIssued ≠ consumed ∨ r.validatorReserved ≠ review.validatorReserve ∨
      r.guardianReserved ≠ review.lpodRewardBalance ∨
      r.lpodReserved ≠ review.lpodPrincipal + review.lpodUnassigned)
    "sale: post-burn canonical reserves or consumed allocation mismatch"
  failIf (c.state.fundingDebit ≠ minimumGuardianReserveNAPRO)
    "sale: canonical Guardian initial allocation missing"
  let floor ← saleRewardWalletFloor c a n.burned
  failIf (n.walletNet < floor) "sale: known post-LPoD wallet reward issuance omitted"
  let _ ← r.unassigned

def verifyEpochSaleReserveFloors (c : Lpod.Checkpoint) (a : Lpod.Allocation)
    (snapshot : Lpod.NominalSnapshot) (r : Reconciliation) (e : AllocationEpochBasis) :
    Result Unit := do
  e.validate
  failIf (c.genesisVesting.isSome ∨ snapshot.preexistingGuardianReservation ≠ 0)
    "sale: additional canonical obligations require explicit classification"
  c.state.validate
  failIf (¬ principalConserved c) "sale: existing principal conservation invalid"
  failIf (e.fundingHeight ≠ a.fundingHeight ∨ e.fundingHash ≠ a.fundingBlock ∨
      e.protectedLPoDPrincipal ≠ c.principalLocked)
    "sale: operator epoch does not preserve the canonical LPoD funding and principal"
  failIf (r.validatorReserved ≠ a.validatorRemaining ∨ r.guardianReserved ≠ c.state.balance ∨
      r.lpodReserved ≠ a.remaining)
    "sale: nominal epoch must preserve exact canonical reserves"
  let _ ← r.unassigned

/-- `VerifySaleReserveFloors` for a reconciliation without a basis of its own. -/
def verifyLegacySaleReserveFloors (c : Lpod.Checkpoint) (a : Lpod.Allocation)
    (snapshot : Lpod.NominalSnapshot) (r : Reconciliation) : Result Unit := do
  let existing := snapshot.preexistingGuardianReservation
  let guardian := if existing > minimumGuardianReserveNAPRO then existing
    else minimumGuardianReserveNAPRO
  failIf (snapshot.nominalCirculatingBefore < a.nominalEligible)
    "sale: nominal declaration omits earmarked LPoD capital"
  failIf (r.validatorReserved < a.validatorRemaining ∨ r.guardianReserved < guardian)
    "sale: canonical validator, LPoD or Guardian reserve omitted"
  failIf (∃ v ∈ c.genesisVesting, r.otherReserved < v.remaining)
    "sale: canonical funded genesis reserve omitted"
  let issued ← saleKnownIssuedFloor (some c)
  failIf (r.historicIssued < issued) "sale: previously delivered issuance omitted"
  let _ ← r.unassigned

def verifySaleReserveFloors (c : Option Lpod.Checkpoint) (r : Reconciliation) : Result Unit :=
  match c.bind fun c => (nominalReserve c).map fun p => (c, p.1, p.2) with
  | none => fail "sale: canonical v3 reserve accounting unavailable"
  | some (c, a, snapshot) => do
    failIf (a.version ≠ 3) "sale: canonical v3 reserve accounting unavailable"
    match r.netAllocation, r.allocationEpoch with
    | some _, some _ => fail "sale: mixed allocation bases"
    | some n, none => verifyNetSaleReserveFloors c a snapshot r n
    | none, some e => verifyEpochSaleReserveFloors c a snapshot r e
    | none, none => verifyLegacySaleReserveFloors c a snapshot r

end Aperod.Store
