import Aperod.Go.Sort
import Aperod.Core.UTXO
import Mathlib.Data.List.Lex

/-!
# The validator registry

`ValidatorRegistry` of `staking.go`: one entry for each validator, keyed by its public key, and the
state machine of an entry (pending, active, unbonding, exited).  This module has the operations on
entries and the epoch transition; how a stake transaction leads to them is in `Core.Staking`.

`UpdateEpoch` ranges over the validators map three times, in an order Go does not fix.  The orders
are an argument (`EpochOrders`), and `EpochOrders.Valid` says which ones a run may meet.
-/

namespace Aperod

open Go

def maxValidators : Nat := 21
def minStakeNAPR : Nat := 10000000000000
def epochLength : Nat := 100
def churnLimit : Nat := 3
def maxStakeNAPR : Nat := 10000000000000000
def unbondingBlocks : Nat := 144000
def partialUnbondingBlocks : Nat := 43200
def stakeWithdrawalMaxExpiryBlocks : Nat := 100

inductive ValidatorStatus
  | pending
  | active
  | unbonding
  | exited
  deriving DecidableEq

/-- `UnbondingEntry`: one partial withdrawal in progress. -/
structure UnbondingEntry where
  amount : Nat
  endBlock : Nat
  deriving DecidableEq

structure ValidatorEntry where
  pubKey : ValidatorPubKey
  stakeNAPR : Nat
  status : ValidatorStatus
  activationEpoch : Nat := 0
  unbondEndBlock : Nat := 0
  unbondingQueue : List UnbondingEntry := []
  /-- A sentinel inserted for an observed block producer. -/
  seeded : Bool := false
  stakeGeneration : UInt64 := 0
  stakeAuthNonce : Nat := 0
  deriving DecidableEq

/-- The two states in which a validator can neither stake nor withdraw. -/
def ValidatorStatus.closed (s : ValidatorStatus) : Bool := s = .unbonding || s = .exited

/-- `ValidatorAuthorityFork`: from `height` on, `replacement` signs for `identity`. -/
structure ValidatorAuthorityFork where
  height : Nat
  parent : Hash32
  identity : ValidatorPubKey
  replacement : ValidatorPubKey
  registrySHA256 : Hash32
  deriving DecidableEq

/-- `Authority`; a nil fork changes nothing. -/
def authority (fork : Option ValidatorAuthorityFork) (identity : ValidatorPubKey) (height : Nat) :
    ValidatorPubKey :=
  match fork with
  | some f => if height ≥ f.height ∧ identity = f.identity then f.replacement else identity
  | none => identity

/-- The validators map, keyed by public key. -/
abbrev Validators := GoMap ValidatorPubKey ValidatorEntry

structure ValidatorRegistry where
  validators : Validators := ∅
  /-- `0` selects the static minimum. -/
  dynamicMinNAPR : Nat := 0
  utxos : Option UTXOSet := none
  stakeWithdrawalGenesis : Hash32 := 0
  stakeWithdrawalActivation : Nat := 0
  stakeKeyImageActivation : Nat := 0
  signatureFork : Option ValidatorAuthorityFork := none

namespace ValidatorRegistry

variable (C : Externals) (r : ValidatorRegistry)

/-- The minimum stake in force (`CurrentMinStake`). -/
def effectiveMin : Nat := if r.dynamicMinNAPR = 0 then minStakeNAPR else r.dynamicMinNAPR

def verifyValidatorSignature (identity : ValidatorPubKey) (height : Nat) (msg : Hash32)
    (signature : Bytes) : Bool :=
  ValidatorPubKey.verify C (authority r.signatureFork identity height) msg signature

/-! ### Seeding and configuration -/

/-- `InitFromGenesis` and `SeedFromObservedProducers` differ in the stake and the seeded mark of the
entries they insert; neither overwrites an entry. -/
def insertActive (stake : Nat) (seeded : Bool) (pubs : List ValidatorPubKey) : ValidatorRegistry :=
  { r with
    validators := pubs.foldl (fun m pub =>
      if m.has pub then m
      else m.set pub
        { pubKey := pub, stakeNAPR := stake, status := .active, seeded, stakeGeneration := 1 })
      r.validators }

def initFromGenesis (pubs : List ValidatorPubKey) (genesisStake : Nat) : ValidatorRegistry :=
  r.insertActive genesisStake false pubs

def seedFromObservedProducers (pubs : List ValidatorPubKey) : ValidatorRegistry :=
  r.insertActive minStakeNAPR true pubs

/-- `UpdateMinStake`, with the minimum computed from the price. -/
def updateMinStake (napro : Nat) : ValidatorRegistry := { r with dynamicMinNAPR := napro }

def configureStakeWithdrawalV2 (genesis : Hash32) (activation : Nat) : Result ValidatorRegistry := do
  failIf (genesis = 0 ∨ activation = 0)
    "stake withdrawal v2: genesis and activation height required"
  failIf (r.stakeWithdrawalActivation ≠ 0 ∧
      (r.stakeWithdrawalActivation ≠ activation ∨ r.stakeWithdrawalGenesis ≠ genesis))
    "stake withdrawal v2: conflicting activation binding"
  .ok { r with stakeWithdrawalGenesis := genesis, stakeWithdrawalActivation := activation }

def configureStakeKeyImageV4 (activation : Nat) : Result ValidatorRegistry := do
  failIf (activation = 0) "stake key-image v4: activation height is required"
  failIf (r.stakeKeyImageActivation ≠ 0 ∧ r.stakeKeyImageActivation ≠ activation)
    "stake key-image v4: conflicting activation height"
  .ok { r with stakeKeyImageActivation := activation }

end ValidatorRegistry

structure RegistrySnapshot where
  validators : Validators
  dynamicMinNAPR : Nat

namespace ValidatorRegistry

variable (C : Externals) (r : ValidatorRegistry)

def takeSnapshot : RegistrySnapshot := ⟨r.validators, r.dynamicMinNAPR⟩

def restoreFromSnapshot (snap : RegistrySnapshot) : ValidatorRegistry :=
  { r with validators := snap.validators, dynamicMinNAPR := snap.dynamicMinNAPR }

/-- `ConfigureSignatureAuthority` for a fork that passed its own validation: the rule is bound
once. -/
def configureSignatureAuthority (f : ValidatorAuthorityFork) : Result ValidatorRegistry := do
  failIf (r.signatureFork.any (· ≠ f)) "registry: conflicting signature authority fork"
  .ok { r with signatureFork := some f }

/-! ### Deposits and withdrawals of one entry -/

def demoteSeeded (m : Validators) : Validators :=
  m.map fun e => if e.seeded then { e with status := .exited, seeded := false } else e

/-- A real deposit replaces a seeded entry; the generation skips zero when it wraps. -/
def replaceSeeded (e : ValidatorEntry) (amount height : Nat) : ValidatorEntry :=
  let generation := e.stakeGeneration + 1
  { e with
    stakeNAPR := amount
    status := .pending
    activationEpoch := height / epochLength + 1
    seeded := false
    unbondEndBlock := 0
    unbondingQueue := []
    stakeGeneration := if generation = 0 then 1 else generation }

/-- A top-up of a real entry. -/
def topUp (e : ValidatorEntry) (amount : Nat) : Result ValidatorEntry := do
  failIf (e.stakeNAPR > maxUint64 - amount)
    s!"stake top-up overflow: current {C.formatAPRO e.stakeNAPR} + deposit {C.formatAPRO amount} would exceed uint64"
  failIf (e.stakeGeneration.toNat = maxUint64) "stake collateral generation exhausted"
  .ok { e with stakeNAPR := e.stakeNAPR + amount, stakeGeneration := e.stakeGeneration + 1 }

/-- What `applyDeposit` makes of the entry that stands under the key. -/
def depositEntry (pub : ValidatorPubKey) (amount height : Nat) :
    Option ValidatorEntry → Result ValidatorEntry
  | none =>
    .ok { pubKey := pub, stakeNAPR := amount, status := .pending
          activationEpoch := height / epochLength + 1, stakeGeneration := 1 }
  | some e =>
    if e.status.closed then
      fail s!"validator is unbonding/exited; wait {unbondingBlocks} blocks before re-staking"
    else if e.seeded then .ok (replaceSeeded e amount height)
    else topUp C e amount

def applyDeposit (pub : ValidatorPubKey) (amount height : Nat) : Result ValidatorRegistry := do
  failIf (amount < r.effectiveMin)
    s!"deposit too low: {C.formatAPRO amount} APRO < minimum {C.formatAPRO r.effectiveMin} APRO"
  failIf (amount > maxStakeNAPR)
    s!"deposit amount {C.formatAPRO amount} APRO exceeds per-validator cap {C.formatAPRO maxStakeNAPR} APRO"
  let e ← depositEntry C pub amount height (r.validators.get pub)
  .ok { r with validators := demoteSeeded (r.validators.set pub e) }

def applyWithdraw (pub : ValidatorPubKey) (height : Nat) : Result ValidatorRegistry :=
  match r.validators.get pub with
  | none => fail s!"validator {pub.id} not registered"
  | some e => do
    failIf e.status.closed "validator already unbonding or exited"
    .ok { r with
      validators := r.validators.set pub
        { e with status := .unbonding, unbondEndBlock := (height + unbondingBlocks) % 2 ^ 64 } }

def applyPartialWithdraw (pub : ValidatorPubKey) (amount height : Nat) :
    Result ValidatorRegistry :=
  match r.validators.get pub with
  | none => fail s!"validator {pub.id} not registered"
  | some e => do
    failIf e.status.closed "validator is unbonding/exited; cannot partial withdraw"
    failIf (amount = 0) "partial withdraw amount must be > 0"
    failIf (amount ≥ e.stakeNAPR)
      s!"withdrawal amount {amount} >= current stake {e.stakeNAPR}; use full StakeWithdraw instead"
    let remaining := e.stakeNAPR - amount
    failIf (remaining < r.effectiveMin)
      s!"remaining stake {C.formatAPRO remaining} APRO < minimum {C.formatAPRO r.effectiveMin} APRO; reduce withdrawal amount or use full exit"
    .ok { r with
      validators := r.validators.set pub
        { e with
          stakeNAPR := remaining
          unbondingQueue := e.unbondingQueue ++
            [⟨amount, (height + partialUnbondingBlocks) % 2 ^ 64⟩] } }

end ValidatorRegistry

/-! ### The epoch transition -/

/-- The validators map in the order of one `range` over it. -/
abbrev ValidatorOrder := List (ValidatorPubKey × ValidatorEntry)

/-- Order of the validators by stake, highest first. -/
def stakeMore (a b : ValidatorPubKey × ValidatorEntry) : Bool := a.2.stakeNAPR > b.2.stakeNAPR

/-- Order of public keys by their hexadecimal text, which is the order of their bytes. -/
def pubLess (a b : ValidatorPubKey) : Bool := a.map UInt8.toNat < b.map UInt8.toNat

/-- The validators with one status, in the order of the enumeration. -/
def withStatus (s : ValidatorStatus) (l : ValidatorOrder) : ValidatorOrder :=
  l.filter (·.2.status = s)

/-- Step 1: an unbonded validator exits, and finished partial withdrawals leave the queue. -/
def ValidatorEntry.release (height : Nat) (e : ValidatorEntry) : ValidatorEntry :=
  { e with
    status := if e.status = .unbonding ∧ height ≥ e.unbondEndBlock then .exited else e.status
    unbondingQueue := e.unbondingQueue.filter (height < ·.endBlock) }

/-- Step 2: the number of active validators. -/
def activeCount (m : Validators) : Nat := m.count (·.status = .active)

/-- Step 3: the loop over the sorted pending validators. -/
def activateLoop (currentEpoch slots : Nat) : Nat → ValidatorOrder → Validators → Validators
  | _, [], m => m
  | activated, (k, e) :: rest, m =>
    if activated ≥ slots then m
    else if currentEpoch ≥ e.activationEpoch then
      activateLoop currentEpoch slots (activated + 1) rest (m.set k { e with status := .active })
    else activateLoop currentEpoch slots activated rest m

/-- The seats step 3 may fill. -/
def activationSlots (m : Validators) : Nat :=
  if activeCount m < maxValidators then min (maxValidators - activeCount m) churnLimit else 0

/-- `sortedPendingLocked`, for one order of the map. -/
def sortedPending (order : ValidatorOrder) : ValidatorOrder :=
  sortSlice stakeMore (withStatus .pending order)

/-- Step 3: activate pending validators, highest stake first. -/
def activatePending (height : Nat) (order : ValidatorOrder) (m : Validators) : Validators :=
  if activeCount m < maxValidators then
    activateLoop (height / epochLength) (activationSlots m) 0 (sortedPending order) m
  else m

/-- `rebalanceLocked`, for one order of the map. -/
def rebalance (order : ValidatorOrder) (m : Validators) : Validators :=
  let active := withStatus .active order
  if active.length ≤ maxValidators then m
  else ((sortSlice stakeMore active).drop maxValidators).foldl (fun m (k, e) =>
    m.set k
      { e with status := .pending, activationEpoch := (e.activationEpoch + 1) % 2 ^ 64 }) m

/-- `activeSetLocked`, for one order of the map. -/
def activeSet (order : ValidatorOrder) : List ValidatorPubKey :=
  sortSlice pubLess ((withStatus .active order).map (·.2.pubKey))

theorem weakOrder_pubLess : WeakOrder pubLess := by
  convert weakOrder_of_key fun pub : ValidatorPubKey => pub.map UInt8.toNat using 3
  unfold pubLess
  congr

theorem pubLess_antisymm (a b : ValidatorPubKey) (hab : pubLess a b = false)
    (hba : pubLess b a = false) : a = b := by
  unfold pubLess at hab hba
  rw [decide_eq_false_iff_not, not_lt] at hab hba
  have hinj : Function.Injective UInt8.toNat := fun x y h => UInt8.toNat_inj.mp h
  exact List.map_injective_iff.mpr hinj (le_antisymm hba hab)

theorem activeSet_perm (order order' : ValidatorOrder) (h : order.Perm order') :
    activeSet order = activeSet order' :=
  sortSlice_eq_of_perm weakOrder_pubLess pubLess_antisymm ((h.filter _).map _)

theorem activeSet_eq {order : ValidatorOrder} {pubs : List ValidatorPubKey}
    (hp : ((withStatus .active order).map (·.2.pubKey)).Perm pubs)
    (hs : pubs.Pairwise fun a b => pubLess b a = false) : activeSet order = pubs :=
  (sortSlice_eq_of_perm weakOrder_pubLess pubLess_antisymm hp).trans (sortSlice_of_sorted hs)

def ValidatorRegistry.getActiveValidators (r : ValidatorRegistry) : List ValidatorPubKey :=
  r.validators.rangeLift activeSet activeSet_perm

/-- The orders in which `UpdateEpoch` meets the validators map. -/
structure EpochOrders where
  pending : ValidatorOrder
  active : ValidatorOrder
  final : ValidatorOrder

namespace ValidatorRegistry

variable (r : ValidatorRegistry) (height : Nat)

/-- The map after step 1. -/
def released : Validators := r.validators.map (·.release height)

/-- The map after step 3. -/
def activated (o : EpochOrders) : Validators := activatePending height o.pending (r.released height)

/-- The map after step 4. -/
def rebalanced (o : EpochOrders) : Validators := rebalance o.active (r.activated height o)

/-- `UpdateEpoch`: the registry after the transition, and the new active set. -/
def updateEpoch (o : EpochOrders) : ValidatorRegistry × List ValidatorPubKey :=
  ({ r with validators := r.rebalanced height o }, activeSet o.final)

end ValidatorRegistry

/-- Orders Go's `range` may give: each is an enumeration of the map it is taken from. -/
structure EpochOrders.Valid (r : ValidatorRegistry) (height : Nat) (o : EpochOrders) : Prop where
  pending : o.pending ∈ (r.released height).enumerations
  active : o.active ∈ (r.activated height o).enumerations
  final : o.final ∈ (r.rebalanced height o).enumerations

end Aperod
