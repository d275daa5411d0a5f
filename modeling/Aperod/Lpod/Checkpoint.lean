import Aperod.Core.Block
import Aperod.Go.Range
import Aperod.Lpod.Accounting

/-!
# The LPoD checkpoint

The records of `store/lpod.go`, `lpod_positions.go`, `lpod_migration.go` and `genesis_vesting.go`: a
guardian's position, the allocation the fund was reconciled from, the genesis reserve, and the
checkpoint that holds them together with the accounting state.  `Checkpoint.validatePositions` is the
check of the positions, and `DB` the part of the database that LPoD reads and writes.

Positions and vaults are named by the 32 bytes whose hex form the source uses as a name; the hex form
keeps equality and order.  What `json.Marshal` writes for the hashed records is a parameter
(`Encodings`), and so is the output `BuildLPoDPayoutOutput` makes.
-/

namespace Aperod.Lpod

open Go

/-! ### Positions -/

def maxPositions : Nat := 4096

def maxElapsedNS : UInt64 := 15000000000

/-- `lpodAPRDenominator`: an APR in percent, per nanosecond. -/
def aprDenominator : UInt64 := 100 * yearSeconds * 1000000000

structure ValidatorStake where
  amount : UInt64 := 0
  active : Bool := false
  deriving DecidableEq

/-- A stake table: the validators by their public keys. -/
abbrev StakeTable := GoMap Bytes ValidatorStake

structure Position where
  deposit : LPoDPositionAction
  nonce : UInt64 := 0
  /-- The height of the full exit. -/
  unlockHeight : UInt64 := 0
  returned : Bool := false
  due : UInt64 := 0
  aprCarry : UInt64 := 0
  withdrawn : UInt64 := 0
  /-- Set only by a reassignment. -/
  effectiveVault : Option Point32 := none
  routeHeight : UInt64 := 0
  autoReturned : Bool := false
  deriving DecidableEq

abbrev Positions := GoMap Bytes Position

def positionID (a : LPoDPositionAction) : Bytes := a.positionID.bytes

def vaultID (a : LPoDPositionAction) : Bytes := a.vault.bytes

namespace Position

/-- `LPoDEffectiveVault`. -/
def vault (p : Position) : Point32 := p.effectiveVault.getD p.deposit.vault

def vaultID (p : Position) : Bytes := p.vault.bytes

/-- The principal that is still locked. -/
def remaining (p : Position) : UInt64 := p.deposit.amount - p.withdrawn

end Position

def lpodAdd : UInt64 → UInt64 → Result UInt64 := Go.addOr "lpod: amount overflow"

/-- `m[k], err = lpodAdd(m[k], n)`. -/
def tallyAdd (m : Tally) (k : Bytes) (n : UInt64) : Result Tally :=
  m.addAmount "lpod: amount overflow" k n

/-! ### Allocation -/

structure NominalSnapshot where
  basis : String
  nominalCirculatingBefore : UInt64
  eligibleNominal : UInt64
  preexistingGuardianReservation : UInt64
  validatorRemaining : UInt64
  eligibilityRule : String
  deriving DecidableEq

structure Attestation where
  validator : ValidatorPubKey
  signature : Bytes
  deriving DecidableEq

structure Opening where
  height : UInt64
  txIndex : UInt32
  outputIndex : UInt32
  amount : UInt64
  blind : BlindFactor
  deriving DecidableEq

structure Migration where
  version : UInt8
  positionLifecycleVersion : UInt8
  height : UInt64
  genesis : Hash32
  reconciliationRoot : Hash32
  openings : List Opening := []
  bodyRoot : Hash32 := 0
  historicalIssued : UInt64 := 0
  validatorRemaining : UInt64
  attestations : List Attestation
  trustedValidators : List ValidatorPubKey
  trustAssumption : String := ""
  parentHash : Hash32 := 0
  snapshotRoot : Hash32 := 0
  historicalSaleRemain : UInt64 := 0
  nominalEligible : UInt64 := 0
  nominalSnapshot : Option NominalSnapshot := none
  deriving DecidableEq

structure Allocation where
  version : UInt8
  positionLifecycleVersion : UInt8
  genesis : Hash32
  fundingHeight : UInt64
  fundingBlock : Hash32
  reconciliationRoot : Hash32
  historicalIssued : UInt64
  remaining : UInt64
  validatorRemaining : UInt64
  initialValidatorRemaining : UInt64
  tailIssued : UInt64 := 0
  declaredSaleRemaining : UInt64
  snapshotRoot : Hash32
  fundingParent : Hash32
  trustAssumption : String
  nominalEligible : UInt64
  nominalSnapshot : Option NominalSnapshot
  deriving DecidableEq

/-! ### The genesis reserve -/

structure GenesisVestingFunding where
  version : UInt32
  genesis : Hash32
  snapshot : Hash32
  height : UInt64
  recipient : Address
  reserve : UInt64
  otherAllocations : UInt64
  trust : String
  liquidityRecipient : Address := ""
  liquidityAmount : UInt64 := 0
  liquidityTrust : String := ""
  attestations : List Attestation
  deriving DecidableEq

structure GenesisVestingState where
  basis : String
  genesis : Hash32
  fundingHeight : UInt64
  fundingParent : Hash32
  recipient : Address
  fundingDebit : UInt64
  sourceSnapshot : Hash32
  fundingProof : Option GenesisVestingFunding
  originalNonCirculating : UInt64
  otherNonCirculating : UInt64
  remaining : UInt64
  paid : UInt64 := 0
  paidHeights : Fin 10 → UInt64 := fun _ => 0
  liquidityRecipient : Address := ""
  liquidityPaid : UInt64 := 0
  deriving DecidableEq

/-! ### Checkpoints -/

structure Checkpoint where
  genesisVesting : Option GenesisVestingState := none
  state : State
  carries : Carries
  allocation : Option Allocation := none
  positions : Positions := ∅
  principalDeposited : UInt64 := 0
  principalLocked : UInt64 := 0
  principalReturned : UInt64 := 0
  deriving DecidableEq

/-- `LPoDSettlement`: what consensus prepares for a block.  The audit evidence it carries besides is
read by no modelled function. -/
structure Settlement where
  genesisVestingActivationHeight : UInt64 := 0
  genesisVestingFunding : Option GenesisVestingFunding := none
  parent : Hash32
  vaults : List Vault := []
  migration : Option Migration := none
  positionProtocol : Bool := true
  timestamp : Int
  proposer : Bytes
  leader : Address := ""
  stake : StakeTable
  /-- The stakes before the operations of the block. -/
  previousStake : StakeTable
  transactions : List Transaction := []

/-- What `json.Marshal` writes for the records that are hashed, and the outputs of a payout. -/
structure Encodings where
  block : Block → Bytes
  checkpoint : Checkpoint → Bytes
  /-- The fields a version 1 checkpoint commits to. -/
  legacyCheckpoint : Checkpoint → Bytes
  snapshot : NominalSnapshot → Bytes
  migration : Migration → Bytes
  /-- The fields a version 2 or 3 migration commits to, with its sorted authorities. -/
  trustedMigration : Migration → List ValidatorPubKey → Bytes
  funding : GenesisVestingFunding → Bytes
  /-- `BuildLPoDPayoutOutput`: address, amount, height, parent and digest. -/
  payoutOutput : Address → UInt64 → UInt64 → Hash32 → Hash32 → Result Output

/-- What LPoD keeps in the database.  Block bodies and checkpoints are JSON there; they are read back
as they were written. -/
structure DB where
  /-- `GetTip`. -/
  tip : Hash32 × UInt64
  /-- The full body of a block by its hash. -/
  blocks : GoMap Hash32 Block
  /-- The canonical hash of a height. -/
  heights : GoMap UInt64 Hash32
  checkpoints : GoMap Hash32 Checkpoint := ∅
  /-- `lpod/activation/v1` to `v3`, by version. -/
  bindings : GoMap UInt8 Hash32 := ∅
  /-- `LoadStakingPoolRemaining`. -/
  stakingPool : Option UInt64
  /-- Sales are active. -/
  saleState : Bool := false

variable (C : Externals) (K : Encodings)

/-- `LPoDCheckpoint.Digest`: the funding block, which carries the digest itself, is left out. -/
def Checkpoint.digest (c : Checkpoint) : Hash32 :=
  let bytes := match c.allocation with
    | none => K.checkpoint c
    | some a =>
      let c' := { c with allocation := some { a with fundingBlock := 0 } }
      if a.version = 1 then K.legacyCheckpoint c' else K.checkpoint c'
  C.hashBytes (ascii "aperod/lpod/checkpoint/v1" ++ bytes)

def DB.readCanonicalBlock (d : DB) (height : UInt64) : Result Block :=
  match (d.heights.get height).bind fun hash => (d.blocks.get hash).map fun b => (hash, b) with
  | none => fail s!"missing canonical block {height}: <nil>"
  | some (hash, b) => do
    failIf (hash ≠ b.hash C) s!"lpod: pruned or noncanonical block {height}"
    .ok b

/-! ### The check of the positions -/

/-- A position that is not returned counts for the locked principal. -/
def Position.addLocked (p : Position) (locked : UInt64) : Result UInt64 :=
  if p.returned then .ok locked else lpodAdd locked p.remaining

/-- The checks of one position; `sums` are the principal and the liability so far. -/
def Checkpoint.checkPosition (c : Checkpoint) (id : Bytes) (p : Position) (sums : UInt64 × UInt64) :
    Result (UInt64 × UInt64) := do
  failIf (id ≠ positionID p.deposit ∨ p.deposit.action ≠ lpodDeposit ∨ p.deposit.nonce ≠ 0 ∨
      p.deposit.withdrawAmount ≠ 0 ∨ p.deposit.amount = 0 ∨ p.withdrawn > p.deposit.amount ∨
      p.returned ≠ decide (p.withdrawn = p.deposit.amount) ∨
      (¬ p.autoReturned ∧ decide (p.nonce = 0) ≠ decide (p.withdrawn = 0)) ∨
      (p.autoReturned ∧ ¬ p.returned) ∨ p.aprCarry ≥ aprDenominator ∨
      decide (p.unlockHeight = 0) ≠ !p.returned ∨ p.unlockHeight > c.state.lastHeight)
    "lpod: corrupt canonical position"
  failIf (∃ v ∈ p.effectiveVault, v = p.deposit.vault ∨ p.routeHeight = 0 ∨
      p.routeHeight > c.state.lastHeight) "lpod: corrupt effective vault route"
  let locked ← p.addLocked sums.1
  let due ← lpodAdd sums.2 p.due
  .ok (locked, due)

def Checkpoint.validatePositions (o : RangeOrder) (c : Checkpoint) : Result Unit := do
  failIf (c.positions.len > maxPositions) "lpod: position capacity exceeded"
  let sums ← o.forRange c.positions c.checkPosition (0, 0)
  match lpodAdd c.principalLocked c.principalReturned with
  | .error _ => fail "lpod: principal or position liability conservation failed"
  | .ok total =>
    failIf (total ≠ c.principalDeposited ∨ sums.1 ≠ c.principalLocked ∨
        (c.allocation.isSome ∧ sums.2 ≠ c.state.unfundedLiability))
      "lpod: principal or position liability conservation failed"

end Aperod.Lpod
