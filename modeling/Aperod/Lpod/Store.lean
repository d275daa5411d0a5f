import Aperod.Lpod.Positions
import Mathlib.Data.Finset.Sort
import Mathlib.Data.String.Basic

/-!
# Loading and committing checkpoints

`store/lpod.go`: a checkpoint is stored under the hash of its block.  `DB.loadCheckpoint` checks
everything about a stored checkpoint again, up to the block that funded the reserve.
`DB.commitRawBlock` validates the block against a fresh preview, appends the checkpoint and moves the
tip; the parts of a commit that belong to sales, contracts and indices are not in the model, so it
accepts whatever they would reject.
-/

namespace Aperod.Lpod

open Go

variable (C : Externals) (K : Encodings) (o : RangeOrder)

/-! ### Loading -/

namespace Allocation

variable (a : Allocation)

def validV1 : Bool :=
  a.version = 1 && a.declaredSaleRemaining = 0 && a.snapshotRoot = 0 && a.fundingParent = 0 &&
    a.trustAssumption = "" && a.nominalEligible = 0 && a.nominalSnapshot = none &&
    a.historicalIssued ≤ publicAllocation - a.initialValidatorRemaining - initialNAPRO &&
    a.remaining =
      publicAllocation - a.initialValidatorRemaining - a.historicalIssued - initialNAPRO

def validV2 : Bool :=
  a.version = 2 && a.declaredSaleRemaining ≥ initialNAPRO && a.nominalEligible = 0 &&
    a.nominalSnapshot = none && a.historicalIssued ≤ publicAllocation - a.initialValidatorRemaining &&
    a.declaredSaleRemaining ≤
      publicAllocation - a.initialValidatorRemaining - a.historicalIssued &&
    a.remaining = a.declaredSaleRemaining - initialNAPRO && a.snapshotRoot ≠ 0 &&
    a.fundingParent ≠ 0 && a.genesis ≠ 0 && a.trustAssumption = v2TrustAssumption

def validV3 : Bool :=
  a.version = 3 && a.declaredSaleRemaining = 0 && a.historicalIssued = 0 &&
    a.nominalEligible ≥ initialNAPRO && a.nominalEligible ≤ nominalAllocationMax &&
    a.nominalEligible ≤ publicAllocation - a.initialValidatorRemaining &&
    a.remaining = a.nominalEligible - initialNAPRO && a.snapshotRoot ≠ 0 && a.fundingParent ≠ 0 &&
    a.genesis ≠ 0 && a.trustAssumption = v3TrustAssumption &&
    a.nominalSnapshot.any (·.valid C K a.nominalEligible a.initialValidatorRemaining a.snapshotRoot)

/-- The part of the rewards that came from the pool. -/
def drawn (rewardInflow : UInt64) : UInt64 :=
  if rewardInflow > a.initialValidatorRemaining then a.initialValidatorRemaining else rewardInflow

/-- The checks of an allocation against the accounting state. -/
def check (s : State) : Result Unit := do
  failIf (a.initialValidatorRemaining > validatorAllocation ∨
      a.initialValidatorRemaining > publicAllocation - initialNAPRO)
    "store: corrupt LPoD validator allocation bounds"
  failIf ((¬ a.validV1 ∧ ¬ a.validV2 ∧ ¬ a.validV3 C K) ∨ a.positionLifecycleVersion ≠ 1 ∨
      a.fundingHeight = 0 ∨ s.lastHeight < a.fundingHeight ∨ s.fundingDebit ≠ initialNAPRO ∨
      a.validatorRemaining ≠ a.initialValidatorRemaining - a.drawn s.rewardInflow ∨
      a.tailIssued ≠ s.rewardInflow - a.drawn s.rewardInflow)
    "store: corrupt LPoD conserved allocation"

end Allocation

namespace DB

variable (d : DB)

/-- The block of a funded checkpoint commits to it. -/
def checkCommitment (hash : Hash32) (c : Checkpoint) : Result Unit :=
  match d.blocks.get hash with
  | none => fail "store: funded checkpoint lacks its full committing block"
  | some b => do
    failIf (b.hash C ≠ hash ∨ b.header.height ≠ c.state.lastHeight.toNat ∨ b.txs.length < 2)
      "store: funded checkpoint lacks its full committing block"
    let tx ← index b.txs 1
    failIf (tx.lpodCheckpointDigest.toOption ≠ some (c.digest C K))
      "store: checkpoint differs from signed block commitment"

/-- The canonical block that funded a version 2 or 3 allocation. -/
def readFundingBlock (a : Allocation) : Result Block :=
  match d.readCanonicalBlock C a.fundingHeight with
  | .error _ => fail "store: trusted checkpoint funding block is not canonical"
  | .ok funding => do
    failIf (funding.hash C ≠ a.fundingBlock ∨ funding.header.height ≠ a.fundingHeight.toNat ∨
        funding.header.prevHash ≠ a.fundingParent ∨ funding.txs.length < 2)
      "store: trusted checkpoint funding block is not canonical"
    .ok funding

/-- The record of the funding block is the same allocation, and the block commits to it. -/
def checkFundingRecord (a : Allocation) (funding : Block) (loaded : Result (Option Checkpoint)) :
    Result Unit :=
  match loaded.toOption.join with
  | none => fail "store: trusted checkpoint funding record is unavailable or inconsistent"
  | some fc => do
    failIf (¬ fc.allocation.any fun fa => fa.version = a.version ∧
        fa.fundingBlock = a.fundingBlock ∧ fa.fundingHeight = a.fundingHeight ∧
        fa.fundingParent = a.fundingParent ∧ fa.reconciliationRoot = a.reconciliationRoot)
      "store: trusted checkpoint funding record is unavailable or inconsistent"
    let tx ← index funding.txs 1
    failIf (tx.lpodCheckpointDigest.toOption ≠ some (fc.digest C K))
      "store: trusted funding block differs from its signed allocation commitment"

/-- The genesis reserve comes from this allocation. -/
def checkReserve (c : Checkpoint) (a : Allocation) : Result Unit :=
  match c.genesisVesting with
  | none => .ok ()
  | some v => v.validateSource C K (some a) c.state.lastHeight

/-- The checks of a funded checkpoint; `load` loads the record of another block. -/
def checkFunded (load : Hash32 → Result (Option Checkpoint)) (hash : Hash32) (c : Checkpoint)
    (a : Allocation) : Result Unit := do
  checkReserve C K c a
  a.check C K c.state
  d.checkCommitment C K hash c
  if a.version = 2 ∨ a.version = 3 then do
    let funding ← d.readFundingBlock C a
    checkFundingRecord C K a funding (if hash = a.fundingBlock then .ok (some c)
      else load a.fundingBlock)
  else .ok ()

/-- The same for a checkpoint that may be unfunded. -/
def checkFunding (load : Hash32 → Result (Option Checkpoint)) (hash : Hash32) (c : Checkpoint) :
    Result Unit :=
  match c.allocation with
  | none => .ok ()
  | some a => d.checkFunded C K load hash c a

/-- `loadLPoDCheckpointWithReadBudget` without a budget.  The record of the funding block is loaded
the same way; `fuel` bounds the depth. -/
def loadCheckpointAt : Nat → Hash32 → Result (Option Checkpoint)
  | 0, _ => .error .panic
  | fuel + 1, hash =>
    match d.checkpoints.get hash with
    | none => .ok none
    | some c => do
      c.state.validate
      c.validatePositions o
      d.checkFunding C K (loadCheckpointAt fuel) hash c
      failIf (¬ c.carries.all Carry.valid) "store: corrupt LPoD rounding carry"
      .ok (some c)

/-- `lpodCheckpoint`: a chain of funding records without a repetition is no longer than the number of
records. -/
def lpodCheckpoint (hash : Hash32) : Result (Option Checkpoint) :=
  d.loadCheckpointAt C K o (d.checkpoints.len + 1) hash

def loadCheckpoint : Result (Option Checkpoint) := do
  let c ← d.lpodCheckpoint C K o d.tip.1
  failIf (∃ c' ∈ c, c'.state.lastHeight ≠ d.tip.2) "store: LPoD height differs from canonical tip"
  .ok c

/-! ### Preview -/

def checkSaleGenesisFundingTransition (height : UInt64) (settlement : Option Settlement)
    (activatingSales : Bool) : Result Unit :=
  if settlement.all fun r =>
      r.genesisVestingActivationHeight = 0 ∨ height < r.genesisVestingActivationHeight then .ok ()
  else do
    let c ← d.loadCheckpoint C K o
    failIf ((c.bind (·.genesisVesting)).isNone ∧ (activatingSales ∨ d.saleState))
      "sale: new genesis funding requires a versioned shared reserve transition"

/-- The checkpoint a block starts from: the loaded one, or the one its migration funds. -/
def checkpointBefore (duplicate : String) (hash : Hash32) (height : UInt64) (r : Settlement)
    (loaded : Option Checkpoint) : Result Checkpoint :=
  match loaded with
  | none => d.fundingCheckpoint C K hash height r.migration
  | some c => do
    failIf r.migration.isSome duplicate
    .ok c

def previewLPoD (height : UInt64) (r : Settlement) : Result (Checkpoint × List Payment) := do
  d.checkSaleGenesisFundingTransition C K o height (some r) false
  failIf (r.parent ≠ d.tip.1) "lpod: invalid preview parent"
  let loaded ← d.loadCheckpoint C K o
  let before ← d.checkpointBefore C K "lpod: duplicate migration" 0 height r loaded
  if r.positionProtocol then d.previewPositions C K o before height r
  else do
    failIf (r.genesisVestingActivationHeight ≠ 0 ∨ before.genesisVesting.isSome)
      "genesis vesting: position protocol required"
    let (state, carries, payments) ← settle before.state before.carries height r.vaults
    let allocation ← rewardDebit before.allocation r.vaults
    .ok ({ state, carries, allocation }, payments)

/-! ### Payout -/

abbrev Amounts := GoMap Address UInt64

/-- `add` of `PayoutLPoD`. -/
def addAmount (amounts : Amounts) (address : Address) (n : UInt64) : Result Amounts :=
  GoMap.addAmount "lpod: amount overflow" amounts address n

/-- The share of the proposer. -/
def payLeader (r : Settlement) (p : Payment) (amounts : Amounts) : Result Amounts :=
  if p.leader > 0 then do
    failIf (p.vaultID ≠ r.proposer) "lpod: non-proposer leader reward"
    addAmount amounts r.leader p.leader
  else .ok amounts

/-- What a position is paid: the part of its entitlement that is no longer due, and the principal
that was returned. -/
def payEntitlement (before accrued : Positions) (id : Bytes) (p : Position) (amounts : Amounts) :
    Result Amounts := do
  let owed := (accrued.get id).elim 0 (·.due)
  let priorWithdrawn := (before.get id).elim 0 (·.withdrawn)
  failIf (p.due > owed) "lpod: invalid payout entitlement"
  failIf (p.withdrawn < priorWithdrawn) "lpod: principal return counter decreased"
  let n ← lpodAdd (owed - p.due)
    (if p.withdrawn > priorWithdrawn then p.withdrawn - priorWithdrawn else 0)
  addAmount amounts p.deposit.beneficiary n

/-- The tranches and the liquidity release of the height. -/
def payVesting (height : UInt64) (after : Checkpoint) (amounts : Amounts) : Result Amounts :=
  match after.genesisVesting with
  | none => .ok amounts
  | some v => do
    let a ← deref after.allocation
    v.validate a.genesis height
    let amounts ← addAmount amounts v.recipient (v.paymentAt height)
    if height = v.fundingHeight ∧ v.liquidityPaid > 0 then
      addAmount amounts v.liquidityRecipient v.liquidityPaid
    else .ok amounts

/-- The addresses that are paid something, in order. -/
def paidAddresses (amounts : Amounts) : List Address :=
  (amounts.keys.filter fun a => amounts.amount a > 0).sort (· ≤ ·)

/-- The checkpoint the entitlements of a block are computed from. -/
def payoutBase (height : UInt64) (r : Settlement) (loaded : Option Checkpoint) : Result Checkpoint :=
  match loaded.filter (·.allocation.isSome) with
  | some c => .ok c
  | none => d.fundingCheckpoint C K 0 height r.migration

def payoutLPoD (height : UInt64) (r : Settlement) (after : Checkpoint) (payments : List Payment) :
    Result Transaction := do
  let loaded ← d.loadCheckpoint C K o
  let base ← d.payoutBase C K height r loaded
  let accrued ← d.positionTransition C o base height r
  let amounts ← loop (fun _ => payLeader r) 0 payments ∅
  let amounts ← o.forRange after.positions
    (payEntitlement (loaded.elim ∅ (·.positions)) accrued.next.positions) amounts
  let amounts ← payVesting height after amounts
  let outputs ← mapLoop (fun _ a => K.payoutOutput a (amounts.amount a) height r.parent
    (after.digest C K)) 0 (paidAddresses amounts)
  .ok { version := .lpodPayout
        extra := C.payoutCodec.marshal ⟨r.leader, after.digest C K⟩, outputs }

/-! ### Commit -/

/-- The block carries the settled operations, the payout and the digest of the checkpoint. -/
def checkSettledBlock (b : Block) (height : UInt64) (r : Settlement) (c : Checkpoint)
    (payments : List Payment) : Result Unit := do
  failIf (r.timestamp ≠ b.header.timestamp ∨ r.proposer ≠ b.header.validatorPub ∨ b.txs.length < 2)
    "lpod: settlement does not bind canonical proposer and clock"
  failIf ((b.txs.drop 2).any (·.isExtraMint)) "lpod: extra protocol payout or mint"
  failIf (b.txs.drop 2 ≠ r.transactions) "lpod: operations omitted from settlement"
  let payout ← d.payoutLPoD C K o height r c payments
  let first ← index b.txs 0
  failIf (payout ≠ first) "lpod: real payout outputs differ from canonical plan"
  let tx ← index b.txs 1
  failIf (tx.lpodCheckpointDigest.toOption ≠ some (c.digest C K))
    "lpod: checkpoint does not commit position transition"

def validateLPoDBlock (b : Block) (hash : Hash32) (height : UInt64) (settlement : Option Settlement) :
    Result Unit :=
  match settlement with
  | none => .ok ()
  | some r => do
    let before ← d.loadCheckpoint C K o
    if r.migration = none ∧ (before.bind (·.allocation)) = none then .ok ()
    else do
      failIf (b.hash C ≠ hash ∨ b.header.height ≠ height.toNat ∨ b.header.prevHash ≠ r.parent ∨
          b.header.merkleRoot ≠ merkleRoot C b.txs) "lpod: block/settlement identity mismatch"
      let (c, payments) ← d.previewLPoD C K o height r
      failIf (¬ r.positionProtocol)
        "lpod: funded blocks require the authenticated position protocol"
      d.checkSettledBlock C K o b height r c payments

def settledCheckpoint (height : UInt64) (r : Settlement) (before : Checkpoint) :
    Result Checkpoint :=
  if r.positionProtocol then do
    let (c, _) ← d.previewPositions C K o before height r
    .ok c
  else do
    let (state, carries, _) ← settle before.state before.carries height r.vaults
    let allocation ← rewardDebit before.allocation r.vaults
    .ok { state, carries, allocation }

/-- `appendLPoDSettlement`: the checkpoint is stored under the hash of its block, and the pool of the
validators follows it. -/
def appendLPoDSettlement (hash : Hash32) (height : UInt64) (settlement : Option Settlement) :
    Result DB := do
  let loaded ← d.loadCheckpoint C K o
  match settlement with
  | none => do
    failIf loaded.isSome "store: funded LPoD ledger requires settlement on every block"
    .ok d
  | some r => do
    failIf (r.parent ≠ d.tip.1) "store: LPoD parent does not match durable tip"
    let before ← d.checkpointBefore C K "store: duplicate LPoD initial allocation" hash height r loaded
    let c ← d.settledCheckpoint C K o height r before
    failIf (∃ previous ∈ d.checkpoints.get hash, previous ≠ c)
      "store: conflicting LPoD checkpoint for block"
    .ok { d with
      checkpoints := d.checkpoints.set hash c
      bindings := match loaded, r.migration with
        | none, some m => d.bindings.set (bindingKey m.version) (m.root C K)
        | _, _ => d.bindings
      stakingPool := c.allocation.elim d.stakingPool fun a => some a.validatorRemaining }

/-- `commitRawBlock`.  The two loops over a map need not visit it in the same order, so the block is
validated with one order and appended with another. -/
def commitRawBlock (o' : RangeOrder) (b : Block) (hash : Hash32) (height : UInt64)
    (settlement : Option Settlement) (activatingSales : Bool) : Result DB := do
  d.validateLPoDBlock C K o b hash height settlement
  d.checkSaleGenesisFundingTransition C K o height settlement activatingSales
  let d' ← d.appendLPoDSettlement C K o' hash height settlement
  .ok { d' with
    blocks := d'.blocks.set hash b
    heights := d'.heights.set height hash
    tip := (hash, height) }

end DB

/-! ### Runs -/

/-- One call of `commitRawBlock`: its arguments, and the orders in which it visits the maps. -/
structure Commit where
  block : Block
  hash : Hash32
  height : UInt64
  settlement : Option Settlement
  activatingSales : Bool
  validateOrder : RangeOrder
  appendOrder : RangeOrder

/-- The step of a run: a commit that succeeds. -/
def Committed (C : Externals) (K : Encodings) (d : DB) (e : Commit) (d' : DB) : Prop :=
  d.commitRawBlock C K e.validateOrder e.appendOrder e.block e.hash e.height e.settlement
    e.activatingSales = .ok d'

end Aperod.Lpod
