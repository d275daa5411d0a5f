import Aperod.Lpod.Vesting

/-!
# The position transition

`positionTransition` of `lpod_positions.go` takes the positions of one block to those of the next:

* `carryOver` keeps the positions that are open or still owed something, and sums the guardians of
  each vault;
* `accrue` adds what each position earned since the parent block, at the tier of its vault;
* `applyOperation` applies the signed deposits and withdrawals of the block;
* `routePosition` moves the positions of a vault that is no longer eligible, or refunds them;
* `positionVault` states each vault for the settlement.

`previewPositions` settles the vaults, debits the reward and divides what is paid to a vault among
its positions (`payPosition`).  `lpodEligibleVaults` and `routeDestination` are from
`lpod_vault_rank.go`.
-/

namespace Aperod.Lpod

open Go

/-- A stake of the table; a validator without one has none. -/
def stakeAt (table : StakeTable) (id : Bytes) : ValidatorStake := (table.get id).getD {}

/-- The stake a vault accrues with: the one before the block if it left in the block. -/
def Settlement.accrualStake (r : Settlement) (id : Bytes) : ValidatorStake :=
  let stake := stakeAt r.stake id
  let prior := stakeAt r.previousStake id
  if ¬ stake.active ∧ prior.active then prior else stake

def withdrawalAmount (p : Position) (a : LPoDPositionAction) : Result UInt64 := do
  failIf (p.returned ∨ p.unlockHeight ≠ 0 ∨ p.withdrawn ≥ p.deposit.amount ∨ p.nonce = uint64Max)
    "lpod: unknown, closed or exhausted position"
  let expected := { p.deposit with
    action := lpodWithdraw, nonce := p.nonce + 1, withdrawAmount := a.withdrawAmount }
  failIf (expected ≠ a) "lpod: withdrawal changes ownership, source, vault or nonce"
  let amount := if a.withdrawAmount = 0 then p.remaining else a.withdrawAmount
  failIf (amount > p.remaining) "lpod: withdrawal exceeds remaining principal"
  .ok amount

/-! ### Ranking of vaults -/

structure VaultRank where
  id : Bytes
  validatorStake : UInt64
  guardianStake : UInt64
  totalStake : UInt64
  deriving DecidableEq

/-- The order of the ranking: the larger total first, equal totals by identity. -/
def VaultRank.before (a b : VaultRank) : Bool :=
  if a.totalStake ≠ b.totalStake then b.totalStake < a.totalStake else less a.id b.id

/-- A vault that can be ranked. -/
def rankVault (guardians : Tally) (id : Bytes) (stake : ValidatorStake) : Option VaultRank :=
  if id = [] ∨ ¬ stake.active ∨ stake.amount < minVault then none
  else match lpodAdd stake.amount (guardians.amount id) with
    | .error _ => none
    | .ok total => some ⟨id, stake.amount, guardians.amount id, total⟩

/-- `LPoDEligibleVaults`: the first 21. -/
def lpodEligibleVaults (o : RangeOrder) (stakes : StakeTable) (guardians : Tally) :
    List VaultRank :=
  (sortSlice VaultRank.before
    ((o.visit stakes).filterMap fun e => rankVault guardians e.1 e.2)).take 21

/-- One candidate of `lpodRouteDestination`; `best` is the best vault so far with its total, and no
vault has the empty name. -/
def considerVault (source : Bytes) (sourceBefore principal : UInt64) (stakes : StakeTable)
    (totals : Tally) (eligible : List Bytes) (id : Bytes) (best : Bytes × UInt64) :
    Result (Bytes × UInt64) :=
  let stake := stakeAt stakes id
  if id = source ∨ id ∉ eligible ∨ ¬ stake.active ∨ stake.amount < minVault then .ok best
  else do
    let total ← lpodAdd stake.amount (totals.amount id)
    .ok (if total > sourceBefore ∨ total > maxVault ∨ principal > maxVault - total then best
      else if best.1 = [] ∨ total > best.2 then (id, total) else best)

def routeDestination (source : Bytes) (sourceBefore principal : UInt64) (stakes : StakeTable)
    (totals : Tally) (eligible : List Bytes) : Result Bytes := do
  let best ← loop (fun _ => considerVault source sourceBefore principal stakes totals eligible) 0
    stakes.sortedKeys ([], 0)
  .ok best.1

/-! ### Accrual -/

/-- An open position counts for its vault. -/
def addOpen (p : Position) (totals : Tally) : Result Tally :=
  if p.unlockHeight = 0 then tallyAdd totals p.vaultID p.remaining else .ok totals

/-- What the loop over the positions before the block collects. -/
structure Carried where
  positions : Positions := ∅
  vaultIDs : GoMap Bytes Bool
  /-- The open principal of each vault. -/
  totals : Tally := ∅
  /-- The vault a position is paid through in this block. -/
  entitlementVault : GoMap Bytes Bytes := ∅

/-- One position before the block: a closed one that is owed nothing is dropped. -/
def carryOver (id : Bytes) (p : Position) (s : Carried) : Result Carried :=
  if p.returned ∧ p.due = 0 then .ok s
  else do
    let totals ← addOpen p s.totals
    .ok {
      positions := s.positions.set id p
      vaultIDs := s.vaultIDs.set p.vaultID true
      totals
      entitlementVault := s.entitlementVault.set id p.vaultID }

/-- What the accrual loop computes: what each vault accrues, and what it owed before. -/
structure Accruing where
  positions : Positions
  accrual : Tally := ∅
  arrears : Tally := ∅

/-- What a position earns in `elapsed` nanoseconds, with the carried remainder, as a numerator. -/
def accrualNumerator (p : Position) (tier : Tier) (elapsed : UInt64) : Nat :=
  p.remaining.toNat * tier.aprPercent.toNat * elapsed.toNat + p.aprCarry.toNat

/-- What a position of an active vault earns, and the position with it. -/
def earn (stake : ValidatorStake) (guardians elapsed : UInt64) (p : Position) :
    Result (UInt64 × Position) := do
  let total ← lpodAdd stake.amount guardians
  let tier ← tierFor (if total > maxVault then maxVault else total)
  let n := accrualNumerator p tier elapsed
  failIf (2 ^ 64 ≤ n / aprDenominator.toNat) "lpod: accrued liability overflow"
  let q := UInt64.ofNat (n / aprDenominator.toNat)
  let due ← lpodAdd p.due q
  .ok (q, { p with aprCarry := UInt64.ofNat (n % aprDenominator.toNat), due })

/-- One position of the accrual loop. -/
def accrue (r : Settlement) (totals : Tally) (elapsed : UInt64) (id : Bytes) (p : Position)
    (s : Accruing) : Result Accruing := do
  let arrears ← tallyAdd s.arrears p.vaultID p.due
  let stake := r.accrualStake p.vaultID
  if p.unlockHeight ≠ 0 ∨ ¬ stake.active then .ok { s with arrears }
  else do
    let (q, p') ← earn stake (totals.amount p.vaultID) elapsed p
    let accrual ← tallyAdd s.accrual p.vaultID q
    .ok { positions := s.positions.set id p', accrual, arrears }

/-! ### Signed operations -/

/-- What the transition changes of the checkpoint, with the running totals of the vaults. -/
structure Working where
  positions : Positions
  principalDeposited : UInt64
  principalLocked : UInt64
  principalReturned : UInt64
  totals : Tally
  vaultIDs : GoMap Bytes Bool

/-- The tier of a vault with the new deposit, and the least deposit there. -/
def checkDepositTier (total amount : UInt64) : Result Unit :=
  match tierFor total with
  | .error _ => fail "lpod: deposit outside vault tier limits"
  | .ok tier => failIf (amount < tier.minimumDeposit) "lpod: deposit outside vault tier limits"

def Working.deposit (w : Working) (r : Settlement) (a : LPoDPositionAction) : Result Working := do
  let id := positionID a
  let v := vaultID a
  failIf (w.positions.has id ∨ w.positions.len ≥ maxPositions)
    "lpod: replayed deposit or position capacity reached"
  let stake := stakeAt r.stake v
  failIf (¬ stake.active) "lpod: deposits require an active authenticated validator"
  let total ← lpodAdd stake.amount (w.totals.amount v)
  let total ← lpodAdd total a.amount
  checkDepositTier total a.amount
  let principalDeposited ← lpodAdd w.principalDeposited a.amount
  let principalLocked ← lpodAdd w.principalLocked a.amount
  let totals ← tallyAdd w.totals v a.amount
  .ok { w with
    positions := w.positions.set id { deposit := a }
    principalDeposited
    principalLocked
    totals
    vaultIDs := w.vaultIDs.set v true }

/-- A position after a withdrawal of `amount` at a height. -/
def Position.withdraw (p : Position) (amount height : UInt64) : Position :=
  let withdrawn := p.withdrawn + amount
  let returned := decide (withdrawn = p.deposit.amount)
  { p with
    nonce := p.nonce + 1, withdrawn, returned
    unlockHeight := if returned then height else p.unlockHeight }

def Working.withdraw (w : Working) (height : UInt64) (a : LPoDPositionAction) : Result Working :=
  match w.positions.get (positionID a) with
  | none => fail "lpod: unknown or replayed withdrawal"
  | some p => do
    let amount ← withdrawalAmount p a
    let principalReturned ← lpodAdd w.principalReturned amount
    .ok { w with
      positions := w.positions.set (positionID a) (p.withdraw amount height)
      principalLocked := w.principalLocked - amount
      principalReturned
      totals := w.totals.set p.vaultID (w.totals.amount p.vaultID - amount) }

variable (C : Externals) (K : Encodings) (o : RangeOrder)

/-- One transaction of the block. -/
def applyOperation (genesis : Hash32) (height : UInt64) (r : Settlement) (tx : Transaction)
    (w : Working) : Result Working :=
  if ¬ tx.isLPoDPosition then .ok w
  else do
    let a ← tx.lpodPositionAction C
    failIf (a.genesis ≠ genesis) "lpod: position belongs to another chain"
    if a.action = lpodDeposit then w.deposit r a
    else if a.action = lpodWithdraw then w.withdraw height a
    else .ok w

/-! ### Routing -/

/-- A position whose principal is returned without a request. -/
def Position.refund (p : Position) (height : UInt64) : Position :=
  { p with
    withdrawn := p.deposit.amount, returned := true, autoReturned := true, unlockHeight := height }

/-- A position that is moved to another vault. -/
def Position.route (p : Position) (destination : Point32) (height : UInt64) : Position :=
  if destination = p.deposit.vault then { p with effectiveVault := none, routeHeight := 0 }
  else { p with effectiveVault := some destination, routeHeight := height }

/-- Move an open position to the best vault, or refund it where there is none. -/
def Working.reassign (w : Working) (height : UInt64) (r : Settlement) (sourceBefore : Tally)
    (eligible : List Bytes) (id : Bytes) (p : Position) : Result Working := do
  let source := p.vaultID
  let best ← routeDestination source (sourceBefore.amount source) p.remaining r.stake w.totals
    eligible
  let totals := w.totals.set source (w.totals.amount source - p.remaining)
  if best = [] then do
    let principalReturned ← lpodAdd w.principalReturned p.remaining
    .ok { w with
      positions := w.positions.set id (p.refund height)
      principalLocked := w.principalLocked - p.remaining
      principalReturned
      totals }
  else do
    failIf (best.length ≠ 32) "lpod: invalid lifecycle destination"
    let totals ← tallyAdd totals best p.remaining
    .ok { w with
      positions := w.positions.set id (p.route (bytesArray 32 best) height)
      totals
      vaultIDs := w.vaultIDs.set best true }

/-- One position of the routing loop: an open one stays with an eligible vault. -/
def routePosition (height : UInt64) (r : Settlement) (sourceBefore : Tally) (eligible : List Bytes)
    (id : Bytes) (w : Working) : Result Working :=
  match w.positions.get id with
  | none => .ok w -- the loop runs over the names of the map
  | some p =>
    let stake := stakeAt r.stake p.vaultID
    if p.returned ∨ (stake.active ∧ stake.amount ≥ minVault) then .ok w
    else w.reassign height r sourceBefore eligible id p

/-- The total of a vault with its stake before the block. -/
def sourceTotal (r : Settlement) (source : Bytes) (guardian : UInt64) (sums : Tally) :
    Result Tally := do
  let total ← lpodAdd (stakeAt r.previousStake source).amount guardian
  .ok (sums.set source total)

/-- The totals of all vaults. -/
def sourceTotals (r : Settlement) (totals : Tally) : Result Tally :=
  o.forRange totals (sourceTotal r) ∅

def routePositions (height : UInt64) (r : Settlement) (w : Working) : Result Working := do
  let sourceBefore ← sourceTotals o r w.totals
  let eligible := (lpodEligibleVaults o r.stake w.totals).map (·.id)
  loop (fun _ => routePosition height r sourceBefore eligible) 0 w.positions.sortedKeys w

/-! ### Vaults for the settlement -/

def rewardFor (remaining : UInt64) : UInt64 :=
  if remaining = 0 then unit else if remaining < 3 * unit then remaining else 3 * unit

/-- The guardians of each vault before the block. -/
def priorTotals (positions : Positions) : Result Tally :=
  o.forRange positions (fun _ => addOpen) ∅

/-- A vault in this block: the tier is that of the guardians before it. -/
def positionVault (r : Settlement) (reward : UInt64) (prior accrual arrears : Tally) (id : Bytes) :
    Result Vault := do
  let stake := r.accrualStake id
  let guardian := prior.amount id
  let total ← lpodAdd stake.amount guardian
  let total := if ¬ stake.active ∨ total < minVault then minVault else total
  let total := if total > maxVault then maxVault else total
  failIf (id = r.proposer ∧ ¬ stake.active) "lpod: proposer has no authenticated active stake"
  .ok {
    id
    totalStake := if guardian > total then guardian else total
    guardianStake := guardian
    actualIncome := if id = r.proposer then reward else 0
    exactAccrual := some (accrual.amount id)
    arrears := arrears.amount id }

/-! ### The transition -/

/-- The nanoseconds since the parent block, at most 15 seconds. -/
def accrualElapsed (d : DB) (height : UInt64) (r : Settlement) : Result UInt64 := do
  let parent ← d.readCanonicalBlock C (height - 1)
  failIf (parent.hash C ≠ r.parent ∨ r.timestamp ≤ parent.header.timestamp)
    "lpod: nonmonotonic or noncanonical accrual clock"
  let elapsed := UInt64.ofNat ((r.timestamp - parent.header.timestamp) % 2 ^ 64).toNat
  .ok (if elapsed > maxElapsedNS then maxElapsedNS else elapsed)

/-- What `positionTransition` returns. -/
structure Transition where
  next : Checkpoint
  vaults : List Vault
  entitlementVault : GoMap Bytes Bytes

/-- The transition of the positions, after the checks of `positionTransition`. -/
def transitionPositions (before : Checkpoint) (a : Allocation) (height elapsed : UInt64)
    (r : Settlement) : Result Transition := do
  let kept ← o.forRange before.positions carryOver { vaultIDs := GoMap.set ∅ r.proposer true }
  let accrued ← o.forRange kept.positions (accrue r kept.totals elapsed)
    { positions := kept.positions }
  let w ← loop (fun _ => applyOperation C a.genesis height r) 0 r.transactions
    { positions := accrued.positions
      principalDeposited := before.principalDeposited
      principalLocked := before.principalLocked
      principalReturned := before.principalReturned
      totals := kept.totals
      vaultIDs := kept.vaultIDs }
  let w ← routePositions o height r w
  let prior ← priorTotals o before.positions
  let vaults ← mapLoop (fun _ => positionVault r (rewardFor a.validatorRemaining) prior
    accrued.accrual accrued.arrears) 0 w.vaultIDs.sortedKeys
  .ok {
    next := { before with
      positions := w.positions
      principalDeposited := w.principalDeposited
      principalLocked := w.principalLocked
      principalReturned := w.principalReturned }
    vaults
    entitlementVault := kept.entitlementVault }

def DB.positionTransition (d : DB) (before : Checkpoint) (height : UInt64) (r : Settlement) :
    Result Transition :=
  match before.allocation with
  | none => fail "lpod: positions require reconciled allocation"
  | some a => do
    before.validatePositions o
    let elapsed ← accrualElapsed C d height r
    transitionPositions C o before a height elapsed r

/-! ### The preview -/

def rewardDebit (before : Option Allocation) (vaults : List Vault) : Result (Option Allocation) :=
  match before with
  | none => .ok none
  | some a => do
    let income ← loop (fun _ (v : Vault) income => Go.addOr "lpod: income overflow" income v.actualIncome)
      0 vaults 0
    failIf (income ≠ rewardFor a.validatorRemaining)
      "lpod: reward differs from authorized pool/tail schedule"
    if a.validatorRemaining > 0 then
      .ok (some { a with validatorRemaining := a.validatorRemaining - income })
    else do
      let tailIssued ← Go.addOr "lpod: tail issuance overflow" a.tailIssued income
      .ok (some { a with tailIssued })

def dueThrough (entitlementVault : GoMap Bytes Bytes) (positions : Positions) (vault : Bytes)
    (ids : List Bytes) : Result UInt64 :=
  loop (fun _ id due =>
    if (entitlementVault.get id).getD [] = vault then
      lpodAdd due ((positions.get id).elim 0 (·.due))
    else .ok due) 0 ids 0

/-- The state of a payout: what is left of the payment and of what is due. -/
structure Payout where
  positions : Positions
  left : UInt64
  due : UInt64

/-- The share of one position: of what is left, in proportion to what is due. -/
def payPosition (entitlementVault : GoMap Bytes Bytes) (vault : Bytes) (id : Bytes) (s : Payout) :
    Result Payout :=
  match s.positions.get id with
  | none => .ok s
  | some p =>
    if (entitlementVault.get id).getD [] ≠ vault ∨ p.due = 0 then .ok s
    else if s.due = 0 then .error .panic
    else
      let paid := UInt64.ofNat (s.left.toNat * p.due.toNat / s.due.toNat)
      .ok {
        positions := s.positions.set id { p with due := p.due - paid }
        left := s.left - paid
        due := s.due - p.due }

/-- One payment, divided among the positions of its vault. -/
def payVault (entitlementVault : GoMap Bytes Bytes) (ids : List Bytes) (payment : Payment)
    (positions : Positions) : Result Positions := do
  let due ← dueThrough entitlementVault positions payment.vaultID ids
  let s ← loop (fun _ => payPosition entitlementVault payment.vaultID) 0 ids
    { positions, left := payment.angels, due }
  failIf (s.left ≠ 0) "lpod: proportional payout rounding did not conserve funds"
  .ok s.positions

def DB.previewPositions (d : DB) (before : Checkpoint) (height : UInt64) (r : Settlement) :
    Result (Checkpoint × List Payment) := do
  let t ← d.positionTransition C o before height r
  let (state, carries, payments) ← settle before.state before.carries height t.vaults
  let allocation ← rewardDebit before.allocation t.vaults
  let positions ← loop (fun _ => payVault t.entitlementVault t.next.positions.sortedKeys) 0 payments
    t.next.positions
  let next := { t.next with state, carries, allocation, positions }
  next.validatePositions o
  let next ← previewGenesisVesting C K before next r height
  .ok (next, payments)

end Aperod.Lpod
