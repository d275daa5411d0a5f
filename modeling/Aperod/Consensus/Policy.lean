import Aperod.Consensus.Engine

/-!
# What a block must satisfy

The checks of `consensus/poa.go`, `lpod.go` and `sale.go` that the producer of a block and its
receivers share: the coinbase policy, the fee policy, the format rule with its guardian and LPoD
parts, and the preparation of AVM, LPoD and sale state.  None of them changes the engine.
-/

namespace Aperod

open Go

variable (C : Externals) {S : Type} (V : Services S)

/-! ### LPoD -/

/-- A transaction of one of the three LPoD kinds. -/
def Transaction.isAnyLPoD (tx : Transaction) : Bool :=
  tx.isLPoD || tx.isLPoDPosition || tx.isLPoDPayout

/-- The leader of a block and the transactions LPoD settles.  An empty `leader` is read from the
payout, which then stands in front of the checkpoint. -/
def lpodLeader (leader : Address) (b : Block) : Result (Address × List Transaction) :=
  if leader = "" then do
    failIf (b.txs.length < 2) "lpod: missing payout and checkpoint"
    let payout ← index b.txs 0
    let auth ← payout.lpodPayoutAuthorization C
    .ok (auth.leader, b.txs.drop 2)
  else .ok (leader, b.txs)

/-- No one-time key twice among the outputs of a block. -/
def checkOutputKeys (b : Block) : Result Unit :=
  failIf (¬ (b.txs.flatMap fun tx => tx.outputs.map (·.oneTimePub)).Nodup)
    "lpod: duplicate output key would make payouts unspendable"

namespace Engine

variable (e : Engine S) (now : Int)

/-- The loop of `prepareLPoD` over the settled transactions. -/
def checkSettledTx (height : Nat) (tx : Transaction) : Result Unit :=
  if tx.isExtraMint then fail "lpod: extra mint or protocol payout"
  else if tx.isLPoDPosition then (e.txVerifier now).verifyTxAtHeight C tx height
  else .ok ()

def prepareLPoD (b : Block) (leader : Address) : Result LPoDPreview := do
  V.checkLPoDConfig e.store b.header e.finality.lpodFinalizedHashes
  let (leader, txs) ← lpodLeader C leader b
  let _ ← C.decodeAddress leader
  checkAll (fun _ tx => e.checkSettledTx C now b.header.height tx) 0 txs
  V.previewLPoD e.store
    { header := b.header, leader, txs, registry := e.registry.takeSnapshot }

/-- `validateLPoD` at an active height. -/
def validateActiveLPoD (b : Block) : Result Unit := do
  let preview ← e.prepareLPoD C V now b ""
  checkOutputKeys b
  let payout ← preview.payout
  let first ← index b.txs 0
  failIf (payout ≠ first) "lpod: payout outputs differ from authenticated entitlement plan"
  let second ← index b.txs 1
  match second.lpodCheckpointDigest with
  | .ok digest =>
    failIf (digest ≠ preview.digest) "lpod: invalid position/accounting checkpoint"
  | .error _ => fail "lpod: invalid position/accounting checkpoint"

def validateLPoD (b : Block) : Result Unit :=
  if e.lpodActive b.header.height then e.validateActiveLPoD C V now b
  else checkAll (fun _ tx => failIf tx.isAnyLPoD "lpod: transaction before activation") 0 b.txs

/-! ### Coinbases -/

end Engine

/-- A coinbase that is no stake transaction. -/
def Transaction.isMint (tx : Transaction) : Bool := tx.isCoinbase && !tx.isStake

def maxCoinbasesPerBlock : Nat := 11

/-- `validateCoinbasePolicy`, the structural rules: coinbases come first and are at most eleven. -/
def validateCoinbaseStructure (b : Block) : Result Unit := do
  let _ ← loop (fun i (tx : Transaction) (seenNonCoinbase : Bool) => do
    failIf (tx.isMint ∧ seenNonCoinbase)
      s!"coinbase tx at index {i} appears after a non-coinbase tx (all coinbases must form a block prefix)"
    .ok (seenNonCoinbase || !tx.isMint)) 0 b.txs false
  failIf (b.txs.countP (·.isMint) > maxCoinbasesPerBlock)
    s!"block contains {b.txs.countP (·.isMint)} coinbase transactions (maximum {maxCoinbasesPerBlock})"

namespace Engine

variable (e : Engine S) (now : Int)

/-- The reward-authorization rules of `validateCoinbasePolicy`. -/
def validateReward (b : Block) : Result Unit := do
  let expected ← e.authorizedRewardAmount C b.header.height b.txs
  let coinbases := b.txs.filter (·.isMint)
  if expected = 0 then
    failIf (coinbases.length ≠ 0)
      s!"validator reward era has ended, got {coinbases.length} coinbase transaction(s)"
  else do
    failIf (coinbases.length ≠ 1)
      s!"authorized reward block must contain exactly one coinbase transaction, got {coinbases.length}"
    let reward ← index coinbases 0
    let amount ← wrap "invalid validator reward authorization"
      (V.authorizedReward reward b.header.height b.header.prevHash b.header.validatorPub)
    failIf (amount ≠ expected)
      s!"authorized reward amount {amount} does not match consensus amount {expected}"

def validateCoinbasePolicy (b : Block) : Result Unit :=
  if e.lpodActive b.header.height then e.validateLPoD C V now b
  else do
    validateCoinbaseStructure b
    if e.rewardAuthorizationActive b.header.height then e.validateReward C V b else .ok ()

end Engine

/-! ### Fees -/

/-- The running totals of `validateBlockEconomics`. -/
structure FeeTotals where
  fees : Nat := 0
  minimum : Nat := 0
  avmGas : Nat := 0

/-- The transactions the fee policy passes over. -/
def Transaction.feeExempt (tx : Transaction) : Bool :=
  tx.isCoinbase || tx.isStake || tx.isLPoD || tx.isLPoDPosition || tx.isLPoDPayout || tx.isSale

/-- `^uint64(0)` minus something, checked. -/
def addOr (a b : Nat) (msg : String) : Result Nat :=
  match checkedAdd a b with
  | some n => .ok n
  | none => fail msg

/-- The minimum fee with AVM gas on top, and the gas used so far. -/
def addAVMGas (i : Nat) (tx : Transaction) (minFee usedGas : Nat) : Result (Nat × Nat) :=
  match tx.avmPayload with
  | none => .ok (minFee, usedGas)
  | some p => do
    failIf (p.gasLimit.toNat > avmMaxBlockGas - usedGas)
      s!"transaction {i} exceeds AVM block gas limit: {usedGas} + {p.gasLimit} > {avmMaxBlockGas}"
    match avmGasFee p.gasLimit.toNat with
    | .ok gasFee => do
      let required ← addOr minFee gasFee
        s!"transaction {i} AVM gas fee requirement overflows uint64"
      .ok (required, usedGas + p.gasLimit.toNat)
    | .error _ => fail s!"transaction {i} AVM gas fee requirement overflows uint64"

/-- `validateBlockEconomics` for one transaction. -/
def economicsTx (baseFee i : Nat) (tx : Transaction) (t : FeeTotals) : Result FeeTotals :=
  if tx.feeExempt then .ok t
  else do
    let minFee := tx.minFeeAt baseFee
    let (withGas, avmGas) ← addAVMGas i tx minFee t.avmGas
    let required ← addOr withGas (tx.burnAmount.getD 0)
      s!"transaction {i} intentional burn fee requirement overflows uint64"
    failIf (tx.fee.toNat < required)
      s!"transaction {i} fee below consensus minimum: got {tx.fee}, want at least {required}"
    let fees ← addOr t.fees tx.fee.toNat "aggregate transaction fees overflow uint64"
    let minimum ← addOr t.minimum minFee "aggregate minimum fees overflow uint64"
    .ok { fees, minimum, avmGas }

namespace Engine

variable (e : Engine S) (now : Int)

def validateBlockEconomics (b : Block) : Result Unit :=
  if e.cfg.ringCTV4ActivationHeight > 0 ∧ b.header.height < e.cfg.ringCTV4ActivationHeight then .ok ()
  else do
    let expected := e.expectedBaseFeeAt b.header.height
    failIf (b.header.baseFee = 0) "base fee must be explicitly committed after activation"
    failIf (b.header.baseFee ≠ expected)
      s!"base fee mismatch: got {b.header.baseFee}, want {expected}"
    let _ ← loop (economicsTx expected) 0 b.txs {}

/-! ### Formats and the guardian fund -/

def validateVersionWithSales (tx : Transaction) (height : Nat) : Result Unit :=
  if tx.isSale then do
    failIf (¬ e.saleActive height) "sale: inactive transaction version"
    let _ ← tx.saleAuthorization C
  else validateTxVersionAtHeight C tx height e.cfg.ringCTV4ActivationHeight
    e.cfg.ringCTCLSAGActivationHeight e.cfg.avmActivationHeight

def validateGuardianConfig : Result Unit :=
  if e.cfg.guardianFundActivationHeight = 0 then
    failIf (e.cfg.guardianFundChainAnchor ≠ 0)
      "guardian fund genesis anchor configured while activation is disabled"
  else match e.chain.genesis with
    | none => fail "guardian fund requires canonical genesis"
    | some genesis =>
      failIf (e.cfg.guardianFundChainAnchor = 0 ∨
          genesis.hash C ≠ e.cfg.guardianFundChainAnchor)
        "guardian fund chain anchor is not the canonical genesis block hash"

end Engine

def guardianFundNAPR : Nat := 1000000000 * 100000000

def guardianFundExtra (anchor : Hash32) (height : Nat) : Bytes :=
  ascii "APRO-GUARDIAN-FUND" ++ [1] ++ Bytes32.bytes anchor ++ leBytes 8 height

def buildGuardianFundTx (anchor : Hash32) (height : Nat) : Result Transaction := do
  failIf (anchor = 0) "guardian fund requires a non-zero chain anchor"
  let extra := guardianFundExtra anchor height
  let commit ← wrap "guardian fund commitment" (C.commit guardianFundNAPR 0)
  .ok { version := .guardianFund, extra
        outputs := [{ oneTimePub := C.hashToCurvePoint (ascii "aperod/guardian-fund/key/v1" ++ extra)
                      amountCommit := commit }] }

def guardianFundTxAt (tx : Transaction) (anchor : Hash32) (height : Nat) : Bool :=
  (tx.validate C).isOk && (buildGuardianFundTx C anchor height).toOption = some tx

namespace Engine

variable (e : Engine S) (now : Int)

/-- `validateGuardianFund` for one transaction of the block. -/
def checkGuardianTx (b : Block) (i : Nat) (tx : Transaction) : Result Unit :=
  let active := e.cfg.guardianFundActivationHeight
  if tx.isGuardianFund then do
    failIf (active = 0 ∨ b.header.height ≠ active)
      s!"guardian fund tx[{i}] is not permitted at height {b.header.height}"
    -- The scheduled validator reward, when present, remains first.
    failIf (i ≠ (if (b.txs.head?).any (·.isCoinbase) then 1 else 0) ∨
        ¬ guardianFundTxAt C tx e.cfg.guardianFundChainAnchor active)
      s!"guardian fund tx[{i}] is not canonical"
  else .ok ()

def validateGuardianFund (b : Block) : Result Unit := do
  let active := e.cfg.guardianFundActivationHeight
  e.validateGuardianConfig C
  checkAll (e.checkGuardianTx C b) 0 b.txs
  failIf (active > 0 ∧ b.header.height = active ∧ b.txs.countP (·.isGuardianFund) ≠ 1)
    s!"guardian fund transaction missing or duplicated at activation height {active}"

def validateRingCTV4Activation (b : Block) : Result Unit := do
  e.validateLPoD C V now b
  e.validateGuardianFund C b
  checkAll (fun i tx => wrap s!"tx[{i}]" (e.validateVersionWithSales C tx b.header.height)) 0 b.txs

/-! ### AVM, LPoD and sale state -/

def prepareAVMOnly (b : Block) : Result Unit :=
  if e.cfg.avmActivationHeight = 0 ∨ b.header.height < e.cfg.avmActivationHeight then
    failIf (b.txs.any (·.isAVM)) s!"AVM is not active at height {b.header.height}"
  else V.executeAVM e.store b

/-- `prepareSale`: whether there is a settlement. -/
def prepareSale (b : Block) : Result Bool := do
  failIf (∃ checkpoint ∈ e.cfg.saleHeight, e.cfg.genesisVestingActivationHeight ≠ 0 ∧
      e.cfg.genesisVestingActivationHeight ≥ checkpoint)
    "sale: scheduled new genesis reserve overlaps the sale allocation"
  if ¬ V.saleStarted e.store ∧ b.txs.countP (·.isSale) = 0 ∧ ¬ e.saleActive b.header.height then
    .ok false
  else do
    failIf (e.cfg.saleHeight = none ∨ b.txs.countP (·.isSale) > 128)
      "sale: approved migration missing or block limit exceeded"
    V.settleSale e.store b
    .ok true

def prepareAVMBlock (b : Block) : Result Unit := do
  e.prepareAVMOnly V b
  if e.lpodActive b.header.height then
    let _ ← e.prepareLPoD C V now b ""
  let _ ← e.prepareSale V b

/-- `verifyBlockWithSales`: a settled sale was checked on its own, so the verifier does not see it. -/
def verifyBlockWithSales (b : Block) : Result Unit := do
  let prepared ← e.prepareSale V b
  (e.txVerifier now).verifyBlock C (if prepared then b.withoutSales else b)

end Engine

end Aperod
