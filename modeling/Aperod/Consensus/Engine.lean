import Aperod.Consensus.Checks
import Aperod.Consensus.Finality
import Aperod.Core.Mempool
import Aperod.Core.Staking
import Mathlib.Data.Rat.Defs

/-!
# The consensus engine

The state of `Engine` in `consensus/poa.go` and the checks a block has to pass whoever made it: the
coinbase policy, the fee policy, the format rules and the guardian, LPoD and sale rules.  Accepting a
block is in `Consensus.Accept`, producing one in `Consensus.Production`.

The UTXO set of the engine, of its verifier and of the registry is one object; it is `registry.utxos`.
What the engine asks of the durable store and of packages outside this model is in `Services`: the AVM
executor, the settlement of LPoD and of sales, and the keys and signatures of a reward.
-/

namespace Aperod

open Go

/-! ### Configuration and state -/

/-- `LockedValidatorKey`: a public key and its signing function. -/
structure ValidatorKey where
  pub : ValidatorPubKey
  sign : Hash32 → Bytes

/-- `Config`, and the fields the engine copies from it.  A height of `0` means what the source says
at the field: RingCT v4 is active from genesis, the other forks are off. -/
structure Config where
  /-- `int(float64(n)*BFTThreshold) + 1`. -/
  needed : Nat → Nat
  validators : List ValidatorPubKey := []
  myKey : Option ValidatorKey := none
  validatorAuthorityFork : Option ValidatorAuthorityFork := none
  rewardAddress : Address := ""
  blockRewardNAPR : Nat := 0
  stakingPoolInit : Nat := 0
  tailRewardNAPR : Nat := 0
  stopProducingAtHeight : Nat := 0
  /-- `OracleURL != ""`. -/
  oracleConfigured : Bool := false
  oracleMaxDeviation : ℚ := 0
  ringCTV4ActivationHeight : Nat := 0
  ringCTCLSAGActivationHeight : Nat := 0
  stakedCollateralRingExclusionActivationHeight : Nat := 0
  avmActivationHeight : Nat := 0
  avmGasBurnActivationHeight : Nat := 0
  rewardAuthorizationActivationHeight : Nat := 0
  guardianFundActivationHeight : Nat := 0
  guardianFundChainAnchor : Hash32 := 0
  genesisVestingActivationHeight : Nat := 0
  lpodHeight : Option Nat := none
  /-- `SaleMigration.Checkpoint.Height`. -/
  saleHeight : Option Nat := none
  /-- The vesting table of the verifier. -/
  vestingLockedAt : Option (Point32 → Int → Nat) := none

/-- What `PreviewLPoD` settles for a block: the digest of the new checkpoint, and the payout
`PayoutLPoD` builds from it. -/
structure LPoDPreview where
  digest : Hash32
  payout : Result Transaction

/-- The part of a block LPoD settles, and the state it is settled on. -/
structure LPoDSettlement where
  header : BlockHeader
  leader : Address
  txs : List Transaction
  registry : RegistrySnapshot

/-- What the engine calls in other packages.  `S` is the content of the durable store. -/
structure Services (S : Type) where
  /-- SHA-256 of the registry snapshot as JSON. -/
  registryFingerprint : RegistrySnapshot → Hash32
  /-- The output `BuildMintTx` makes for an address, an amount and a height. -/
  mintOutput : Address → Nat → Nat → Result Output
  /-- The encoded authorization `BuildAuthorizedRewardTx` signs: address, amount, height, parent. -/
  rewardAuthorization : Address → Nat → Nat → Hash32 → ValidatorKey → Result Bytes
  /-- `ValidateAuthorizedRewardTx`: the authorized amount. -/
  authorizedReward : Transaction → Nat → Hash32 → ValidatorPubKey → Result Nat
  /-- The staking pool that is left. -/
  stakingPoolRemaining : S → Int
  /-- `AVMExecutor.PrepareBlock`. -/
  executeAVM : S → Block → Result Unit
  /-- The checks of `prepareLPoD` that do not look at the transactions of the block. -/
  checkLPoDConfig : S → BlockHeader → GoMap Nat Hash32 → Result Unit
  /-- The stake tables of `prepareLPoD` and `PreviewLPoD`. -/
  previewLPoD : S → LPoDSettlement → Result LPoDPreview
  /-- The position state `filterLPoDPositions` loads: which positions of a list are still valid. -/
  lpodPositions : S → RegistrySnapshot → Nat → Result (List Transaction → Nat → Bool)
  /-- `LoadSaleState` finds a state. -/
  saleStarted : S → Bool
  /-- The rest of `PrepareSaleBlock`. -/
  settleSale : S → Block → Result Unit
  /-- `SaleTransactions`, when one is configured. -/
  saleTransactions : S → Option (Nat → Hash32 → Result (List Transaction))
  onCanonicalBlock : S → Block → Result S

structure SignedSlot where
  hash : Hash32
  sig : Bytes
  round : Nat
  deriving DecidableEq

structure Engine (S : Type) where
  cfg : Config
  chain : Chain
  registry : ValidatorRegistry
  pool : Mempool
  baseFee : Nat := initialBaseFeePerByte
  halted : Bool := false
  /-- The slashing detector: the first block seen for a height and a validator ID. -/
  slashing : GoMap (Nat × String) SignedSlot := ∅
  finality : Finality := {}
  store : S

/-- What one call reads from outside the process, and the map orders it meets. -/
structure Env where
  /-- `time.Now().UTC().UnixNano()`. -/
  now : Int
  /-- The oracle reading. -/
  oraclePrice : Nat := 0
  poolOrder : List (Hash32 × MempoolEntry) := []
  epoch : EpochOrders := ⟨[], [], []⟩
  staged : List (FutureVoteKey × FinalizeMsg) := []

variable (C : Externals) {S : Type} (V : Services S)

namespace Engine

variable (e : Engine S)

/-! ### What the engine reads off its state -/

def activeValidators : List ValidatorPubKey :=
  if e.registry.getActiveValidators.length > 0 ∨ e.registry.validators.len > 0 then
    e.registry.getActiveValidators
  else e.cfg.validators

def proposerAt (round : Nat) : Option ValidatorPubKey :=
  e.activeValidators[round % e.activeValidators.length]?

def localIdentity (key : ValidatorKey) (height : Nat) : ValidatorPubKey :=
  match e.cfg.validatorAuthorityFork with
  | some f => if height ≥ f.height ∧ key.pub = f.replacement then f.identity else key.pub
  | none => key.pub

/-- The engine's verifier at a time. -/
def txVerifier (now : Int) : TxVerifier where
  utxos := e.registry.utxos
  vestingLock := e.cfg.vestingLockedAt.map fun lockedAt => ⟨lockedAt, now⟩
  stakedCollateralRingExclusionActivationHeight :=
    e.cfg.stakedCollateralRingExclusionActivationHeight

def lpodActive (height : Nat) : Bool := e.cfg.lpodHeight.any (height ≥ ·)

/-- The sale migration is configured and its checkpoint reached. -/
def saleActive (height : Nat) : Bool := e.cfg.saleHeight.any (height ≥ ·)

/-- What `handleVote` reads. -/
def voteContext : VoteContext where
  chain := e.chain
  active := e.activeValidators
  fork := e.cfg.validatorAuthorityFork
  needed := e.cfg.needed

def checkAuthorityParent (header : BlockHeader) : Result Unit :=
  match e.cfg.validatorAuthorityFork with
  | none => .ok ()
  | some f => do
    failIf (header.height = f.height ∧ header.prevHash ≠ f.parent)
      "validator authority fork: activation parent mismatch"
    failIf (header.height = f.height ∧
        V.registryFingerprint e.registry.takeSnapshot ≠ f.registrySHA256)
      "authority fork activation registry mismatch"

end Engine

/-! ### Rewards and fees -/

def defaultBlockRewardNAPR : Nat := 500000000
def defaultPoolBlockRewardNAPR : Nat := 300000000
def authorizedBlockRewardNAPR : Nat := 10000000
def mainnetRewardAuthorizationHeight : Nat := 1750000
def mainnetRewardCutoverHeight : Nat := 2394572
def halvingIntervalBlocks : Nat := 21024000

def mainnetRewardGenesisHash : Hash32 := bytesArray 32
  [0xc8, 0xfd, 0xe8, 0x6c, 0x17, 0x64, 0xa5, 0x60, 0x3e, 0xab, 0xd6, 0xd9, 0xc5, 0x6c, 0x9e, 0x47,
   0xb4, 0xcf, 0x06, 0xd8, 0x8d, 0x29, 0x9a, 0x55, 0x66, 0x56, 0x94, 0x47, 0x3e, 0x2c, 0x51, 0x2f]

def blockRewardAtHeight (base height : Nat) : Nat :=
  if height / halvingIntervalBlocks ≥ 64 then 0 else base >>> (height / halvingIntervalBlocks)

def targetBlockSizeBytes : Nat := 500000

/-- `math.Round` of a fraction: to the nearest integer, halves away from zero. -/
def roundHalfAway (num : Int) (den : Nat) : Int :=
  if num ≥ 0 then (2 * num + den) / (2 * den) else -((-2 * num + den) / (2 * den))

/-- `nextBaseFee`, in exact arithmetic: the fee moves by at most an eighth, in proportion to how far
the block size is from its target. -/
def nextBaseFee (current blockSizeBytes : Nat) : Nat :=
  let current := if current = 0 then initialBaseFeePerByte else current
  let diff : Int := blockSizeBytes - targetBlockSizeBytes
  let next := current + roundHalfAway (current * diff) (8 * targetBlockSizeBytes)
  (max next minBaseFeePerByte).toNat

/-- One addition of `blockFeeStats` or `validateBlockEconomics`; `none` on overflow. -/
def checkedAdd (a b : Nat) : Option Nat := if a > maxUint64 - b then none else some (a + b)

def Transaction.avmPayload (tx : Transaction) : Option AVMPayload := if tx.isAVM then tx.avm else none

/-- What `blockFeeStats` burns of one transaction's fee, and the fee beyond which the rest is a tip;
`none` on overflow. -/
def Transaction.feeParts (tx : Transaction) (baseFee : Nat) (burnAVMGas : Bool) :
    Option (Nat × Nat) := do
  let minFee := tx.minFeeAt baseFee
  let burn := tx.burnAmount.getD 0
  let burned ← checkedAdd (min tx.fee.toNat minFee) burn
  let required ← checkedAdd minFee burn
  match (if burnAVMGas then tx.avmPayload else none) with
  | none => some (burned, required)
  | some p =>
    match avmGasFee p.gasLimit.toNat with
    | .ok gasFee => do some (← checkedAdd burned gasFee, ← checkedAdd required gasFee)
    | .error _ => none

/-- The loop of `blockFeeStatsWithAVMGasBurn`: burned fees and tips. -/
def blockFeeStats (baseFee : Nat) (burnAVMGas : Bool) : List Transaction → Nat → Nat → Nat × Nat
  | [], burned, tips => (burned, tips)
  | tx :: rest, burned, tips =>
    if tx.isCoinbase || tx.isStake then blockFeeStats baseFee burnAVMGas rest burned tips
    else match tx.feeParts baseFee burnAVMGas with
      | none => (maxUint64, 0)
      | some (burnForTx, requiredFee) =>
        let tips := if tx.fee.toNat > requiredFee then (tips + (tx.fee.toNat - requiredFee)) % 2 ^ 64
          else tips
        match checkedAdd burned burnForTx with
        | none => (maxUint64, tips)
        | some burned => blockFeeStats baseFee burnAVMGas rest burned tips

namespace Engine

variable (e : Engine S)

def expectedBaseFee : Nat := if e.baseFee = 0 then initialBaseFeePerByte else e.baseFee

def expectedBaseFeeAt (height : Nat) : Nat :=
  if e.cfg.ringCTV4ActivationHeight > 0 ∧ height = e.cfg.ringCTV4ActivationHeight then
    initialBaseFeePerByte
  else match e.chain.tip.filter fun tip => e.lpodActive height && succHeight tip.header.height = height with
    | some parent => nextBaseFee parent.header.baseFee parent.size
    | none => e.expectedBaseFee

def usesHistoricalMainnetReward (height : Nat) : Bool :=
  e.cfg.rewardAuthorizationActivationHeight = mainnetRewardAuthorizationHeight &&
    height ≥ mainnetRewardAuthorizationHeight && height < mainnetRewardCutoverHeight &&
    e.chain.genesis.any fun g => g.hash C = mainnetRewardGenesisHash

def authorizedRewardAmount (height : Nat) (txs : List Transaction) : Result Nat :=
  if e.usesHistoricalMainnetReward C height then .ok defaultPoolBlockRewardNAPR
  else
    let burnAVMGas := e.cfg.avmGasBurnActivationHeight > 0 && height ≥ e.cfg.avmGasBurnActivationHeight
    let tips := (blockFeeStats (e.expectedBaseFeeAt height) burnAVMGas txs 0 0).2
    match checkedAdd (blockRewardAtHeight authorizedBlockRewardNAPR height) tips with
    | none => fail "authorized block reward plus tips overflows uint64"
    | some total => .ok total

/-- The reward-authorization era. -/
def rewardAuthorizationActive (height : Nat) : Bool :=
  e.cfg.rewardAuthorizationActivationHeight > 0 &&
    height ≥ e.cfg.rewardAuthorizationActivationHeight

end Engine

end Aperod
