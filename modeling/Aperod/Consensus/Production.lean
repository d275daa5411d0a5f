import Aperod.Consensus.Accept

/-!
# Producing a block

`produceBlock` and `tick` of `consensus/poa.go`.  Unlike an incoming block, a failed attempt leaves
traces that matter: transactions evicted from the mempool, a halted engine.  `tick` therefore returns
the engine it leaves next to its result.

Transactions pass four filters on their way from the pool into a block: `stripCoinbases`, `screen`
(format rule and verification, one transaction at a time), `screenStake` (the dry run of the stake
transactions so far) and `filterLPoDPositions`.
-/

namespace Aperod

open Go

variable (C : Externals) {S : Type} (V : Services S)

/-- The outcome of a filter: what it keeps, and the pool it leaves. -/
structure Filtered where
  txs : List Transaction
  pool : Mempool

/-- The first loop of `produceBlock`: coinbases are dropped (the privileged ones leave the pool, as
legacy mints have no consensus authorization), and AVM transactions beyond the gas budget are left
for later. -/
def stripCoinbases (pool : Mempool) : Nat → List Transaction → Filtered
  | _, [] => ⟨[], pool⟩
  | usedGas, tx :: rest =>
    if tx.isMint then
      let hash := tx.hash C
      stripCoinbases (if pool.isPrivileged hash then pool.remove hash else pool) usedGas rest
    else match tx.avmPayload with
      | some p =>
        if p.gasLimit.toNat > avmMaxBlockGas - usedGas then stripCoinbases pool usedGas rest
        else
          let r := stripCoinbases pool (usedGas + p.gasLimit.toNat) rest
          ⟨tx :: r.txs, r.pool⟩
      | none =>
        let r := stripCoinbases pool usedGas rest
        ⟨tx :: r.txs, r.pool⟩

namespace Engine

variable (e : Engine S)

/-- Whether `produceBlock` keeps a transaction when it screens it.  Coinbases and stake transactions
are kept unseen, and a sale only has to have an active format. -/
def screens (now : Int) (height : Nat) (tx : Transaction) : Bool :=
  tx.isCoinbase || tx.isStake ||
    ((e.validateVersionWithSales C tx height).isOk &&
      (tx.isSale || ((e.txVerifier now).verifyTxAtHeight C tx height).isOk))

/-- The screening loop: what fails is banned. -/
def screen (now : Int) (height : Nat) (pool : Mempool) (txs : List Transaction) : Filtered where
  txs := txs.filter (e.screens C now height)
  pool := pool.banAll C now (txs.filter (!e.screens C now height ·))

/-- The stake loop: a stake transaction is kept if the dry run of those kept so far and itself
passes, and removed from the pool otherwise. -/
def screenStake (height : Nat) : Mempool → List Transaction → List Transaction → Filtered
  | pool, _, [] => ⟨[], pool⟩
  | pool, stakePrefix, tx :: rest =>
    if tx.isStake then
      match e.registry.validateBlockStakeTxs C (stakePrefix ++ [tx]) height with
      | .ok () =>
        let r := screenStake height pool (stakePrefix ++ [tx]) rest
        ⟨tx :: r.txs, r.pool⟩
      | .error _ => screenStake height (pool.remove (tx.hash C)) stakePrefix rest
    else
      let r := screenStake height pool stakePrefix rest
      ⟨tx :: r.txs, r.pool⟩

/-- Whether `filterLPoDPositions` keeps the transaction at an index; `valid` decides about the
positions. -/
def keepsPosition (valid : Nat → Bool) (height i : Nat) (tx : Transaction) : Bool :=
  !tx.isLPoDPosition || (e.lpodActive height && valid i)

def filterLPoDPositions (height : Nat) (pool : Mempool) (txs : List Transaction) :
    Result Filtered := do
  let valid ← if e.lpodActive height then
      V.lpodPositions e.store e.registry.takeSnapshot height
    else .ok fun _ _ => false
  let keeps := fun (x : Transaction × Nat) => e.keepsPosition (valid txs) height x.2 x.1
  .ok { txs := (txs.zipIdx.filter keeps).map Prod.fst
        pool := pool.removeAll C ((txs.zipIdx.filter (!keeps ·)).map Prod.fst) }

/-- The sale transactions the operator approved for the block. -/
def approvedSales (height : Nat) (parent : Hash32) : Result (List Transaction) :=
  match (if e.saleActive height then V.saleTransactions e.store else none) with
  | none => .ok []
  | some provider => do
    let sales ← wrap "sale: approved intent construction failed" (provider height parent)
    failIf (sales.length > 128) "sale: approved intent block limit exceeded"
    failIf (∃ tx ∈ sales, ¬ tx.isSale) "sale: intent provider returned a non-sale transaction"
    .ok sales

/-! ### The reward and the guardian fund -/

end Engine

def buildMintTx (addr : Address) (amount height : Nat) : Result Transaction := do
  failIf (amount = 0) "mint amount must be > 0"
  let out ← V.mintOutput addr amount height
  .ok { version := .base, outputs := [out] }

def buildAuthorizedRewardTx (addr : Address) (amount height : Nat) (parent : Hash32)
    (key : ValidatorKey) : Result Transaction := do
  let tx ← buildMintTx V addr amount height
  let extra ← V.rewardAuthorization addr amount height parent key
  .ok { tx with extra }

namespace Engine

variable (e : Engine S)

/-- The reward of the legacy era: from the staking pool while it lasts, else on a halving
schedule. -/
def legacyReward (height : Nat) : Nat :=
  let base := if e.cfg.blockRewardNAPR ≠ 0 then e.cfg.blockRewardNAPR
    else if e.cfg.stakingPoolInit > 0 then defaultPoolBlockRewardNAPR else defaultBlockRewardNAPR
  if e.cfg.stakingPoolInit > 0 then
    let remaining := V.stakingPoolRemaining e.store
    if remaining > 0 then min base remaining.toNat else e.cfg.tailRewardNAPR
  else blockRewardAtHeight base height

/-- The reward transaction of the authorization era. -/
def authorizedRewardTxs (key : ValidatorKey) (height : Nat) (parent : Hash32)
    (txs : List Transaction) : Result (List Transaction) := do
  failIf (e.cfg.rewardAddress = "")
    s!"reward_address is required from reward authorization activation height {e.cfg.rewardAuthorizationActivationHeight}"
  let total ← e.authorizedRewardAmount C height txs
  if total > 0 then
    let mint ← wrap "build authorized validator reward"
      (buildAuthorizedRewardTx V e.cfg.rewardAddress total height parent key)
    .ok (mint :: txs)
  else .ok txs

/-- Put the reward in front.  A legacy mint that cannot be built is only logged. -/
def addReward (key : ValidatorKey) (height : Nat) (parent : Hash32) (txs : List Transaction) :
    Result (List Transaction) :=
  if e.lpodActive height then .ok txs
  else if e.rewardAuthorizationActive height then
    e.authorizedRewardTxs C V key height parent txs
  else if e.cfg.rewardAddress = "" then .ok txs
  else match buildMintTx V e.cfg.rewardAddress (e.legacyReward V height) height with
    | .ok mint => .ok (mint :: txs)
    | .error _ => .ok txs

/-- Put the guardian transaction behind a leading coinbase, at its single height. -/
def addGuardian (height : Nat) (txs : List Transaction) : Result (List Transaction) :=
  if e.cfg.guardianFundActivationHeight > 0 ∧ height = e.cfg.guardianFundActivationHeight then do
    let guardian ← wrap "build guardian fund transaction"
      (buildGuardianFundTx C e.cfg.guardianFundChainAnchor height)
    .ok (match txs with
      | tx :: rest => if tx.isCoinbase then tx :: guardian :: rest else guardian :: txs
      | [] => [guardian])
  else .ok txs

/-! ### The block -/

/-- In front of an LPoD block stand its payout and its checkpoint. -/
def addLPoD (now : Int) (header : BlockHeader) (txs : List Transaction) :
    Result (List Transaction) :=
  if e.lpodActive header.height then do
    let preview ← e.prepareLPoD C V now ⟨header, txs⟩ e.cfg.rewardAddress
    let payout ← preview.payout
    .ok (payout :: lpodCheckpointTx preview.digest :: txs)
  else .ok txs

/-- The header `produceBlock` fills in, before LPoD and without a signature. -/
def draftHeader (env : Env) (key : ValidatorKey) (height round : Nat) (parent : Block)
    (txs : List Transaction) : BlockHeader where
  height
  prevHash := parent.hash C
  merkleRoot := merkleRoot C txs
  timestamp := env.now
  round := round
  validatorPub := e.localIdentity key height
  oraclePrice := env.oraclePrice
  baseFee := e.expectedBaseFeeAt height

/-- `header.Sign`. -/
def signHeader (key : ValidatorKey) (header : BlockHeader) : BlockHeader :=
  { header with signature := key.sign (header.hash C) }

/-- `produceBlock` once the transactions are chosen. -/
def assemble (env : Env) (key : ValidatorKey) (height round : Nat) (parent : Block)
    (txs : List Transaction) : Result Block := do
  let txs ← e.addReward C V key height (parent.hash C) txs
  let txs ← e.addGuardian C height txs
  let header := e.draftHeader C env key height round parent txs
  let txs ← e.addLPoD C V env.now header txs
  .ok ⟨signHeader C key { header with merkleRoot := merkleRoot C txs }, txs⟩

/-- The checks at the top of `produceBlock`. -/
def checkProducer (key : ValidatorKey) (height : Nat) (parent : Block) : Result Unit := do
  failIf (authority e.cfg.validatorAuthorityFork (e.localIdentity key height) height ≠ key.pub)
    s!"configured key is not the signing authority at height {height}"
  e.checkAuthorityParent V { height, prevHash := parent.hash C }
  e.validateGuardianConfig C

/-- The filters of `produceBlock`. -/
def chooseTxs (env : Env) (height : Nat) (parent : Block) : Mempool × Result (List Transaction) :=
  let stripped := stripCoinbases C e.pool 0 (Mempool.selectTxs env.poolOrder 2000)
  match e.approvedSales V height (parent.hash C) with
  | .error err => (stripped.pool, .error err)
  | .ok sales =>
    let screened := e.screen C env.now height stripped.pool (stripped.txs ++ sales)
    let staked := e.screenStake C height screened.pool [] screened.txs
    match e.filterLPoDPositions C V height staked.pool staked.txs with
    | .error err => (staked.pool, .error err)
    | .ok chosen => (chosen.pool, .ok chosen.txs)

/-- `produceBlock`: the pool it leaves, and the block. -/
def produceBlock (env : Env) (key : ValidatorKey) (height round : Nat) (parent : Block) :
    Mempool × Result Block :=
  match e.checkProducer C V key height parent with
  | .error err => (e.pool, .error err)
  | .ok () =>
    let (pool, txs) := e.chooseTxs C V env height parent
    (pool, txs >>= e.assemble C V env key height round parent)

/-! ### Committing it -/

/-- The checks `tick` makes of the block it produced. -/
def selfCheck (now : Int) (b : Block) : Result Unit := do
  wrap s!"self-produced block {b.header.height} failed coinbase policy (bug in produceBlock)"
    (e.validateCoinbasePolicy C V now b)
  wrap s!"self-produced block {b.header.height} failed fee policy" (e.validateBlockEconomics b)
  wrap s!"self-produced block {b.header.height} failed RingCT activation policy"
    (e.validateRingCTV4Activation C V now b)

/-- Evict the stake transactions of a block. -/
def evictStake (b : Block) : Engine S :=
  { e with pool := e.pool.removeAll C (b.txs.filter (·.isStake)) }

/-- Ban the AVM transactions of a block. -/
def banAVM (now : Int) (b : Block) : Engine S :=
  { e with pool := e.pool.banAll C now (b.txs.filter (·.isAVM)) }

/-- Undo the UTXO side of a block whose stake transactions led to `r` by burning `keys`: roll the
block back and unmark what was burned. -/
def undo (b : Block) (r : ValidatorRegistry) (keys : List UTXOKey) : Engine S :=
  { e with registry := { e.registry with
      utxos := r.utxos.map fun s => keys.foldl UTXOSet.unmarkStaked (s.rollbackBlock C b) } }

/-- The engine `ApplyBlockStakeTxs` and `RollbackBlock` leave when a stake transaction fails: what
was burned before the failure is unmarked first. -/
def undoStake (b : Block) (s : UTXOSet) : Engine S :=
  let (r, keys) := stakedBeforeFailure C b.header.height { e.registry with utxos := some s } b.txs
  { e with registry := { e.registry with
      utxos := r.utxos.map fun s => (keys.foldl UTXOSet.unmarkStaked s).rollbackBlock C b } }

/-- `failCanonicalPersistence` for a block that led to `chain`: the chain, the UTXO set and the
registry are rolled back and the engine halts. -/
def failCanonicalPersistence (b : Block) (r : ValidatorRegistry) (keys : List UTXOKey)
    (chain : Chain) : Engine S :=
  { e.undo C b r keys with
    chain := (chain.rollbackLastBlock C b (e.chain.lastAdd C b)).toOption.getD chain
    halted := true }

/-- `tick` from the produced block to the commit: the engine after the block, or the engine a failure
leaves. -/
def commitProduced (env : Env) (b : Block) : Except (Engine S × Fault) (Engine S) := do
  let block := s!"self-produced block {b.header.height}"
  orLeave e (e.selfCheck C V env.now b)
  orLeave (e.evictStake C b) (wrap s!"{block}: invalid stake tx (all stake txs evicted)"
    (e.registry.validateBlockStakeTxs C b.txs b.header.height))
  orLeave (e.banAVM C env.now b)
    (wrap s!"{block} AVM execution failed" (e.prepareAVMBlock C V env.now b))
  let s ← orLeave e (deref e.registry.utxos)
  let s' ← orLeave e (wrap "utxo apply failed for self-produced block" (s.applyBlock C b))
  let r ← orLeave ((e.undoStake C b s').evictStake C b)
    (wrap s!"{block}: stake apply failed (txs evicted)"
      ({ e.registry with utxos := some s' }.applyBlockStakeTxs C b.txs b.header.height))
  let keys := b.txs.filterMap Transaction.stakeBurnKey
  let chain ← orLeave (e.undo C b r keys) (wrap "add produced block" (e.chain.addBlock C b))
  let store ← orLeave (e.failCanonicalPersistence C b r keys chain)
    (wrap s!"persist canonical block {b.header.height}" (V.onCanonicalBlock e.store b))
  .ok (e.advance C env b r chain store)

/-- The key to sign with, when this node is the proposer of the round. -/
def slotKey (height round : Nat) : Option ValidatorKey :=
  e.cfg.myKey.filter fun key => e.proposerAt round = some (e.localIdentity key height) &&
    authority e.cfg.validatorAuthorityFork (e.localIdentity key height) height = key.pub

/-- A production height barrier is reached. -/
def stopped (height : Nat) : Bool :=
  e.cfg.stopProducingAtHeight > 0 && height ≥ e.cfg.stopProducingAtHeight

/-- `tick`: the engine it leaves, with the block it committed or the error it returned. -/
def tick (env : Env) : Except (Engine S × Fault) (Engine S × Option Block) := do
  orLeave e (failIf e.halted "consensus engine halted after persistent rollback failure")
  match e.chain.tip with
  | none => orLeave e (fail "no genesis block")
  | some tip =>
    let height := succHeight tip.header.height
    let round := (tip.header.round + 1) % 2 ^ 32
    match (if e.stopped height then none else e.slotKey height round) with
    | none => .ok (e, none)
    | some key => do
      orLeave { e with halted := true }
        (e.checkAuthorityParent V { height, prevHash := tip.hash C })
      let (pool, produced) := e.produceBlock C V env key height round tip
      let b ← orLeave { e with pool } (wrap "produce block" produced)
      let e ← { e with pool }.commitProduced C V env b
      .ok ((e.replayFutureVotes C env b).castVote C b, some b)

end Engine

end Aperod
