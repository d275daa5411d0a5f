import Aperod.Consensus.Policy

/-!
# Accepting a block

`handleIncomingBlock` of `consensus/poa.go`: the checks of a received block in the order of the
source, the commit of the block, and the votes that follow it.  `acceptBlock` is the part before the
votes.  A rejected block leaves the model's engine as it was; the source keeps the slashing record and
rolls the UTXO set back where a late step failed.
-/

namespace Aperod

open Go

variable (C : Externals) {S : Type} (V : Services S)

def maxClockSkewNs : Int := 15 * 1000000000
def maxUint32 : Nat := 2 ^ 32 - 1
def slashingPruneDepth : Nat := 2048

def epochEnds (height : Nat) : Bool := height % epochLength = 0

/-- The key of the slashing record of a block. -/
def BlockHeader.evidenceKey (h : BlockHeader) : Nat × String :=
  (h.height, ValidatorPubKey.id h.validatorPub)

namespace Engine

variable (e : Engine S)

/-- `CheckBlock` of the slashing detector: the first block of a slot is recorded, a second one with
another hash is evidence. -/
def checkSlashing (b : Block) : Result (GoMap (Nat × String) SignedSlot) :=
  let hash := b.hash C
  match e.slashing.get b.header.evidenceKey with
  | none =>
    let seen := e.slashing.set b.header.evidenceKey ⟨hash, b.header.signature, b.header.round⟩
    .ok (if b.header.height > slashingPruneDepth then
      seen.filter fun k _ => ¬ k.1 < b.header.height - slashingPruneDepth else seen)
  | some prev => do
    failIf (prev.hash ≠ hash)
      s!"double-sign: DOUBLE-SIGN validator={ValidatorPubKey.id b.header.validatorPub} height={b.header.height} rounds={prev.round},{b.header.round} hash1={hexString ((prev.hash.bytes).take 6)} hash2={hexString ((hash.bytes).take 6)}"
    .ok e.slashing

/-- `checkOraclePriceDeviation` against the local reading, in exact arithmetic. -/
def checkOraclePriceDeviation (localPrice blockPrice : Nat) : Result Unit :=
  if ¬ e.cfg.oracleConfigured ∨ e.cfg.oracleMaxDeviation ≤ 0 ∨ blockPrice = 0 ∨ localPrice = 0 then
    .ok ()
  else
    let deviation : ℚ := |(blockPrice : ℚ) - localPrice| / localPrice
    failIf (deviation > e.cfg.oracleMaxDeviation)
      s!"oracle price check failed: oracle price deviation too large: block={blockPrice} local={localPrice}"

/-- The checks of the header against clock, tip and schedule. -/
def checkHeader (env : Env) (b : Block) : Result Unit := do
  failIf (b.header.timestamp - env.now > maxClockSkewNs)
    s!"block {b.header.height}: timestamp too far from local clock (skew {(b.header.timestamp - env.now) / 1000000}ms, max {maxClockSkewNs / 1000000}ms)"
  match e.chain.tip with
  | none => fail "no genesis block"
  | some tip => do
    failIf (tip.header.height = maxUint64 ∨ b.header.height ≠ tip.header.height + 1)
      s!"block height {b.header.height} doesn't extend tip {tip.header.height}"
    failIf (tip.header.round = maxUint32 ∨ b.header.round ≠ tip.header.round + 1)
      s!"block round {b.header.round} doesn't extend tip round {tip.header.round}"
  failIf (b.header.validatorPub ∉ e.activeValidators)
    s!"block from unknown validator {ValidatorPubKey.id b.header.validatorPub}"
  failSome ((e.proposerAt b.header.round).filter (· ≠ b.header.validatorPub)) fun expected =>
    s!"block round {b.header.round}: producer {ValidatorPubKey.id b.header.validatorPub} is not the scheduled proposer {ValidatorPubKey.id expected}"

def checkContent (now : Int) (b : Block) : Result Unit := do
  let block := s!"block {b.header.height}"
  wrap "block key-image check failed" (blockKeyImageCheck b)
  wrap s!"{block}: coinbase policy violation" (e.validateCoinbasePolicy C V now b)
  wrap s!"{block}: fee policy violation" (e.validateBlockEconomics b)
  wrap s!"{block}: RingCT activation policy violation" (e.validateRingCTV4Activation C V now b)
  wrap s!"{block}: stake validation failed"
    (e.registry.validateBlockStakeTxs C b.txs b.header.height)
  wrap "tx crypto verification failed" (e.verifyBlockWithSales C V now b)
  wrap s!"{block}: AVM execution failed" (e.prepareAVMBlock C V now b)

/-- The registry and its UTXO set after the block, before an epoch transition. -/
def commitRegistry (b : Block) : Result ValidatorRegistry := do
  let s ← deref e.registry.utxos
  let s' ← wrap "utxo state transition rejected block" (s.applyBlock C b)
  wrap s!"block {b.header.height}: stake apply failed (block rejected)"
    ({ e.registry with utxos := some s' }.applyBlockStakeTxs C b.txs b.header.height)

/-- The state after a committed block, for the registry, chain and store it leads to. -/
def advance (env : Env) (b : Block) (r : ValidatorRegistry) (chain : Chain) (store : S) : Engine S :=
  let fee := nextBaseFee (if b.header.baseFee = 0 then e.expectedBaseFee else b.header.baseFee) b.size
  { e with
    chain
    store
    registry := if epochEnds b.header.height then (r.updateEpoch b.header.height env.epoch).1 else r
    baseFee := fee
    pool := (e.pool.setBaseFee fee).removeBlock C b }

/-- `handleIncomingBlock` up to the votes. -/
def acceptBlock (env : Env) (b : Block) : Result (Engine S) := do
  failIf e.halted "consensus engine halted after persistent rollback failure"
  e.checkAuthorityParent V b.header
  wrap "invalid block" (b.validate C
    (authority e.cfg.validatorAuthorityFork b.header.validatorPub b.header.height))
  e.checkHeader env b
  let slashing ← e.checkSlashing C b
  e.checkOraclePriceDeviation env.oraclePrice b.header.oraclePrice
  e.checkContent C V env.now b
  let r ← e.commitRegistry C b
  let chain ← wrap "add block" (e.chain.addBlock C b)
  let store ← wrap s!"persist canonical block {b.header.height}" (V.onCanonicalBlock e.store b)
  .ok ({ e with slashing }.advance C env b r chain store)

/-! ### Votes -/

/-- A vote from the network, or the engine's own. -/
def deliver (vote : FinalizeMsg) : Engine S :=
  { e with finality := (e.finality.handleVote C e.voteContext vote).2 }

/-- The vote `castVote` signs for a block. -/
def ownVote (key : ValidatorKey) (b : Block) : FinalizeMsg where
  blockHash := b.hash C
  height := b.header.height
  validatorPub := e.localIdentity key b.header.height
  signature := key.sign (finalizeMessage C (b.hash C))

/-- `castVote`, on a store whose writes succeed. -/
def castVote (b : Block) : Engine S :=
  match e.cfg.myKey with
  | some key => e.deliver C (e.ownVote C key b)
  | none => e

def replayFutureVotes (env : Env) (b : Block) : Engine S :=
  { e with finality := e.finality.replayFutureVotes C e.voteContext env.staged b }

def handleIncomingBlock (env : Env) (b : Block) : Result (Engine S) := do
  let e ← e.acceptBlock C V env b
  .ok ((e.castVote C b).replayFutureVotes C env b)

end Engine

end Aperod
