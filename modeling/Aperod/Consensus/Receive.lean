import Aperod.Consensus.Production

/-!
# Receiving a block, with what a refusal leaves behind

`handleIncomingBlock` with every way it can stop.  A block that reaches the slashing detector is
recorded there even if a later check refuses it; a block that was applied to the UTXO set is rolled
back when its stake transactions, the chain or the durable store refuse it.  `receiveBlock` returns
the engine in both cases; on success it is `handleIncomingBlock` of `Consensus.Accept`.
-/

namespace Aperod

open Go

variable (C : Externals) {S : Type} (V : Services S)

structure DoubleSignEvidence where
  height : Nat
  round1 : Nat
  validator : ValidatorPubKey
  hash1 : Hash32
  sig1 : Bytes
  round2 : Nat
  hash2 : Hash32
  sig2 : Bytes
  deriving DecidableEq

namespace Engine

variable (e : Engine S)

/-- The checks of `handleIncomingBlock` before the slashing detector sees the block. -/
def checkCandidate (env : Env) (b : Block) : Result Unit := do
  failIf e.halted "consensus engine halted after persistent rollback failure"
  e.checkAuthorityParent V b.header
  wrap "invalid block" (b.validate C
    (authority e.cfg.validatorAuthorityFork b.header.validatorPub b.header.height))
  e.checkHeader env b

/-- The evidence `CheckBlock` returns. -/
def evidence (b : Block) : Option DoubleSignEvidence :=
  match e.slashing.get b.header.evidenceKey with
  | none => none
  | some prev =>
    if prev.hash = b.hash C then none
    else some {
      height := b.header.height
      round1 := prev.round
      validator := b.header.validatorPub
      hash1 := prev.hash
      sig1 := prev.sig
      round2 := b.header.round
      hash2 := b.hash C
      sig2 := b.header.signature }

/-- The evidence a call of `handleIncomingBlock` produces. -/
def reported (env : Env) (b : Block) : Option DoubleSignEvidence :=
  match e.checkCandidate C V env b with
  | .ok () => e.evidence C b
  | .error _ => none

/-- The UTXO set `handleIncomingBlock` has built when it turns to the stake transactions. -/
def transition (env : Env) (b : Block) : Result UTXOSet := do
  e.checkCandidate C V env b
  let _ ← e.checkSlashing C b
  e.checkOraclePriceDeviation env.oraclePrice b.header.oraclePrice
  e.checkContent C V env.now b
  let s ← deref e.registry.utxos
  wrap "utxo state transition rejected block" (s.applyBlock C b)

/-- `handleIncomingBlock`: the engine after the block, or the engine a refusal leaves. -/
def receiveBlock (env : Env) (b : Block) : Except (Engine S × Fault) (Engine S) := do
  orLeave e (e.checkCandidate C V env b)
  let slashing ← orLeave e (e.checkSlashing C b)
  let e : Engine S := { e with slashing }
  orLeave e (e.checkOraclePriceDeviation env.oraclePrice b.header.oraclePrice)
  orLeave e (e.checkContent C V env.now b)
  let s ← orLeave e (deref e.registry.utxos)
  let s' ← orLeave e (wrap "utxo state transition rejected block" (s.applyBlock C b))
  let r ← orLeave (e.undoStake C b s')
    (wrap s!"block {b.header.height}: stake apply failed (block rejected)"
      ({ e.registry with utxos := some s' }.applyBlockStakeTxs C b.txs b.header.height))
  let keys := b.txs.filterMap Transaction.stakeBurnKey
  let chain ← orLeave (e.undo C b r keys) (wrap "add block" (e.chain.addBlock C b))
  let store ← orLeave (e.failCanonicalPersistence C b r keys chain)
    (wrap s!"persist canonical block {b.header.height}" (V.onCanonicalBlock e.store b))
  .ok (((e.advance C env b r chain store).castVote C b).replayFutureVotes C env b)

/-- The engine after a call of `handleIncomingBlock`, whatever it returned. -/
def afterBlock (env : Env) (b : Block) : Engine S :=
  match e.receiveBlock C V env b with
  | .ok e' => e'
  | .error (e', _) => e'

end Engine

end Aperod
