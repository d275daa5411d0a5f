import Aperod.Core.Chain
import Aperod.Core.TxVerifier

/-!
# The block verifier

`core/block_verifier.go`: the block rules as `node/node.go` applies them in front of the consensus
engine.  Times are nanoseconds.
-/

namespace Aperod

open Go

variable (C : Externals)

/-- `BlockVerifierConfig`, with the values of `DefaultBlockVerifierConfig`. -/
structure BlockVerifierConfig where
  maxBlockTime : Int := 2000000000
  maxPastDrift : Int := 30000000000
  maxTxsPerBlock : Nat := 2000
  maxBlockSize : Nat := 4 * 1024 * 1024

structure BlockVerifier where
  cfg : BlockVerifierConfig := {}
  chain : Chain
  txVerifier : Option TxVerifier := none

def Block.isGenesis (b : Block) : Bool := b.header.height = 0 && b.header.prevHash = 0

namespace BlockVerifierConfig

variable (cfg : BlockVerifierConfig)

/-- The timestamp against that of the parent. -/
def checkOrder (parent b : Block) : Result Unit :=
  failIf (¬ b.header.timestamp > parent.header.timestamp)
    s!"block {b.header.height}: timestamp {b.header.timestamp} not after parent {parent.header.timestamp}"

/-- The timestamp against the wall clock. -/
def checkClock (now : Int) (b : Block) : Result Unit := do
  failIf (b.header.timestamp > now + cfg.maxBlockTime)
    s!"block {b.header.height}: timestamp {b.header.timestamp} too far in the future (now={now})"
  failIf (cfg.maxPastDrift > 0 ∧ b.header.timestamp < now - cfg.maxPastDrift)
    s!"block {b.header.height}: timestamp {b.header.timestamp} too far in the past (now={now}, maxDrift={cfg.maxPastDrift})"

/-- The limits of transaction count and size. -/
def checkLimits (b : Block) : Result Unit := do
  failIf (b.txs.length > cfg.maxTxsPerBlock)
    s!"block {b.header.height}: too many txs: {b.txs.length} > {cfg.maxTxsPerBlock}"
  failIf (b.size > cfg.maxBlockSize)
    s!"block {b.header.height}: too large: {b.size} bytes > {cfg.maxBlockSize}"

end BlockVerifierConfig

namespace BlockVerifier

variable (v : BlockVerifier)

/-- The part of `VerifyBlock` that looks at the parent. -/
def checkParent (now : Int) (b : Block) : Result Unit :=
  if b.isGenesis then .ok ()
  else match v.chain.getByHash b.header.prevHash with
    | none => fail s!"block {b.header.height}: parent {hex8 b.header.prevHash} not found"
    | some parent => do
      failIf (succHeight parent.header.height ≠ b.header.height)
        s!"block {b.header.height}: height discontinuity (parent={parent.header.height})"
      BlockVerifierConfig.checkOrder parent b
      v.cfg.checkClock now b

/-- The proofs of the transactions, when there is a verifier. -/
def checkTxs (b : Block) : Result Unit :=
  match v.txVerifier with
  | none => .ok ()
  | some txV => wrap "tx crypto" (txV.verifyBlock C b)

def verifyBlock (now : Int) (b : Block) : Result Unit := do
  wrap "structural" (b.validate C b.header.validatorPub)
  v.checkParent now b
  v.cfg.checkLimits b
  v.checkTxs C b

end BlockVerifier

end Aperod
