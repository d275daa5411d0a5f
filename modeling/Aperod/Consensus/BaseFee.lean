import Aperod.Consensus.Engine

/-!
# The base fee

The base fee of `poa.go` apart from the rest of the engine, for any function in the place of
`nextBaseFee`.  Three code paths compute it: a live node updates it with every block it receives
(`receive`) or produces (`produce`), `NewEngine` reads it off the tip after a restart (`newEngine`),
and from LPoD on `expectedBaseFeeAt` derives it from the parent.
-/

namespace Aperod

open Go

/-- What base fees are computed with. -/
structure FeeRules where
  /-- `nextBaseFee`, of the current fee and the size of the block. -/
  next : Nat → Nat → Nat
  ringCTV4ActivationHeight : Nat
  lpodActive : Nat → Bool

/-- What the base fee depends on. -/
structure FeeNode where
  tip : Option Block
  baseFee : Nat := initialBaseFeePerByte

namespace FeeNode

variable (R : FeeRules) (n : FeeNode)

def newEngine (tip : Option Block) : FeeNode where
  tip
  baseFee := match tip.filter (·.header.height > 0) with
    | some b =>
      R.next (if b.header.baseFee = 0 then initialBaseFeePerByte else b.header.baseFee) b.size
    | none => initialBaseFeePerByte

def expectedBaseFee : Nat := if n.baseFee = 0 then initialBaseFeePerByte else n.baseFee

def expectedBaseFeeAt (height : Nat) : Nat :=
  if R.ringCTV4ActivationHeight > 0 ∧ height = R.ringCTV4ActivationHeight then initialBaseFeePerByte
  else match n.tip.filter fun tip =>
      R.lpodActive height && succHeight tip.header.height = height with
    | some parent => R.next parent.header.baseFee parent.size
    | none => n.expectedBaseFee

/-- The check of `validateBlockEconomics` of the base fee. -/
def checkBaseFee (b : Block) : Result Unit :=
  if R.ringCTV4ActivationHeight > 0 ∧ b.header.height < R.ringCTV4ActivationHeight then .ok ()
  else do
    let expected := n.expectedBaseFeeAt R b.header.height
    failIf (b.header.baseFee = 0) "base fee must be explicitly committed after activation"
    failIf (b.header.baseFee ≠ expected)
      s!"base fee mismatch: got {b.header.baseFee}, want {expected}"

/-- `handleIncomingBlock`: the block is checked and becomes the tip, and the fee follows it. -/
def receive (b : Block) : Result FeeNode :=
  match n.tip with
  | none => fail "no genesis block"
  | some tip => do
    failIf (tip.header.height = maxUint64 ∨ b.header.height ≠ tip.header.height + 1)
      s!"block height {b.header.height} doesn't extend tip {tip.header.height}"
    n.checkBaseFee R b
    let blockBaseFee := if b.header.baseFee = 0 then n.expectedBaseFee else b.header.baseFee
    .ok { tip := some b, baseFee := R.next blockBaseFee b.size }

/-- The produced block with its base fee. -/
def withBaseFee (draft : Block) : Block :=
  { draft with header := { draft.header with baseFee := n.expectedBaseFeeAt R draft.header.height } }

/-- `tick`: the block gets the expected fee, is checked and becomes the tip, and the fee follows
it. -/
def produce (draft : Block) : Result FeeNode :=
  match n.tip with
  | none => fail "no genesis block"
  | some tip => do
    let b := n.withBaseFee R draft
    failIf (b.header.height ≠ succHeight tip.header.height)
      s!"block height {b.header.height} does not extend tip at {tip.header.height}"
    n.checkBaseFee R b
    let blockBaseFee := if b.header.baseFee = 0
      then { n with tip := some b }.expectedBaseFeeAt R b.header.height else b.header.baseFee
    .ok { tip := some b, baseFee := R.next blockBaseFee b.size }

end FeeNode

/-- What happens to a node. -/
inductive FeeEvent
  | receive (b : Block)
  | produce (draft : Block)
  | restart

def FeeNode.step (R : FeeRules) (n : FeeNode) : FeeEvent → Result FeeNode
  | .receive b => n.receive R b
  | .produce draft => n.produce R draft
  | .restart => .ok (newEngine R n.tip)

end Aperod
