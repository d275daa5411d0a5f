import Aperod.Core.TxVerifier

/-!
# Block checks of the engine

The checks of `consensus/poa.go` that only read the block.
-/

namespace Aperod

open Go

/-- The inner loop of `blockKeyImageCheck`; `seen` maps a raw key image to its first transaction. -/
def keyImageCheckTx (height txIdx : Nat) (tx : Transaction) (seen : GoMap KeyImage Nat) :
    Result (GoMap KeyImage Nat) :=
  if tx.isCoinbase || tx.isStake then .ok seen
  else loop (fun _ (inp : RingInput) (seen : GoMap KeyImage Nat) => do
    failSome (seen.get inp.keyImage) fun first =>
      s!"block {height}: duplicate key image {hex8 inp.keyImage} in tx[{txIdx}] already seen in tx[{first}]"
    .ok (seen.set inp.keyImage txIdx)) 0 tx.inputs seen

/-- `blockKeyImageCheck`: no raw key image twice among the spending transactions of a block.
Coinbases and stake transactions are passed over. -/
def blockKeyImageCheck (b : Block) : Result Unit := do
  let _ ← loop (keyImageCheckTx b.header.height) 0 b.txs ∅

/-- The block without its sale transactions, which the engine hands to the verifier. -/
def Block.withoutSales (b : Block) : Block := { b with txs := b.txs.filter (!·.isSale) }

end Aperod
