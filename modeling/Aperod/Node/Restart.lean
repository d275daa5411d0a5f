import Aperod.Consensus.Accept
import Aperod.Core.Snapshot

/-!
# A block on a running node and on a restarting one

What happens to the registry (and the UTXO set it is wired to) when a block is processed:

* live, in `handleIncomingBlock`: apply the block to the UTXO set, apply its stake transactions, and
  at the end of an epoch run `UpdateEpoch`;
* in `runStartupScan` and `replayPostSnapshotGap`, from a restored snapshot: rebuild the UTXO set and
  replay the stake transactions.

The store has every block of the chain; indexes for other parts of the node are left out.
-/

namespace Aperod

open Go

variable (C : Externals)

/-! ### Live -/

/-- `isKnownValidator`, for a registry with entries. -/
def ValidatorRegistry.Knows (r : ValidatorRegistry) (pub : ValidatorPubKey) : Prop :=
  ∃ order ∈ r.validators.enumerations, pub ∈ activeSet order

/-- `ApplyBlock` and `ApplyBlockStakeTxs` for an incoming block. -/
def ValidatorRegistry.commitBlock (r : ValidatorRegistry) (b : Block) :
    Result ValidatorRegistry := do
  let s ← deref r.utxos
  let s' ← s.applyBlock C b
  { r with utxos := some s' }.applyBlockStakeTxs C b.txs b.header.height

/-- What an accepted block does to the registry.  `UpdateEpoch` meets the map in any order. -/
def LiveStep (r : ValidatorRegistry) (b : Block) (r' : ValidatorRegistry) : Prop :=
  r.Knows b.header.validatorPub ∧ ∃ r1, r.commitBlock C b = .ok r1 ∧
    if epochEnds b.header.height then
      ∃ o : EpochOrders, o.Valid r1 b.header.height ∧ r' = (r1.updateEpoch b.header.height o).1
    else r' = r1

/-! ### Restart -/

/-- The key images of a scanned block, when there is no trusted index of them. -/
def markScannedTx (tx : Transaction) (s : UTXOSet) : Result UTXOSet := do
  let s := tx.inputs.foldl (fun s inp => s.markSpent C inp.keyImage) s
  if tx.isStake ∧ tx.extra.length = stakePayloadSizeV4 then
    let p ← decodeStakeExtraV4 tx.extra
    .ok (s.markSpent C p.keyImage)
  else .ok s

/-- The UTXO part of one iteration of `runStartupScan`.  With the key images pre-loaded from their
index the check of the inputs would reject the block, so only pass 2 runs. -/
def scanUTXOs (kiFromIndex : Bool) (b : Block) (s : UTXOSet) : Result UTXOSet :=
  if kiFromIndex then .ok (s.applyTxs C b)
  else do
    let s' ← wrap s!"startup scan: ApplyBlock failed at height {b.header.height}" (s.applyBlock C b)
    loop (fun _ tx s => wrap s!"scan block {b.header.height} stake key-image payload"
      (markScannedTx C tx s)) 0 b.txs s'

/-- One iteration of `runStartupScan`. -/
def scanBlock (kiFromIndex : Bool) (b : Block) (r : ValidatorRegistry) :
    Result ValidatorRegistry := do
  let s ← deref r.utxos
  let s' ← scanUTXOs C kiFromIndex b s
  wrap s!"stake replay failed at height {b.header.height}"
    ({ r with utxos := some s' }.replayBlockStakeTxs C b.txs b.header.height)

/-- The producers named in the headers. -/
def observedProducers (bs : List Block) : List ValidatorPubKey :=
  ((bs.map (·.header.validatorPub)).filter (· ≠ [])).dedup

/-- `runStartupScan` over the blocks after the snapshot.  A registry without active validators is
seeded with the observed producers. -/
def runStartupScan (kiFromIndex : Bool) (bs : List Block) (r : ValidatorRegistry) :
    Result ValidatorRegistry := do
  let r' ← loop (fun _ b r => scanBlock C kiFromIndex b r) 0 bs r
  .ok (if activeCount r'.validators = 0 ∧ observedProducers bs ≠ []
    then r'.seedFromObservedProducers (observedProducers bs) else r')

/-- One iteration of `replayPostSnapshotGap`. -/
def gapBlock (b : Block) (r : ValidatorRegistry) : Result ValidatorRegistry := do
  let s ← deref r.utxos
  let s' ← s.applyBlock C b
  { r with utxos := some s' }.replayBlockStakeTxs C b.txs b.header.height

/-- `replayPostSnapshotGap`, when it is complete; a caller falls back to the scan otherwise. -/
def replayPostSnapshotGap (bs : List Block) (r : ValidatorRegistry) : Result ValidatorRegistry :=
  loop (fun _ b r => gapBlock C b r) 0 bs r

/-- The registry of a restarted node: its configuration, the validators of the snapshot and the
restored UTXO set. -/
def bootRegistry (config : ValidatorRegistry) (snap : RegistrySnapshot) (t : UTXOSet) :
    ValidatorRegistry :=
  { config.restoreFromSnapshot snap with utxos := some t }

end Aperod
