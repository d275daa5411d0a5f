import Aperod.Store.Sale

/-!
# Committing blocks and selecting an earlier tip

`commitRawBlock` and `PutTip` of `store/leveldb.go`, with `store/lpod_indices.go`.  A commit writes the
block, the sale ledger, the LPoD checkpoint and the indices in one batch, and moves the tip.  `PutTip`
selects a tip: where LPoD is active it walks back from the current tip, and takes the writes of the
blocks in between out of the database again.  Contract state and the index of LPoD payouts by wallet
are not in the model.
-/

namespace Aperod.Store

open Go Sale

variable (C : Externals) (K : Lpod.Encodings) (o : RangeOrder)

/-! ### Indices -/

/-- `batch.Put(key, {1})`, or `batch.Delete(key)` in a rollback. -/
def mark {A : Type} [DecidableEq A] (rollback : Bool) (key : A) (m : GoMap A Unit) : GoMap A Unit :=
  if rollback then m.del key else m.set key ()

def indexInput (rollback : Bool) (inp : RingInput) (w : Records) : Result Records := do
  let ki ← C.canonicalKeyImage inp.keyImage
  .ok { w with keyImages := mark rollback ki w.keyImages }

def indexSource (rollback : Bool) (tx : Transaction) (w : Records) : Result Records :=
  if ¬ tx.isLPoDPosition then .ok w
  else do
    let a ← C.positionCodec.unmarshal tx.extra
    .ok (if a.action = lpodDeposit then
      { w with spentUTXOs := mark rollback (a.sourceTx, a.sourceIndex) w.spentUTXOs } else w)

/-- One transaction of `appendLPoDIndices`. -/
def indexTx (rollback : Bool) (height : UInt64) (tx : Transaction) (w : Records) :
    Result Records := do
  let w ← loop (fun _ => indexInput C rollback) 0 tx.inputs w
  let w ← indexSource C rollback tx w
  .ok ((storedOutputs C height tx).foldl
    (if rollback then Records.deleteOutput else Records.putOutput) w)

def appendLPoDIndices (rollback : Bool) (b : Block) (w : Records) : Result Records :=
  loop (fun _ => indexTx C rollback (UInt64.ofNat b.header.height)) 0 b.txs w

/-! ### Key images -/

/-- `keyImageSpentKey`: the canonical form, or the image itself where it has none. -/
def keyImageSpentKey (ki : KeyImage) : KeyImage :=
  match C.canonicalKeyImage ki with
  | .ok canonical => canonical
  | .error _ => ki

/-- The key image of a version 4 stake deposit. -/
def stakeKeyImage (tx : Transaction) : Result (Option KeyImage) :=
  if tx.isStake ∧ tx.extra.length = stakePayloadSizeV4 then do
    let p ← wrap "decode stake key image for atomic index" (decodeStakeExtraV4 tx.extra)
    .ok (some p.keyImage)
  else .ok none

def spendKeyImages (tx : Transaction) (m : GoMap KeyImage Unit) : Result (GoMap KeyImage Unit) := do
  let stake ← stakeKeyImage tx
  .ok ((tx.keyImages ++ stake.toList).foldl (fun m ki => m.set (keyImageSpentKey C ki) ()) m)

namespace DB

variable (d : DB)

/-! ### Commit -/

/-- The writes of `appendLPoDMigration` besides the binding. -/
def recordActivation (height : UInt64) (settlement : Option Lpod.Settlement)
    (loaded : Option Lpod.Checkpoint) (w : DB) : DB :=
  match loaded, settlement.bind (·.migration) with
  | none, some m => { w with
      activationHeights := w.activationHeights.set (Lpod.DB.bindingKey m.version) height
      activationBudgets := w.activationBudgets.set (Lpod.DB.bindingKey m.version) m.validatorRemaining }
  | _, _ => w

def indexBlock (b : Block) (settlement : Option Lpod.Settlement) (w : Records) : Result Records :=
  if settlement.any (·.positionProtocol) then appendLPoDIndices C false b w else .ok w

def commitRawBlock (o' : RangeOrder) (b : Block) (hash : Hash32) (height : UInt64)
    (sale : Option SaleSettlement) (settlement : Option Lpod.Settlement) : Result DB := do
  d.lpodView.validateLPoDBlock C K o b hash height settlement
  d.lpodView.checkSaleGenesisFundingTransition C K o height settlement
    (sale.any (·.before.isNone))
  let w ← d.appendSaleSettlement C K o b hash height sale d
  let loaded ← d.lpodView.loadCheckpoint C K o'
  let l ← d.lpodView.appendLPoDSettlement C K o' hash height settlement
  let records ← indexBlock C b settlement w.records
  let keyImages ← loop (fun _ => spendKeyImages C) 0 b.txs records.keyImages
  .ok (recordActivation height settlement loaded { w with
    lpod := { l with
      blocks := l.blocks.set hash b
      heights := l.heights.set height hash
      tip := (hash, height) }
    records := { records with keyImages } })

/-! ### Selecting a tip -/

/-- The first entry of a table by version. -/
def firstVersion (m : GoMap UInt8 UInt64) : Option UInt64 :=
  ((m.get 1).or (m.get 2)).or (m.get 3)

/-- The pool of the validators at a block from the funding of the reserve on. -/
def poolAt (hash : Hash32) (height : UInt64) : Result UInt64 :=
  match d.lpodView.lpodCheckpoint C K o hash with
  | .error _ => fail "lpod: cannot select tip without matching conserved checkpoint"
  | .ok c =>
    match (c.filter (·.state.lastHeight = height)).bind (·.allocation) with
    | none => fail "lpod: cannot select tip without matching conserved checkpoint"
    | some a => .ok a.validatorRemaining

/-- The pool of the validators at the parent of the funding block. -/
def poolBefore (height fundingHeight : UInt64) : Result UInt64 := do
  failIf (height + 1 ≠ fundingHeight)
    "lpod: rollback before attested funding parent requires historical validator-budget evidence"
  match firstVersion d.activationBudgets with
  | none => fail "lpod: missing attested funding-parent validator budget"
  | some remaining => .ok remaining

def restoreLPoDPool (hash : Hash32) (height : UInt64) (w : DB) : Result DB :=
  match firstVersion d.activationHeights with
  | none => .ok w
  | some fundingHeight => do
    let remaining ← if height ≥ fundingHeight then d.poolAt C K o hash height
      else d.poolBefore height fundingHeight
    .ok { w with lpod := { w.lpod with stakingPool := some remaining } }

/-- The loop of `rollbackLPoDIndices`; the first argument is the number of blocks to take back. -/
def rollbackIndicesFrom (target : Hash32) : Nat → Hash32 → UInt64 → DB → Result DB
  | 0, cursor, _, w => do
    failIf (cursor ≠ target) "lpod: selected rollback tip is not an ancestor"
    .ok w
  | n + 1, cursor, current, w => do
    let b ← d.bodyOf C "lpod: full canonical body required to rewind principal indices" cursor current
    let records ← appendLPoDIndices C true b w.records
    rollbackIndicesFrom target n b.header.prevHash (current - 1) { w with
      records
      lpod := { w.lpod with heights := w.lpod.heights.del current } }

def rollbackLPoDIndices (target : Hash32) (height : UInt64) (w : DB) : Result DB :=
  if ¬ (d.lpod.bindings.has 1 ∨ d.lpod.bindings.has 2 ∨ d.lpod.bindings.has 3) then .ok w
  else do
    let (cursor, current) := d.lpod.tip
    failIf (height > current) "lpod: advance branches using validated canonical commits"
    d.rollbackIndicesFrom C target (current.toNat - height.toNat) cursor current w

def putTip (hash : Hash32) (height : UInt64) : Result DB := do
  let w ← d.restoreSale C hash height d
  let w ← d.restoreLPoDPool C K o hash height w
  let w ← d.rollbackLPoDIndices C hash height w
  .ok { w with lpod := { w.lpod with tip := (hash, height) } }

end DB

/-! ### Runs -/

/-- One call of `commitRawBlock`. -/
structure Commit where
  block : Block
  hash : Hash32
  height : UInt64
  sale : Option SaleSettlement
  settlement : Option Lpod.Settlement
  validateOrder : RangeOrder
  appendOrder : RangeOrder

def Committed (C : Externals) (K : Lpod.Encodings) (d : DB) (e : Commit) (d' : DB) : Prop :=
  d.commitRawBlock C K e.validateOrder e.appendOrder e.block e.hash e.height e.sale e.settlement =
    .ok d'

/-- What happens to the database: commits, and the operator's work on orders. -/
inductive Event
  | commit (e : Commit)
  | reserve (order : SaleOrder) (network : UInt8) (ids : List Hash32)
  | bind (id : Hash32) (invoice : SaleInvoice)
  | pay (id payment : Hash32)

def Step (C : Externals) (K : Lpod.Encodings) (M : Merchant) (d : DB) : Event → DB → Prop
  | .commit e, d' => Committed C K d e d'
  | .reserve order network ids, d' => d.reserveSaleOrder C M order network ids = .ok d'
  | .bind id invoice, d' => d.bindSaleInvoice M id invoice = .ok d'
  | .pay id payment, d' => d.markSaleOrderPaid M id payment = .ok d'

def Event.block : Event → Option Block
  | .commit e => some e.block
  | _ => none

end Aperod.Store
