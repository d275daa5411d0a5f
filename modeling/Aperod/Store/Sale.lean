import Aperod.Store.SaleReserve

/-!
# Sales in the database

`store/sale.go` and `store/sale_orders.go`.  `DB.prepareSaleBlock` checks the sale transactions of a
block and computes the next ledger; `DB.appendSaleSettlement` does it again at the commit and writes
the ledger, a fence for every order and payment, the sold outputs and a journal.  `DB.restoreSale`
walks back along the journals.

A commit and a rollback collect their writes in a batch: they read the database `d` as it was and
write to a copy `w` of it.  A customer's order is reserved, bound to an invoice and paid outside the
chain (`DB.reserveSaleOrder`, `DB.bindSaleInvoice`, `DB.markSaleOrderPaid`).
-/

namespace Aperod.Store

open Go Sale

/-! ### Records -/

structure SaleMigration where
  checkpoint : Sale.Checkpoint
  reconciliation : Reconciliation
  trusted : List ValidatorPubKey

structure SaleSettlement where
  migration : Option SaleMigration
  before : Option Sale.State
  after : Sale.State

structure SaleJournal where
  before : Option Sale.State
  queuedOrders : List Hash32 := []
  deriving DecidableEq

structure SaleInvoice where
  providerID : String
  currency : String
  address : String
  amount : String
  priceUSD : String
  deriving DecidableEq

structure SaleOrder where
  order : Hash32
  checkpoint : Hash32
  recipient : Address
  amount : UInt64
  payment : Hash32 := 0
  invoice : Option SaleInvoice := none
  quoteUSD : String := ""
  deriving DecidableEq

/-- `StoredUTXO`: the fields a commit fills in. -/
structure StoredUTXO where
  txHash : Hash32
  outputIndex : UInt32
  oneTimePub : Point32
  txPubKey : Point32
  amountCommit : Commitment
  encAmount : BitVec (8 * 8)
  blockHeight : UInt64
  deriving DecidableEq

abbrev OutputKey := Hash32 × UInt32

/-- The indices of the database: spent key images (`k/`), outputs (`u/`), outputs by one-time key
(`rm/`) and spent outputs (`su/`). -/
structure Records where
  keyImages : GoMap KeyImage Unit := ∅
  utxos : GoMap OutputKey StoredUTXO := ∅
  ringMembers : GoMap Point32 StoredUTXO := ∅
  spentUTXOs : GoMap OutputKey Unit := ∅
  deriving DecidableEq

/-- The database, as far as LPoD, sales and the indices go. -/
structure DB where
  /-- Blocks, tip, checkpoints and the pool of the validators. -/
  lpod : Lpod.DB
  /-- `lpod/activation_height` and `lpod/activation_validator_budget`, by version. -/
  activationHeights : GoMap UInt8 UInt64 := ∅
  activationBudgets : GoMap UInt8 UInt64 := ∅
  /-- `LoadSaleState`. -/
  sale : Option Sale.State := none
  fences : GoMap (FenceKind × Hash32) Hash32 := ∅
  journals : GoMap Hash32 SaleJournal := ∅
  orders : GoMap Hash32 SaleOrder := ∅
  pending : GoMap Hash32 Hash32 := ∅
  /-- `sale/order-payment/` and `sale/invoice/`: the order of a payment. -/
  orderPayments : GoMap Hash32 Hash32 := ∅
  invoices : GoMap Hash32 Hash32 := ∅
  /-- `t/`: the place of a transaction. -/
  txLocations : GoMap Hash32 (UInt64 × UInt32) := ∅
  records : Records := {}

/-- What LPoD sees: whether there is a sale ledger. -/
def DB.lpodView (d : DB) : Lpod.DB := { d.lpod with saleState := d.sale.isSome }

/-- The record of an output of a block. -/
def storedUTXO (txHash : Hash32) (height : UInt64) (i : Nat) (out : Output) : StoredUTXO where
  txHash
  outputIndex := UInt32.ofNat i
  oneTimePub := out.oneTimePub
  txPubKey := out.txPubKey
  amountCommit := out.amountCommit
  encAmount := out.encAmount
  blockHeight := height

namespace Records

/-- The two records of a new output. -/
def putOutput (w : Records) (u : StoredUTXO) : Records :=
  { w with
    utxos := w.utxos.set (u.txHash, u.outputIndex) u
    ringMembers := w.ringMembers.set u.oneTimePub u }

/-- Everything about an output of a block that is undone. -/
def deleteOutput (w : Records) (u : StoredUTXO) : Records :=
  { w with
    utxos := w.utxos.del (u.txHash, u.outputIndex)
    ringMembers := w.ringMembers.del u.oneTimePub
    spentUTXOs := w.spentUTXOs.del (u.txHash, u.outputIndex) }

end Records

variable (C : Externals) (K : Lpod.Encodings) (o : RangeOrder)

def storedOutputs (height : UInt64) (tx : Transaction) : List StoredUTXO :=
  tx.outputs.mapIdx fun i out => storedUTXO (tx.hash C) height i out

def saleTxs (b : Block) : List Transaction := b.txs.filter (·.isSale)

namespace DB

variable (d : DB)

def saleConsumed (kind : FenceKind) (id : Hash32) : Bool := d.fences.has (kind, id)

/-! ### Preparing a block -/

/-- No recipient key is used twice or known already. -/
def checkRecipientKey (pub : Point32) (seen : List Point32) : Result (List Point32) := do
  failIf (pub ∈ seen) "sale: duplicate recipient output key"
  failIf (d.records.ringMembers.has pub) "sale: recipient output key already exists"
  .ok (pub :: seen)

/-- The same for all sale transactions. -/
def checkRecipientKeys (txs : List Transaction) : Result Unit := do
  let _ ← loop (fun _ => d.checkRecipientKey) 0 (txs.flatMap fun tx => tx.outputs.map (·.oneTimePub))
    []

/-- `GetRawBlockByHeight(0)` is the genesis the checkpoint names. -/
def checkGenesis (genesis : Hash32) : Result Unit :=
  match (d.lpod.heights.get 0).bind d.lpod.blocks.get with
  | none => fail "sale: canonical genesis mismatch"
  | some b => failIf (b.hash C ≠ genesis) "sale: canonical genesis mismatch"

/-- The checks of the first block with a ledger. -/
def checkActivation (b : Block) (m : SaleMigration) : Result Unit := do
  let c := m.checkpoint
  failIf (b.header.height ≠ c.height.toNat ∨ d.lpod.tip.1 ≠ c.parent)
    "sale: missed activation parent"
  d.checkGenesis C c.genesis
  let l ← d.lpodView.loadCheckpoint C K o
  verifySaleReserveFloors l m.reconciliation
  let issued ← saleKnownIssuedFloor l
  let l ← deref l
  verifyReconciledCheckpoint C c m.reconciliation c.genesis d.lpod.tip.1 (l.digest C K) c.height issued
    m.trusted

/-- The ledger a block starts from. -/
def startState (b : Block) (m : SaleMigration) : Result Sale.State :=
  match d.sale with
  | some s => .ok s
  | none => do
    d.checkActivation C K o b m
    .ok (initialState C m.checkpoint)

/-- The block and its migration need a settlement. -/
def prepareWith (b : Block) (m : SaleMigration) : Result SaleSettlement := do
  failIf (b.header.merkleRoot ≠ merkleRoot C b.txs)
    "sale: transaction body does not match header"
  d.checkRecipientKeys (saleTxs b)
  let c := m.checkpoint
  c.verify C c.genesis c.parent c.height m.trusted
  failIf (d.lpod.tip.1 ≠ b.header.prevHash ∨ (d.lpod.tip.2 + 1).toNat ≠ b.header.height)
    "sale: block is not the durable tip successor"
  let start ← d.startState C K o b m
  let after ← start.advance C c (UInt64.ofNat b.header.height) b.header.prevHash (b.hash C) (saleTxs b)
    d.saleConsumed
  .ok { migration := some m, before := d.sale, after }

def prepareSaleBlock (b : Block) (m : Option SaleMigration) : Result (Option SaleSettlement) :=
  if d.sale = none ∧ (saleTxs b).length = 0 ∧
      m.all (fun m => b.header.height < m.checkpoint.height.toNat) then .ok none
  else match m with
    | none => fail "sale: approved migration missing or block limit exceeded"
    | some m => do
      failIf ((saleTxs b).length > 128)
        "sale: approved migration missing or block limit exceeded"
      let p ← d.prepareWith C K o b m
      .ok (some p)

/-! ### Committing a block -/

def saleOrder (id : Hash32) : Result (Option SaleOrder) :=
  match d.orders.get id with
  | none => .ok none
  | some order => do
    failIf (order.order ≠ id ∨ order.amount = 0) "sale: inconsistent order"
    .ok (some order)

/-- A reserved order is delivered: it leaves the queue, and the journal remembers it. -/
def deliverOrder (checkpoint : Hash32) (a : SaleAuthorization) (order : Option SaleOrder)
    (w : DB × List Hash32) : Result (DB × List Hash32) :=
  match order with
  | none => .ok w
  | some order => do
    failIf (order.checkpoint ≠ checkpoint ∨ order.amount.toNat ≠ a.amount ∨ order.payment ≠ a.payment)
      "sale: canonical transaction conflicts with reserved payment"
    .ok ({ w.1 with pending := w.1.pending.del a.order }, w.2 ++ [a.order])

/-- One transaction of `appendSaleSettlement`; besides the batch it extends the journal. -/
def appendSale (checkpoint hash : Hash32) (height : UInt64) (i : Nat) (tx : Transaction)
    (w : DB × List Hash32) : Result (DB × List Hash32) :=
  if ¬ tx.isSale then .ok w
  else do
    let a ← tx.saleAuthorization C
    let order ← d.saleOrder a.order
    let (w, queued) ← deliverOrder checkpoint a order w
    .ok ({ w with
      fences := (w.fences.set (.order, a.order) hash).set (.payment, a.payment) hash
      txLocations := w.txLocations.set (tx.hash C) (height, UInt32.ofNat i)
      records := (storedOutputs C height tx).foldl Records.putOutput w.records }, queued)

def appendSaleSettlement (b : Block) (hash : Hash32) (height : UInt64)
    (settlement : Option SaleSettlement) (w : DB) : Result DB :=
  match settlement with
  | none => do
    failIf (d.sale.isSome ∨ b.txs.any (·.isSale)) "sale: missing prepared canonical settlement"
    .ok w
  | some p => do
    failIf (b.hash C ≠ hash ∨ b.header.height ≠ height.toNat) "sale: body context mismatch"
    let actual ← d.prepareSaleBlock C K o b p.migration
    match actual with
    | none => fail "sale: stale or forged settlement"
    | some actual => do
      failIf (actual.after ≠ p.after) "sale: stale or forged settlement"
      let (w, queuedOrders) ← loop (d.appendSale C actual.after.checkpoint hash height) 0 b.txs (w, [])
      .ok { w with
        sale := some actual.after
        journals := w.journals.set hash { before := actual.before, queuedOrders } }

/-! ### Rolling back -/

/-- The full body of a canonical block. -/
def bodyOf (text : String) (hash : Hash32) (height : UInt64) : Result Block :=
  match d.lpod.blocks.get hash with
  | none => fail text
  | some b => do
    failIf (b.hash C ≠ hash ∨ b.header.height ≠ height.toNat) text
    .ok b

/-- An order that was delivered in the block is queued again. -/
def requeueOrder (id : Hash32) (w : DB) : Result DB := do
  let order ← d.saleOrder id
  failIf (order.all (·.payment = 0)) "sale: rollback payment obligation missing"
  .ok { w with pending := w.pending.set id id }

/-- One transaction of `restoreSale`. -/
def undoSale (height : UInt64) (tx : Transaction) (w : DB) : Result DB :=
  if ¬ tx.isSale then .ok w
  else do
    let a ← tx.saleAuthorization C
    .ok { w with
      fences := (w.fences.del (.order, a.order)).del (.payment, a.payment)
      txLocations := w.txLocations.del (tx.hash C)
      records := (storedOutputs C height tx).foldl Records.deleteOutput w.records }

/-- The ledger before a block is the one of its parent. -/
def checkWitness (cursor : Hash32) (current height : UInt64) (before : Option Sale.State) :
    Result Unit :=
  match before with
  | none => failIf (current > height) "sale: rollback crosses activation without witness"
  | some s => failIf (s.hash ≠ cursor ∨ s.height ≠ current) "sale: corrupt rollback witness"

/-- One block of `restoreSale`. -/
def undoSaleBlock (cursor : Hash32) (current : UInt64) (journal : SaleJournal) (w : DB) :
    Result (Hash32 × DB) := do
  let b ← d.bodyOf C "sale: rollback body missing" cursor current
  let w ← loop (fun _ => d.requeueOrder) 0 journal.queuedOrders w
  let w ← loop (fun _ => undoSale C current) 0 b.txs w
  .ok (b.header.prevHash, { w with
    lpod := { w.lpod with heights := w.lpod.heights.del current }
    journals := w.journals.del cursor })

/-- The loop of `restoreSale`, from the block `cursor` at height `current` down to `height`; the first
argument is the number of blocks between them. -/
def restoreSaleFrom (target : Hash32) (height : UInt64) : Nat → Hash32 → UInt64 → Option Sale.State →
    DB → Result DB
  | 0, cursor, _, s, w => do
    failIf (cursor ≠ target) "sale: rollback target is not an ancestor"
    .ok { w with sale := s }
  | n + 1, cursor, current, _, w =>
    match d.journals.get cursor with
    | none => fail "sale: rollback witness missing"
    | some journal => do
      let (cursor', w) ← d.undoSaleBlock C cursor current journal w
      checkWitness cursor' (current - 1) height journal.before
      restoreSaleFrom target height n cursor' (current - 1) journal.before w

def restoreSale (target : Hash32) (height : UInt64) (w : DB) : Result DB :=
  match d.sale with
  | none => .ok w
  | some s => do
    let (cursor, current) := d.lpod.tip
    failIf (s.hash ≠ cursor ∨ s.height ≠ current ∨ height > current)
      "sale: inconsistent rollback clock"
    d.restoreSaleFrom C target height (current.toNat - height.toNat) cursor current (some s) w

/-! ### Orders -/

end DB

/-- The forms of invoices and prices, and the identity of a provider's payment. -/
structure Merchant where
  /-- `SaleInvoice.Valid`. -/
  validInvoice : SaleInvoice → Bool
  validSalePrice : String → Bool
  saleProviderPayment : String → Hash32

namespace DB

variable (M : Merchant) (d : DB)

/-- `pendingSaleOrders`, in the order of some iteration over the queue. -/
def pendingSaleOrders (ids : List Hash32) : Result (List SaleOrder) := do
  failIf (ids.length > 4096) "sale: pending order bound or identity invalid"
  mapLoop (fun _ id => do
    let order ← d.saleOrder id
    match order with
    | none => fail "sale: orphan pending reservation"
    | some order => .ok order) 0 ids

/-- What is left of an allocation after the orders that are reserved. -/
def availableAfter (state : Sale.State) (pending : List SaleOrder) : Result UInt64 :=
  loop (fun _ (previous : SaleOrder) (available : UInt64) => do
    failIf (previous.checkpoint ≠ state.checkpoint ∨ previous.amount > available)
      "sale: inconsistent reserved allocation"
    .ok (available - previous.amount)) 0 pending state.remaining

/-- A repeated reservation must be the same. -/
def checkReservationRetry (order existing : SaleOrder) : Result Unit :=
  failIf (existing.recipient ≠ order.recipient ∨ existing.amount ≠ order.amount ∨
      existing.checkpoint ≠ order.checkpoint ∨ existing.quoteUSD ≠ order.quoteUSD)
    "sale: conflicting reservation retry"

/-- The checks of an order that asks for a reservation. -/
def checkReservation (order : SaleOrder) (network : UInt8) : Result Unit := do
  failIf (order.quoteUSD ≠ "" ∧ ¬ M.validSalePrice order.quoteUSD) "sale: invalid frozen quote"
  let known : Bool := match C.decodeAddress order.recipient with
    | .ok (actual, _) => decide (actual = network)
    | .error _ => false
  failIf (¬ known ∨ order.order = 0 ∨ order.payment ≠ 0 ∨ order.invoice.isSome ∨ order.amount = 0)
    "sale: invalid reservation"

/-- `ReserveSaleOrder`; `ids` is the queue. -/
def reserveSaleOrder (order : SaleOrder) (network : UInt8) (ids : List Hash32) : Result DB := do
  checkReservation C M order network
  match d.sale.filter (·.checkpoint = order.checkpoint) with
  | none => fail "sale: activated checkpoint unavailable"
  | some state => do
    failIf (d.lpod.tip ≠ (state.hash, state.height)) "sale: state does not match canonical tip"
    let existing ← d.saleOrder order.order
    match existing with
    | some existing => do
      checkReservationRetry order existing
      .ok d
    | none => do
      failIf (d.saleConsumed .order order.order) "sale: order already consumed"
      let pending ← d.pendingSaleOrders ids
      failIf (pending.length ≥ 4096) "sale: pending order capacity exceeded"
      let available ← availableAfter state pending
      failIf (order.amount > available) "sale: allocation is already reserved"
      .ok { d with
        orders := d.orders.set order.order order
        pending := d.pending.set order.order order.order }

def bindSaleInvoice (id : Hash32) (invoice : SaleInvoice) : Result DB := do
  failIf (¬ M.validInvoice invoice) "sale: invalid exact invoice"
  let order ← d.saleOrder id
  match order with
  | none => fail "sale: invoice has no reservation"
  | some order => do
    failIf (order.quoteUSD = "" ∨ invoice.priceUSD ≠ order.quoteUSD)
      "sale: invoice price does not match frozen quote"
    if order.invoice = some invoice then .ok d
    else do
      failIf order.invoice.isSome "sale: immutable invoice changed"
      failIf (order.payment ≠ 0) "sale: invoice binding after payment refused"
      let payment := M.saleProviderPayment invoice.providerID
      failIf (d.invoices.has payment) "sale: invoice already belongs to another order"
      failIf (d.saleConsumed .payment payment) "sale: invoice payment already consumed"
      failIf (d.orderPayments.has payment) "sale: payment identity already assigned"
      .ok { d with
        orders := d.orders.set id { order with invoice := some invoice }
        invoices := d.invoices.set payment id }

def markSaleOrderPaid (id payment : Hash32) : Result DB := do
  failIf (payment = 0) "sale: empty payment identity"
  let order ← d.saleOrder id
  match order with
  | none => fail "sale: unreserved paid order"
  | some order => do
    failIf (∃ i ∈ order.invoice, M.saleProviderPayment i.providerID ≠ payment)
      "sale: payment does not match bound invoice"
    failIf (∃ bound ∈ d.invoices.get payment, bound ≠ id)
      "sale: payment invoice belongs to another order"
    if order.payment = payment then .ok d
    else do
      failIf (order.payment ≠ 0) "sale: conflicting paid retry"
      failIf (d.orderPayments.has payment) "sale: payment belongs to another order"
      failIf (d.saleConsumed .payment payment) "sale: payment already consumed"
      .ok { d with
        orders := d.orders.set id { order with payment }
        orderPayments := d.orderPayments.set payment id }

end DB

end Aperod.Store
