import Aperod.Store.Equiv.SaleLedger

/-!
# Blocks and the order table of the operator

Orders, their queue, payments and invoices belong to the operator of a node; `DB.canonical` is the
database without them.  `prepareSaleBlock` does not read them.  The commit does: an order of the block
that is also in the table must have the checkpoint, the amount and the payment of the block, or the
commit is refused (`DB.OrdersFit`).

The proof compares a commit with the commit of the same block to `DB.canonical`: they go through the
same steps, and the only step that can fail on one side alone is the delivery of an order
(`accepts_iff`).  `acceptance_by_orders` compares two nodes.
-/

namespace Aperod.Store

open Go Sale Lpod DB

variable {C : Externals} {K : Lpod.Encodings} {o o' : RangeOrder} {d d' w w' e : DB} {b : Block}
  {hash checkpoint : Hash32} {height : UInt64} {txs : List Transaction} {tx : Transaction}
  {m : Option SaleMigration} {r : Option Lpod.Settlement}
variable {i k : Nat} {x : DB × List Hash32} {a : SaleAuthorization}

/-- What all nodes on the chain have in common: the database without the orders of the operator and
the journals, which name them. -/
def DB.canonical (d : DB) : DB :=
  { d with orders := ∅, pending := ∅, orderPayments := ∅, invoices := ∅, journals := ∅ }

/-- `PrepareSaleBlock`, and then the commit with what it returns. -/
def DB.Accepts (C : Externals) (K : Lpod.Encodings) (o o' : RangeOrder) (d : DB) (b : Block)
    (m : Option SaleMigration) (hash : Hash32) (height : UInt64) (r : Option Lpod.Settlement) : Prop :=
  ∃ sale e, d.prepareSaleBlock C K o b m = .ok sale ∧
    d.commitRawBlock C K o o' b hash height sale r = .ok e

/-- A reserved order that a sale delivers. -/
structure SaleOrder.Fits (order : SaleOrder) (checkpoint : Hash32) (a : SaleAuthorization) : Prop where
  order_eq : order.order = a.order
  amount_ne : order.amount ≠ 0
  checkpoint_eq : order.checkpoint = checkpoint
  amount_eq : order.amount.toNat = a.amount
  payment_eq : order.payment = a.payment

/-- The order of a transaction, if it is reserved, is the one the transaction delivers. -/
def DB.OrderFits (C : Externals) (d : DB) (checkpoint : Hash32) (tx : Transaction) : Prop :=
  ∀ a order, tx.saleAuthorization C = .ok a → d.orders.get a.order = some order →
    order.Fits checkpoint a

def DB.OrdersFit (C : Externals) (K : Lpod.Encodings) (o : RangeOrder) (d : DB) (b : Block)
    (m : Option SaleMigration) : Prop :=
  ∀ p, d.prepareSaleBlock C K o b m = .ok (some p) →
    ∀ tx ∈ saleTxs b, d.OrderFits C p.after.checkpoint tx

/-! ### One sale -/

theorem deliver_iff (w : DB) (queued : List Hash32) :
    (∃ order x, d.saleOrder a.order = .ok order ∧
      deliverOrder checkpoint a order (w, queued) = .ok x) ↔
      ∀ order, d.orders.get a.order = some order → order.Fits checkpoint a := by
  unfold saleOrder
  cases hget : d.orders.get a.order with
  | none => simp [deliverOrder]
  | some order =>
    constructor
    · rintro ⟨found, x, hfound, hx⟩ _ ⟨⟩
      obtain ⟨⟨⟩, hform, hfound⟩ := unbind hfound
      cases hfound
      obtain ⟨⟨⟩, hsame, -⟩ := unbind hx
      rw [failIf_eq_ok, not_or, not_not] at hform
      rw [failIf_eq_ok] at hsame
      simp only [not_or, not_not] at hsame
      exact ⟨hform.1, hform.2, hsame.1, hsame.2.1, hsame.2.2⟩
    · intro hfits
      have h := hfits order rfl
      refine ⟨some order, _, pass ?_ rfl, pass ?_ rfl⟩
      · simp [h.order_eq, h.amount_ne]
      · simp [h.checkpoint_eq, h.amount_eq, h.payment_eq]

variable {queued queued' : List Hash32} {sale : Option SaleSettlement}

theorem deliverOrder_canonical {order : Option SaleOrder}
    (h : deliverOrder checkpoint a order (w, queued) = .ok (w', queued')) :
    w'.canonical = w.canonical := by
  cases order with
  | none =>
    cases h
    rfl
  | some order =>
    replace h := past h
    cases h
    rfl

/-- A sale that is written to the batch is also written where no order is known. -/
theorem appendSale_canonical
    (h : d.appendSale C checkpoint hash height k tx (w, queued) = .ok (w', queued')) :
    d.canonical.appendSale C checkpoint hash height k tx (w.canonical, []) =
      .ok (w'.canonical, []) := by
  unfold appendSale at h ⊢
  split_ifs at h ⊢ with hsale
  · obtain ⟨a, ha, h⟩ := unbind h
    obtain ⟨order, -, h⟩ := unbind h
    obtain ⟨⟨w1, queued1⟩, hdeliver, h⟩ := unbind h
    cases h
    have hw1 := deliverOrder_canonical hdeliver
    refine bind_ok ha (bind_eq_ok.mpr ⟨none, rfl, bind_eq_ok.mpr ⟨_, rfl, ?_⟩⟩)
    rw [← hw1]
    rfl
  · cases h
    rfl

/-- Where it is written without orders, it is written if its order fits, and only then. -/
theorem appendSale_iff (queued : List Hash32)
    (hplain : d.canonical.appendSale C checkpoint hash height k tx (w.canonical, []) = .ok x) :
    (∃ y, d.appendSale C checkpoint hash height k tx (w, queued) = .ok y) ↔
      (tx.isSale = true → d.OrderFits C checkpoint tx) := by
  unfold appendSale at hplain ⊢
  split_ifs at hplain ⊢ with hsale
  · obtain ⟨a, ha, -⟩ := unbind hplain
    have hfits : d.OrderFits C checkpoint tx ↔
        ∀ order, d.orders.get a.order = some order → order.Fits checkpoint a := by
      constructor
      · exact fun h order => h a order ha
      · intro h a' order ha'
        rw [ha] at ha'
        cases ha'
        exact h order
    rw [imp_iff_right hsale, hfits, ← deliver_iff w queued]
    constructor
    · rintro ⟨y, hy⟩
      obtain ⟨a', ha', hy⟩ := unbind hy
      rw [ha] at ha'
      cases ha'
      obtain ⟨order, horder, hy⟩ := unbind hy
      obtain ⟨z, hz, -⟩ := unbind hy
      exact ⟨order, z, horder, hz⟩
    · rintro ⟨order, z, horder, hz⟩
      exact ⟨_, bind_ok ha <| bind_ok horder <| bind_ok hz rfl⟩
  · simp [hsale]

/-! ### The sales of a block -/

theorem appendSales_canonical
    (h : loop (d.appendSale C checkpoint hash height) i txs (w, queued) = .ok (w', queued')) :
    loop (d.canonical.appendSale C checkpoint hash height) i txs (w.canonical, []) =
      .ok (w'.canonical, []) := by
  induction txs generalizing i w queued with
  | nil =>
    cases h
    rfl
  | cons tx txs ih =>
    obtain ⟨⟨w1, queued1⟩, hhead, htail⟩ := loop_cons_eq_ok.mp h
    exact loop_cons_eq_ok.mpr ⟨_, appendSale_canonical hhead, ih htail⟩

theorem appendSales_iff (queued : List Hash32)
    (hplain : loop (d.canonical.appendSale C checkpoint hash height) i txs (w.canonical, []) = .ok x) :
    (∃ y, loop (d.appendSale C checkpoint hash height) i txs (w, queued) = .ok y) ↔
      ∀ tx ∈ txs, tx.isSale = true → d.OrderFits C checkpoint tx := by
  induction txs generalizing i w queued with
  | nil => simp
  | cons tx txs ih =>
    obtain ⟨x1, hhead, htail⟩ := loop_cons_eq_ok.mp hplain
    rw [List.forall_mem_cons, ← appendSale_iff queued hhead]
    -- the head, once it is written, leaves the canonical batch of the other loop
    have hnext : ∀ w1 queued1, d.appendSale C checkpoint hash height i tx (w, queued) =
        .ok (w1, queued1) → x1 = (w1.canonical, []) := by
      intro w1 queued1 hw1
      rw [appendSale_canonical hw1] at hhead
      exact (Except.ok.inj hhead).symm
    constructor
    · rintro ⟨y, hy⟩
      obtain ⟨⟨w1, queued1⟩, hw1, hrest⟩ := loop_cons_eq_ok.mp hy
      rw [hnext w1 queued1 hw1] at htail
      exact ⟨⟨_, hw1⟩, (ih queued1 htail).mp ⟨y, hrest⟩⟩
    · rintro ⟨⟨⟨w1, queued1⟩, hw1⟩, hfits⟩
      rw [hnext w1 queued1 hw1] at htail
      obtain ⟨y, hy⟩ := (ih queued1 htail).mpr hfits
      exact ⟨y, loop_cons_eq_ok.mpr ⟨_, hw1, hy⟩⟩

/-! ### A commit -/

/-- The settlement of a block, prepared on the same database, with and without orders. -/
theorem appendSaleSettlement_canonical
    (h : d.appendSaleSettlement C K o b hash height sale d = .ok w) :
    ∃ w0, d.canonical.appendSaleSettlement C K o b hash height sale d.canonical = .ok w0 ∧
      w0.canonical = w.canonical := by
  cases sale with
  | none =>
    obtain ⟨⟨⟩, hcheck, h⟩ := unbind h
    cases h
    exact ⟨_, pass hcheck rfl, rfl⟩
  | some p =>
    obtain ⟨⟨⟩, hcontext, h⟩ := unbind h
    obtain ⟨actual, hactual, h⟩ := unbind h
    cases actual with
    | none => cases h
    | some actual =>
      obtain ⟨⟨⟩, hafter, h⟩ := unbind h
      obtain ⟨⟨w1, queued⟩, hloop, h⟩ := unbind h
      cases h
      exact ⟨_, pass hcontext <| bind_ok hactual <|
        pass hafter <| bind_ok (appendSales_canonical hloop) rfl, rfl⟩

theorem appendSaleSettlement_iff {w0 : DB} (hsale : d.prepareSaleBlock C K o b m = .ok sale)
    (hplain : d.canonical.appendSaleSettlement C K o b hash height sale d.canonical = .ok w0) :
    (∃ w, d.appendSaleSettlement C K o b hash height sale d = .ok w) ↔ d.OrdersFit C K o b m := by
  cases sale with
  | none =>
    obtain ⟨⟨⟩, hcheck, -⟩ := unbind hplain
    refine iff_of_true ⟨_, pass hcheck rfl⟩ ?_
    intro p hp
    rw [hsale] at hp
    cases hp
  | some p =>
    obtain ⟨⟨⟩, hcontext, hplain⟩ := unbind hplain
    obtain ⟨actual, hactual, hplain⟩ := unbind hplain
    cases actual with
    | none => cases hplain
    | some actual =>
      obtain ⟨⟨⟩, hafter, hplain⟩ := unbind hplain
      obtain ⟨x, hloop, -⟩ := unbind hplain
      have hsame : actual.after = p.after := by
        rw [failIf_eq_ok, not_not] at hafter
        exact hafter
      have hfit : d.OrdersFit C K o b m ↔
          ∀ tx ∈ b.txs, tx.isSale = true → d.OrderFits C actual.after.checkpoint tx := by
        rw [hsame]
        constructor
        · exact fun h tx htx hs => h p hsale tx (List.mem_filter.mpr ⟨htx, hs⟩)
        · intro h p' hp' tx htx
          rw [hsale] at hp'
          cases hp'
          exact h tx (List.mem_filter.mp htx).1 (List.mem_filter.mp htx).2
      rw [hfit, ← appendSales_iff [] hloop]
      constructor
      · rintro ⟨w, h⟩
        replace h := past h
        obtain ⟨actual', hactual', h⟩ := unbind h
        have heq : some actual = actual' := Except.ok.inj (hactual.symm.trans hactual')
        subst heq
        replace h := past h
        obtain ⟨y, hy, -⟩ := unbind h
        exact ⟨y, hy⟩
      · rintro ⟨y, hy⟩
        exact ⟨_, pass hcontext <| bind_ok hactual <|
          pass hafter <| bind_ok hy rfl⟩

theorem records_of_canonical (h : w.canonical = w'.canonical) : w.records = w'.records := by
  show w.canonical.records = w'.canonical.records
  rw [h]

theorem recordActivation_canonical {loaded : Option Lpod.Checkpoint}
    (h : w.canonical = w'.canonical) :
    (recordActivation height r loaded w).canonical =
      (recordActivation height r loaded w').canonical := by
  have hcommute : ∀ x : DB, (recordActivation height r loaded x).canonical =
      recordActivation height r loaded x.canonical := by
    intro x
    unfold recordActivation
    split <;> rfl
  rw [hcommute, hcommute, h]

/-- A commit that succeeds does so without orders, and leaves the same canonical state. -/
theorem commit_canonical (h : d.commitRawBlock C K o o' b hash height sale r = .ok e) :
    ∃ e0, d.canonical.commitRawBlock C K o o' b hash height sale r = .ok e0 ∧
      e0.canonical = e.canonical := by
  obtain ⟨hvalid, hfunding, w, loaded, l, records, keyImages, hw, hloaded, hl, hrecords, himages,
    rfl⟩ := commitRawBlock_eq_ok.mp h
  obtain ⟨w0, hw0, hsame⟩ := appendSaleSettlement_canonical hw
  have hrecords0 : indexBlock C b r w0.records = .ok records := by
    rw [records_of_canonical hsame]
    exact hrecords
  refine ⟨_, commitRawBlock_eq_ok.mpr ⟨hvalid, hfunding, w0, loaded, l, records, keyImages, hw0,
    hloaded, hl, hrecords0, himages, rfl⟩, recordActivation_canonical ?_⟩
  -- both batches get the same LPoD data and records
  exact congrArg (fun x : DB => ({ x with
    lpod := { l with
      blocks := l.blocks.set hash b
      heights := l.heights.set height hash
      tip := (hash, height) }
    records := { records with keyImages } } : DB)) hsame

/-- Where a commit succeeds without orders, it succeeds if the orders fit, and only then. -/
theorem commit_iff {e0 : DB} (hsale : d.prepareSaleBlock C K o b m = .ok sale)
    (hplain : d.canonical.commitRawBlock C K o o' b hash height sale r = .ok e0) :
    (∃ e, d.commitRawBlock C K o o' b hash height sale r = .ok e) ↔ d.OrdersFit C K o b m := by
  obtain ⟨hvalid, hfunding, w0, loaded, l, records, keyImages, hw0, hloaded, hl, hrecords, himages,
    -⟩ := commitRawBlock_eq_ok.mp hplain
  rw [← appendSaleSettlement_iff hsale hw0]
  constructor
  · rintro ⟨e, he⟩
    obtain ⟨-, -, w, -, -, -, -, hw, -⟩ := commitRawBlock_eq_ok.mp he
    exact ⟨w, hw⟩
  · rintro ⟨w, hw⟩
    obtain ⟨w1, hw1, hsame⟩ := appendSaleSettlement_canonical hw
    rw [hw0] at hw1
    cases hw1
    have hrecords' : indexBlock C b r w.records = .ok records := by
      rw [← records_of_canonical hsame]
      exact hrecords
    exact ⟨_, commitRawBlock_eq_ok.mpr ⟨hvalid, hfunding, w, loaded, l, records, keyImages, hw,
      hloaded, hl, hrecords', himages, rfl⟩⟩

/-! ### Two nodes -/

theorem accepts_iff : d.Accepts C K o o' b m hash height r ↔
    d.canonical.Accepts C K o o' b m hash height r ∧ d.OrdersFit C K o b m := by
  constructor
  · rintro ⟨sale, e, hsale, he⟩
    obtain ⟨e0, he0, -⟩ := commit_canonical he
    exact ⟨⟨sale, e0, hsale, he0⟩, (commit_iff hsale he0).mp ⟨e, he⟩⟩
  · rintro ⟨⟨sale, e0, hsale, he0⟩, hfit⟩
    obtain ⟨e, he⟩ := (commit_iff (d := d) hsale he0).mpr hfit
    exact ⟨sale, e, hsale, he⟩

/-- **Acceptance and the order table.**  Two nodes with the same canonical state agree about a block
if and only if, should the block be good without orders, both tables fit it or both do not.  If both
commit it, their canonical states are the same again. -/
theorem acceptance_by_orders (hsame : d.canonical = d'.canonical) :
    ((d.Accepts C K o o' b m hash height r ↔ d'.Accepts C K o o' b m hash height r) ↔
      (d.canonical.Accepts C K o o' b m hash height r →
        (d.OrdersFit C K o b m ↔ d'.OrdersFit C K o b m))) ∧
    ∀ sale e e', d.commitRawBlock C K o o' b hash height sale r = .ok e →
      d'.commitRawBlock C K o o' b hash height sale r = .ok e' → e.canonical = e'.canonical := by
  constructor
  · rw [accepts_iff, accepts_iff (d := d'), ← hsame]
    tauto
  · intro sale e e' he he'
    obtain ⟨e0, he0, heq⟩ := commit_canonical he
    obtain ⟨e1, he1, heq'⟩ := commit_canonical he'
    rw [← hsame, he0] at he1
    cases he1
    rw [← heq, heq']

theorem step_canonical {M : Merchant} {e : Event} (hblock : e.block = none)
    (h : Step C K M d e d') : d'.canonical = d.canonical := by
  cases e with
  | commit e => cases hblock
  | reserve order network ids =>
    obtain rfl | ⟨-, -, rfl⟩ := reserveSaleOrder_spec h <;> rfl
  | bind id invoice =>
    obtain rfl | ⟨order, -, heq⟩ := bindSaleInvoice_spec h
    · rfl
    · rw [heq]
      rfl
  | pay id payment =>
    obtain rfl | ⟨order, -, heq⟩ := markSaleOrderPaid_spec h
    · rfl
    · rw [heq]
      rfl

/-! ### Nodes on the transparent chain -/

/-- An order of 100 on the checkpoint of the sale. -/
def sampleOrder (checkpoint : Hash32) : SaleOrder where
  order := 7
  checkpoint
  recipient := ""
  amount := 100

/-- The chain with its first sale; the same after the order is reserved and after it is paid; and
block 3, which delivers the order. -/
structure OrderNodes where
  migration : SaleMigration
  plain : DB
  reserved : DB
  paid : DB
  next : Extended

def DB.orderSettlement (d : DB) : Lpod.Settlement :=
  saleSettlement d.lpod.tip.1 4 [saleTx 3 d.lpod.tip.1 7 8 100 10]

def orderNodes : Result OrderNodes := do
  let (m, d) ← openedDB
  let reserved ← d.reserveSaleOrder lpodHashing sampleMerchant
    (sampleOrder (d.sale.elim 0 (·.checkpoint))) 0 []
  let paid ← reserved.markSaleOrderPaid sampleMerchant 7 8
  let x ← d.extend Lpod.lpodHashing saleEncodings d.orderSettlement (some m)
  .ok ⟨m, d, reserved, paid, x⟩

def OrderNodes.commit (x : OrderNodes) (d : DB) : Result DB :=
  d.commitRawBlock lpodHashing saleEncodings .sorted .sorted x.next.block
    (x.next.block.hash lpodHashing) (x.plain.lpod.tip.2 + 1) x.next.sale
    (some x.plain.orderSettlement)

/-- Block 3 is accepted by a node. -/
abbrev OrderNodes.Accepted (x : OrderNodes) (d : DB) : Prop :=
  d.Accepts lpodHashing saleEncodings .sorted .sorted x.next.block (some x.migration)
    (x.next.block.hash lpodHashing) (x.plain.lpod.tip.2 + 1) (some x.plain.orderSettlement)

/-- The three nodes are reached by runs from the same chain, and have the same canonical state.  The
node without the order accepts block 3; any other accepts it if it commits it. -/
theorem orderNodes_spec {x : OrderNodes} (h : orderNodes = .ok x) :
    (∃ evs, Run (Step lpodHashing saleEncodings sampleMerchant) saleDB evs x.plain) ∧
    (∃ evs, Run (Step lpodHashing saleEncodings sampleMerchant) saleDB evs x.reserved) ∧
    (∃ evs, Run (Step lpodHashing saleEncodings sampleMerchant) saleDB evs x.paid) ∧
    x.plain.canonical = x.reserved.canonical ∧ x.plain.canonical = x.paid.canonical ∧
    x.Accepted x.plain ∧
    ∀ d, d.canonical = x.plain.canonical → (x.Accepted d ↔ ∃ e, x.commit d = .ok e) := by
  obtain ⟨⟨m, d⟩, hopened, h⟩ := unbind h
  obtain ⟨reserved, hreserved, h⟩ := unbind h
  obtain ⟨paid, hpaid, h⟩ := unbind h
  obtain ⟨y, hy, h⟩ := unbind h
  have hx := Except.ok.inj h
  subst hx
  obtain ⟨e1, e2, hrun⟩ := openedDB_run hopened
  have hreserve : Step lpodHashing saleEncodings sampleMerchant d (.reserve _ _ _) reserved :=
    hreserved
  have hpay : Step lpodHashing saleEncodings sampleMerchant reserved (.pay _ _) paid := hpaid
  have hsame := step_canonical rfl hreserve
  obtain ⟨b, -, hy⟩ := unbind hy
  obtain ⟨sale, hsale, hy⟩ := unbind hy
  obtain ⟨e, he, hy⟩ := unbind hy
  have hy := Except.ok.inj hy
  subst hy
  refine ⟨⟨_, hrun⟩, ⟨_, hrun.append (.cons hreserve (.nil _))⟩,
    ⟨_, hrun.append (.cons hreserve (.cons hpay (.nil _)))⟩, hsame.symm,
    ((step_canonical rfl hpay).trans hsame).symm, ⟨sale, e, hsale, he⟩, ?_⟩
  intro d' hd'
  -- the preparation reads canonical data only
  have hprepared : d'.prepareSaleBlock lpodHashing saleEncodings .sorted b (some m) = .ok sale := by
    show d'.canonical.prepareSaleBlock lpodHashing saleEncodings .sorted b (some m) = .ok sale
    rw [hd']
    exact hsale
  constructor
  · rintro ⟨sale', e', hsale', he'⟩
    rw [hprepared] at hsale'
    cases hsale'
    exact ⟨e', he'⟩
  · rintro ⟨e', he'⟩
    exact ⟨sale, e', hprepared, he'⟩

theorem orderNodes_commits : ∃ x, orderNodes = .ok x ∧ (x.commit x.paid).isOk = true ∧
    (x.commit x.reserved).isOk = false ∧ x.plain.orders.has 7 = false ∧ x.paid.orders.has 7 = true :=
  exists_ok_of_test (by decide +kernel)

/-- A node without the order and one where it is paid agree about block 3. -/
theorem paid_order_is_delivered : ∃ x, orderNodes = .ok x ∧ x.plain.orders.has 7 = false ∧
    x.paid.orders.has 7 = true ∧ x.plain.canonical = x.paid.canonical ∧ x.Accepted x.plain ∧
    x.Accepted x.paid ∧
    (x.plain.OrdersFit lpodHashing saleEncodings .sorted x.next.block (some x.migration) ↔
      x.paid.OrdersFit lpodHashing saleEncodings .sorted x.next.block (some x.migration)) := by
  obtain ⟨x, hx, hcommit, -, hplain, hpaid⟩ := orderNodes_commits
  obtain ⟨-, -, -, -, hsame, haccepted, hiff⟩ := orderNodes_spec hx
  have hpaidAccepted : x.Accepted x.paid := by
    rw [hiff x.paid hsame.symm]
    cases hresult : x.commit x.paid with
    | ok e => exact ⟨e, rfl⟩
    | error err =>
      rw [hresult] at hcommit
      cases hcommit
  refine ⟨x, hx, hplain, hpaid, hsame, haccepted, hpaidAccepted, ?_⟩
  exact (acceptance_by_orders hsame).1.mp (iff_of_true haccepted hpaidAccepted)
    (accepts_iff.mp haccepted).1

/-- A node where the order is reserved and not marked as paid refuses block 3, which the node without
the order accepts. -/
theorem reserved_order_refuses_block : ∃ x evs evs', orderNodes = .ok x ∧
    Run (Step lpodHashing saleEncodings sampleMerchant) saleDB evs x.plain ∧
    Run (Step lpodHashing saleEncodings sampleMerchant) saleDB evs' x.reserved ∧
    x.plain.canonical = x.reserved.canonical ∧ x.Accepted x.plain ∧ ¬ x.Accepted x.reserved := by
  obtain ⟨x, hx, -, hrefused, -⟩ := orderNodes_commits
  obtain ⟨⟨evs, hrun⟩, ⟨evs', hrun'⟩, -, hsame, -, haccepted, hiff⟩ := orderNodes_spec hx
  refine ⟨x, evs, evs', hx, hrun, hrun', hsame, haccepted, ?_⟩
  rw [hiff x.reserved hsame.symm]
  rintro ⟨e, he⟩
  rw [he] at hrefused
  cases hrefused

end Aperod.Store
