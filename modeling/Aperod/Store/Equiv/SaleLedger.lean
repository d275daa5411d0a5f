import Aperod.Go.Overwrite
import Aperod.Store.Transparent

/-!
# The sale ledger never oversells

An order and a payment are kept from being used twice by three things: a list inside the block, a
fence in the database for the blocks before, and the ledger, which has the amounts.  What one block
does to them is said once (`State.advance_spec` for the ledger, `SaleCommit` for the database);
`sale_never_oversells` follows for every run.
-/

namespace Aperod.Sale

open Go List

variable {C : Externals} {s s' : State} {c : Checkpoint} {l l' : Ledger} {height : UInt64}
  {parent hash : Hash32} {txs : List Transaction} {consumed : FenceKind → Hash32 → Bool}

/-! ### One block -/

abbrev Authorized (C : Externals) (txs : List Transaction) (auths : List SaleAuthorization) : Prop :=
  List.Forall₂ (fun tx a => tx.saleAuthorization C = .ok a) txs auths

theorem Authorized.unique {auths auths' : List SaleAuthorization} (h : Authorized C txs auths)
    (h' : Authorized C txs auths') : auths = auths' :=
  right_unique_forall₂' (fun _ _ _ ha hb => Except.ok.inj (ha.symm.trans hb)) h h'

/-- What authorizations sell together. -/
def totalAmount (auths : List SaleAuthorization) : Nat := (auths.map (·.amount)).sum

theorem Ledger.sell_spec {tx : Transaction} (h : Ledger.sell C height parent tx l = .ok l') :
    ∃ a, tx.saleAuthorization C = .ok a ∧ a.order ∉ l.seen ∧ a.payment ∉ l.paid ∧
      l'.remaining.toNat + a.amount = l.remaining.toNat ∧
      l'.sold.toNat = l.sold.toNat + a.amount ∧
      l'.seen = a.order :: l.seen ∧ l'.paid = a.payment :: l.paid := by
  obtain ⟨a, ha, h⟩ := unbind h
  replace h := past h
  obtain ⟨⟨⟩, hseen, h⟩ := unbind h
  obtain ⟨⟨⟩, hpaid, h⟩ := unbind h
  obtain ⟨⟨⟩, hroom, h⟩ := unbind h
  cases h
  rw [failIf_eq_ok] at hseen hpaid hroom
  rw [not_or, not_lt, toNat_uint64Max_sub] at hroom
  have hlt := l.remaining.toNat_lt
  have hsold := l.sold.toNat_lt
  have hamount : (UInt64.ofNat a.amount).toNat = a.amount :=
    UInt64.toNat_ofNat_of_lt' (hroom.1.trans_lt hlt)
  refine ⟨a, ha, hseen, hpaid, ?_, ?_, rfl, rfl⟩
  · show (l.remaining - UInt64.ofNat a.amount).toNat + a.amount = l.remaining.toNat
    rw [UInt64.toNat_sub_of_le]
    · omega
    · rw [UInt64.le_iff_toNat_le, hamount]
      exact hroom.1
  · show (l.sold + UInt64.ofNat a.amount).toNat = l.sold.toNat + a.amount
    rw [UInt64.toNat_add]
    omega

theorem Ledger.sells_spec (hseen : l.seen = []) (hpaid : l.paid = [])
    (h : loop (fun _ => Ledger.sell C height parent) 0 txs l = .ok l') :
    ∃ auths, Authorized C txs auths ∧ (auths.map (·.order)).Nodup ∧ (auths.map (·.payment)).Nodup ∧
      l'.remaining.toNat + totalAmount auths = l.remaining.toNat ∧
      l'.sold.toNat = l.sold.toNat + totalAmount auths := by
  -- the ledger has the orders and payments of the transactions so far, the last one first
  have hloop := loop_past
    (fun past m => ∃ auths, Authorized C past auths ∧ (auths.map (·.order)).Nodup ∧
      (auths.map (·.payment)).Nodup ∧ m.remaining.toNat + totalAmount auths = l.remaining.toNat ∧
      m.sold.toNat = l.sold.toNat + totalAmount auths ∧
      m.seen = (auths.map (·.order)).reverse ∧ m.paid = (auths.map (·.payment)).reverse) ?_ h
    ⟨[], .nil, .nil, .nil, rfl, rfl, hseen, hpaid⟩
  · obtain ⟨auths, hauths, horders, hpayments, hremaining, hsold, -⟩ := hloop
    exact ⟨auths, hauths, horders, hpayments, hremaining, hsold⟩
  · rintro past k tx m m' - ⟨auths, hauths, horders, hpayments, hremaining, hsold, hs, hp⟩ hstep
    obtain ⟨a, ha, hnew, hunpaid, hrem, hsol, hs', hp'⟩ := Ledger.sell_spec hstep
    rw [hs, mem_reverse] at hnew
    rw [hp, mem_reverse] at hunpaid
    have htotal : totalAmount (auths ++ [a]) = totalAmount auths + a.amount := by
      simp [totalAmount]
    refine ⟨auths ++ [a], rel_append hauths (.cons ha .nil), ?_, ?_, ?_, ?_, ?_, ?_⟩
    · rw [map_append]
      exact concat_eq_append ▸ horders.concat hnew
    · rw [map_append]
      exact concat_eq_append ▸ hpayments.concat hunpaid
    · rw [htotal]
      omega
    · rw [htotal]
      omega
    · rw [hs', hs]
      simp
    · rw [hp', hp]
      simp

structure Advanced (C : Externals) (s : State) (c : Checkpoint) (height : UInt64)
    (parent hash : Hash32) (consumed : FenceKind → Hash32 → Bool) (txs : List Transaction)
    (auths : List SaleAuthorization) (s' : State) : Prop where
  authorized : Authorized C txs auths
  orders_nodup : (auths.map (·.order)).Nodup
  payments_nodup : (auths.map (·.payment)).Nodup
  order_fresh : ∀ a ∈ auths, consumed .order a.order = false
  payment_fresh : ∀ a ∈ auths, consumed .payment a.payment = false
  height_succ : s.height + 1 = height
  parent_eq : s.hash = parent
  height_eq : s'.height = height
  hash_eq : s'.hash = hash
  /-- Before and after the block the ledger has all of the allocation. -/
  budget_before : s.remaining.toNat + s.sold.toNat = c.saleRemaining.toNat
  budget : s'.remaining.toNat + s'.sold.toNat = c.saleRemaining.toNat
  sold_eq : s'.sold.toNat = s.sold.toNat + totalAmount auths

theorem State.advance_spec (h : s.advance C c height parent hash txs consumed = .ok s') :
    ∃ auths, Advanced C s c height parent hash consumed txs auths s' := by
  obtain ⟨⟨⟩, hcontext, h⟩ := unbind h
  obtain ⟨⟨⟩, hfences, h⟩ := unbind h
  obtain ⟨next, hnext, h⟩ := unbind h
  cases h
  replace hnext := past hnext
  rw [failIf_eq_ok] at hcontext
  simp only [not_or, not_not] at hcontext
  obtain ⟨-, hheight, -, hparent, -, -, hle, hsold⟩ := hcontext
  have hle := UInt64.not_lt.mp hle
  obtain ⟨auths, hauths, horders, hpayments, hremaining, hsum⟩ := Ledger.sells_spec rfl rfl hnext
  have hbefore : s.remaining.toNat + s.sold.toNat = c.saleRemaining.toNat := by
    rw [hsold, UInt64.toNat_sub_of_le _ _ hle]
    have hle' := UInt64.le_iff_toNat_le.mp hle
    omega
  have hfresh : ∀ a ∈ auths,
      consumed .order a.order = false ∧ consumed .payment a.payment = false := by
    intro a ha
    obtain ⟨tx, htx, hauth⟩ := exists_left_of_forall₂ hauths ha
    obtain ⟨k, hcheck⟩ := checkAll_mem hfences htx
    obtain ⟨a', ha', hcheck⟩ := unbind hcheck
    rw [hauth] at ha'
    cases ha'
    obtain ⟨⟨⟩, horder, hpayment⟩ := unbind hcheck
    rw [failIf_eq_ok, Bool.not_eq_true] at horder hpayment
    exact ⟨horder, hpayment⟩
  refine ⟨auths, hauths, horders, hpayments, fun a ha => (hfresh a ha).1,
    fun a ha => (hfresh a ha).2, hheight, hparent, rfl, rfl, hbefore, ?_, hsum⟩
  show next.remaining.toNat + next.sold.toNat = c.saleRemaining.toNat
  have hremaining' : next.remaining.toNat + totalAmount auths = s.remaining.toNat := hremaining
  have hsum' : next.sold.toNat = s.sold.toNat + totalAmount auths := hsum
  omega

end Aperod.Sale

namespace Aperod.Store

open Go Sale List

variable {C : Externals} {K : Lpod.Encodings} {M : Merchant} {o o' : RangeOrder} {d d' w w' : DB}
  {b : Block} {hash : Hash32} {height : UInt64} {txs : List Transaction}
variable {e : Commit} {start : Sale.State} {queued' : List Hash32} {a : SaleAuthorization}
  {m : Option SaleMigration}

/-! ### What a block does to the database -/

def fenceKeys (auths : List SaleAuthorization) : List (FenceKind × Hash32) :=
  auths.flatMap fun a => [(.order, a.order), (.payment, a.payment)]

variable {auths : List SaleAuthorization} {tx : Transaction} {checkpoint : Hash32}
  {queued : List Hash32} {p : SaleSettlement} {es : List Event} {allocation : Nat}

theorem mem_fenceKeys {k : FenceKind × Hash32} :
    k ∈ fenceKeys auths ↔ ∃ a ∈ auths, k = (.order, a.order) ∨ k = (.payment, a.payment) := by
  simp [fenceKeys]

theorem saleAuthorization_payment (h : tx.saleAuthorization C = .ok a) :
    a.payment ≠ 0 := by
  replace h := past h
  obtain ⟨⟨⟩, hfields, h⟩ := unbind h
  obtain ⟨out, -, h⟩ := unbind h
  replace h := past h
  replace h := past h
  cases h
  rw [failIf_eq_ok] at hfields
  simp only [not_or] at hfields
  exact hfields.2.2.2.2.2

/-- The orders of some authorizations that were reserved. -/
def queuedOrders (d : DB) (auths : List SaleAuthorization) : List Hash32 :=
  (auths.map (·.order)).filter fun id => d.orders.has id

/-- What the sale transactions among `txs` write. -/
structure Delivered (C : Externals) (d : DB) (hash : Hash32) (height : UInt64)
    (txs : List Transaction) (auths : List SaleAuthorization) (w w' : DB) : Prop where
  authorized : Authorized C (txs.filter (·.isSale)) auths
  /-- Every order that leaves the queue is paid. -/
  paid : ∀ id ∈ queuedOrders d auths, ∃ order, d.saleOrder id = .ok (some order) ∧ order.payment ≠ 0
  writes : w' = { w with
    fences := (fenceKeys auths).foldl (fun m k => m.set k hash) w.fences
    pending := (queuedOrders d auths).foldl (fun m id => m.del id) w.pending
    txLocations := w'.txLocations
    records := ((txs.filter (·.isSale)).flatMap (storedOutputs C height)).foldl Records.putOutput
      w.records }

theorem Delivered.nil (w : DB) : Delivered C d hash height [] [] w w :=
  ⟨.nil, fun _ h => absurd h not_mem_nil, rfl⟩

theorem deliverOrder_spec {order : Option SaleOrder}
    (ha : tx.saleAuthorization C = .ok a) (horder : d.saleOrder a.order = .ok order)
    (h : DB.deliverOrder checkpoint a order (w, queued) = .ok (w', queued')) :
    (∀ id ∈ queuedOrders d [a], ∃ order, d.saleOrder id = .ok (some order) ∧ order.payment ≠ 0) ∧
      w' = { w with pending := (queuedOrders d [a]).foldl (fun m id => m.del id) w.pending } ∧
      queued' = queued ++ queuedOrders d [a] := by
  unfold DB.saleOrder at horder
  cases hget : d.orders.get a.order with
  | none =>
    have hnone : queuedOrders d [a] = [] := by
      simp [queuedOrders, GoMap.has, hget]
    rw [hget] at horder
    cases horder
    cases h
    rw [hnone]
    exact ⟨fun _ hid => absurd hid not_mem_nil, rfl, (append_nil _).symm⟩
  | some stored =>
    have hone : queuedOrders d [a] = [a.order] := by
      simp [queuedOrders, GoMap.has, hget]
    rw [hget] at horder
    obtain ⟨⟨⟩, hcheck, horder⟩ := unbind horder
    cases horder
    obtain ⟨⟨⟩, hsame, h⟩ := unbind h
    cases h
    rw [hone]
    refine ⟨fun id hid => ?_, rfl, rfl⟩
    rw [mem_singleton.mp hid]
    refine ⟨stored, ?_, ?_⟩
    · unfold DB.saleOrder
      rw [hget]
      exact pass hcheck rfl
    · rw [failIf_eq_ok] at hsame
      simp only [not_or, not_not] at hsame
      rw [hsame.2.2]
      exact saleAuthorization_payment ha

theorem queuedOrders_append (d : DB) (auths auths' : List SaleAuthorization) :
    queuedOrders d (auths ++ auths') = queuedOrders d auths ++ queuedOrders d auths' := by
  simp [queuedOrders]

theorem Delivered.append {k : Nat} {w1 : DB}
    (h : Delivered C d hash height txs auths w w1) (hqueued : queued = queuedOrders d auths)
    (hstep : d.appendSale C checkpoint hash height k tx (w1, queued) = .ok (w', queued')) :
    ∃ auths', Delivered C d hash height (txs ++ [tx]) auths' w w' ∧
      queued' = queuedOrders d auths' := by
  unfold DB.appendSale at hstep
  split_ifs at hstep with hsale
  · obtain ⟨a, ha, hstep⟩ := unbind hstep
    obtain ⟨order, horder, hstep⟩ := unbind hstep
    obtain ⟨⟨w2, queued2⟩, hdeliver, hstep⟩ := unbind hstep
    cases hstep
    obtain ⟨hpaid, rfl, rfl⟩ := deliverOrder_spec ha horder hdeliver
    have hfilter : (txs ++ [tx]).filter (·.isSale) = txs.filter (·.isSale) ++ [tx] := by
      simp [hsale]
    refine ⟨auths ++ [a], ⟨?_, ?_, ?_⟩, ?_⟩
    · rw [hfilter]
      exact rel_append h.authorized (.cons ha .nil)
    · rw [queuedOrders_append]
      intro id hid
      rcases mem_append.mp hid with hid | hid
      · exact h.paid id hid
      · exact hpaid id hid
    · rw [queuedOrders_append, fenceKeys, flatMap_append, hfilter, foldl_append, foldl_append,
        flatMap_append, foldl_append, h.writes]
      simp [fenceKeys]
    · rw [queuedOrders_append, hqueued]
  · cases hstep
    have hfilter : (txs ++ [tx]).filter (·.isSale) = txs.filter (·.isSale) := by
      simp [hsale]
    refine ⟨auths, ⟨?_, h.paid, ?_⟩, hqueued⟩
    · rw [hfilter]
      exact h.authorized
    · rw [hfilter]
      exact h.writes

theorem appendSales_spec
    (h : loop (d.appendSale C checkpoint hash height) 0 txs (w, []) = .ok (w', queued)) :
    ∃ auths, Delivered C d hash height txs auths w w' ∧ queued = queuedOrders d auths := by
  refine loop_past (fun past (p : DB × List Hash32) =>
    ∃ auths, Delivered C d hash height past auths w p.1 ∧ p.2 = queuedOrders d auths) ?_ h
    ⟨[], .nil w, rfl⟩
  rintro past k tx ⟨w1, queued1⟩ ⟨w2, queued2⟩ - ⟨auths, hdelivered, hqueued⟩ hstep
  exact hdelivered.append hqueued hstep

/-- A settled block: the ledger `start` it begins with, the checkpoint `c` it is sold under, and what
is written to the batch `w`. -/
structure SaleCommit (C : Externals) (d : DB) (b : Block) (hash : Hash32) (height : UInt64)
    (p : SaleSettlement) (c : Sale.Checkpoint) (start : Sale.State)
    (auths : List SaleAuthorization) (w w' : DB) : Prop where
  migration : p.migration.map (·.checkpoint) = some c
  hash_eq : b.hash C = hash
  height_eq : b.header.height = height.toNat
  tip_hash : d.lpod.tip.1 = b.header.prevHash
  tip_height : d.lpod.tip.2 + 1 = height
  start_eq : d.sale = some start ∨ d.sale = none ∧ start = initialState C c
  advanced : Advanced C start c height b.header.prevHash hash d.saleConsumed (saleTxs b) auths p.after
  writes : ∃ w1, Delivered C d hash height b.txs auths w w1 ∧ w' = { w1 with
    sale := some p.after
    journals := w1.journals.set hash { before := d.sale, queuedOrders := queuedOrders d auths } }

theorem startState_spec {m : SaleMigration}
    (h : d.startState C K o b m = .ok start) :
    d.sale = some start ∨ d.sale = none ∧ start = initialState C m.checkpoint := by
  unfold DB.startState at h
  cases hsale : d.sale with
  | some s =>
    rw [hsale] at h
    cases h
    exact Or.inl rfl
  | none =>
    rw [hsale] at h
    replace h := past h
    cases h
    exact Or.inr ⟨rfl, rfl⟩

/-- A prepared block has a migration, and it starts from a ledger. -/
theorem prepareSaleBlock_some (h : d.prepareSaleBlock C K o b m = .ok (some p)) :
    ∃ m' start, m = some m' ∧ p.before = d.sale ∧ d.lpod.tip.1 = b.header.prevHash ∧
      (d.lpod.tip.2 + 1).toNat = b.header.height ∧ d.startState C K o b m' = .ok start ∧
      start.advance C m'.checkpoint (UInt64.ofNat b.header.height) b.header.prevHash (b.hash C)
        (saleTxs b) d.saleConsumed = .ok p.after := by
  unfold DB.prepareSaleBlock at h
  split_ifs at h with hidle
  · cases h
  · cases m with
    | none => cases h
    | some m =>
      replace h := past h
      obtain ⟨p', hp', h⟩ := unbind h
      cases h
      replace hp' := past hp'
      replace hp' := past hp'
      replace hp' := past hp'
      obtain ⟨⟨⟩, htip, hp'⟩ := unbind hp'
      obtain ⟨start, hstart, hp'⟩ := unbind hp'
      obtain ⟨after, hafter, hp'⟩ := unbind hp'
      cases hp'
      rw [failIf_eq_ok, not_or, not_not, not_not] at htip
      exact ⟨m, start, rfl, rfl, htip.1, htip.2, hstart, hafter⟩

theorem prepareSaleBlock_spec (hheight : b.header.height = height.toNat)
    (h : d.prepareSaleBlock C K o b m = .ok (some p)) :
    ∃ c start auths, m.map (·.checkpoint) = some c ∧ p.before = d.sale ∧
      d.lpod.tip.1 = b.header.prevHash ∧ d.lpod.tip.2 + 1 = height ∧
      (d.sale = some start ∨ d.sale = none ∧ start = initialState C c) ∧
      Advanced C start c height b.header.prevHash (b.hash C) d.saleConsumed (saleTxs b) auths
        p.after := by
  obtain ⟨m', start, rfl, hbefore, htip, hnext, hstart, hafter⟩ := prepareSaleBlock_some h
  rw [hheight, UInt64.toNat_inj] at hnext
  rw [hheight, UInt64.ofNat_toNat] at hafter
  obtain ⟨auths, hadvanced⟩ := State.advance_spec hafter
  exact ⟨m'.checkpoint, start, auths, rfl, hbefore, htip, hnext, startState_spec hstart, hadvanced⟩

theorem appendSaleSettlement_none (h : d.appendSaleSettlement C K o b hash height none w = .ok w') :
    d.sale = none ∧ saleTxs b = [] ∧ w' = w := by
  obtain ⟨⟨⟩, hcheck, h⟩ := unbind h
  cases h
  rw [failIf_eq_ok, not_or] at hcheck
  refine ⟨?_, ?_, rfl⟩
  · simpa using hcheck.1
  · have hnone := hcheck.2
    rw [any_eq_true] at hnone
    exact filter_eq_nil_iff.mpr fun tx htx hsale => hnone ⟨tx, htx, hsale⟩

theorem appendSaleSettlement_some
    (h : d.appendSaleSettlement C K o b hash height (some p) w = .ok w') :
    ∃ c start auths, SaleCommit C d b hash height p c start auths w w' := by
  obtain ⟨⟨⟩, hcontext, h⟩ := unbind h
  obtain ⟨actual, hactual, h⟩ := unbind h
  cases actual with
  | none => cases h
  | some actual =>
    obtain ⟨⟨⟩, hafter, h⟩ := unbind h
    obtain ⟨⟨w1, queued⟩, hloop, h⟩ := unbind h
    cases h
    rw [failIf_eq_ok, not_or, not_not, not_not] at hcontext
    rw [failIf_eq_ok, not_not] at hafter
    obtain ⟨c, start, auths, hm, hbefore, htip, hnext, hstart, hadvanced⟩ :=
      prepareSaleBlock_spec hcontext.2 hactual
    obtain ⟨auths', hdelivered, rfl⟩ := appendSales_spec hloop
    have hauths : auths' = auths := hdelivered.authorized.unique hadvanced.authorized
    subst hauths
    rw [hcontext.1, hafter] at hadvanced
    refine ⟨c, start, auths', hm, hcontext.1, hcontext.2, htip, hnext, hstart, hadvanced, w1,
      hdelivered, ?_⟩
    rw [hbefore, hafter]

/-! ### Runs -/

theorem commitRawBlock_eq_ok {sale : Option SaleSettlement} {r : Option Lpod.Settlement} :
    d.commitRawBlock C K o o' b hash height sale r = .ok d' ↔
      d.lpodView.validateLPoDBlock C K o b hash height r = .ok () ∧
      d.lpodView.checkSaleGenesisFundingTransition C K o height r (sale.any (·.before.isNone)) =
        .ok () ∧
      ∃ w loaded l records keyImages,
        d.appendSaleSettlement C K o b hash height sale d = .ok w ∧
        d.lpodView.loadCheckpoint C K o' = .ok loaded ∧
        d.lpodView.appendLPoDSettlement C K o' hash height r = .ok l ∧
        DB.indexBlock C b r w.records = .ok records ∧
        loop (fun _ => spendKeyImages C) 0 b.txs records.keyImages = .ok keyImages ∧
        d' = DB.recordActivation height r loaded { w with
          lpod := { l with
            blocks := l.blocks.set hash b
            heights := l.heights.set height hash
            tip := (hash, height) }
          records := { records with keyImages } } := by
  constructor
  · intro h
    obtain ⟨⟨⟩, hvalid, h⟩ := unbind h
    obtain ⟨⟨⟩, hfunding, h⟩ := unbind h
    obtain ⟨w, hw, h⟩ := unbind h
    obtain ⟨loaded, hloaded, h⟩ := unbind h
    obtain ⟨l, hl, h⟩ := unbind h
    obtain ⟨records, hrecords, h⟩ := unbind h
    obtain ⟨keyImages, himages, h⟩ := unbind h
    exact ⟨hvalid, hfunding, w, loaded, l, records, keyImages, hw, hloaded, hl, hrecords, himages,
      (Except.ok.inj h).symm⟩
  · rintro ⟨hvalid, hfunding, w, loaded, l, records, keyImages, hw, hloaded, hl, hrecords, himages,
      rfl⟩
    exact pass hvalid <| pass hfunding <| bind_ok hw <|
      bind_ok hloaded <| bind_ok hl <| bind_ok hrecords <|
        bind_ok himages rfl

theorem commit_sale (h : Committed C K d e d') :
    ∃ w, d.appendSaleSettlement C K e.validateOrder e.block e.hash e.height e.sale d = .ok w ∧
      d'.sale = w.sale ∧ d'.fences = w.fences := by
  obtain ⟨-, -, w, loaded, l, records, keyImages, hw, -, -, -, -, rfl⟩ := commitRawBlock_eq_ok.mp h
  refine ⟨w, hw, ?_⟩
  unfold DB.recordActivation
  split <;> exact ⟨rfl, rfl⟩

theorem reserveSaleOrder_spec {order : SaleOrder} {network : UInt8} {ids : List Hash32}
    (h : d.reserveSaleOrder C M order network ids = .ok d') :
    d' = d ∨ d.orders.get order.order = none ∧ order.amount ≠ 0 ∧ d' = { d with
      orders := d.orders.set order.order order
      pending := d.pending.set order.order order.order } := by
  obtain ⟨⟨⟩, hform, h⟩ := unbind h
  split at h
  · cases h
  · replace h := past h
    obtain ⟨existing, hexisting, h⟩ := unbind h
    cases existing with
    | some existing =>
      replace h := past h
      cases h
      exact Or.inl rfl
    | none =>
      replace h := past h
      obtain ⟨pending, -, h⟩ := unbind h
      replace h := past h
      obtain ⟨available, -, h⟩ := unbind h
      replace h := past h
      cases h
      refine Or.inr ⟨?_, ?_, rfl⟩
      · unfold DB.saleOrder at hexisting
        cases hget : d.orders.get order.order with
        | none => rfl
        | some stored =>
          rw [hget] at hexisting
          replace hexisting := past hexisting
          cases hexisting
      · replace hform := past hform
        rw [failIf_eq_ok] at hform
        simp only [not_or] at hform
        exact hform.2.2.2.2

/-- An order that is changed keeps its identity and its amount. -/
def OrderKept (d : DB) (id : Hash32) (order' : SaleOrder) : Prop :=
  ∃ order, d.saleOrder id = .ok (some order) ∧ order'.order = order.order ∧
    order'.amount = order.amount ∧ (order.payment ≠ 0 → order'.payment = order.payment)

theorem bindSaleInvoice_spec {id : Hash32} {invoice : SaleInvoice}
    (h : d.bindSaleInvoice M id invoice = .ok d') :
    d' = d ∨ ∃ order', OrderKept d id order' ∧
      d' = { d with orders := d.orders.set id order', invoices := d'.invoices } := by
  replace h := past h
  obtain ⟨order, horder, h⟩ := unbind h
  cases order with
  | none => cases h
  | some order =>
    replace h := past h
    split_ifs at h with hsame
    · cases h
      exact Or.inl rfl
    · replace h := past h
      replace h := past h
      replace h := past h
      replace h := past h
      replace h := past h
      cases h
      exact Or.inr ⟨{ order with invoice := some invoice },
        ⟨order, horder, rfl, rfl, fun _ => rfl⟩, rfl⟩

theorem markSaleOrderPaid_spec {id payment : Hash32} (h : d.markSaleOrderPaid M id payment = .ok d') :
    d' = d ∨ ∃ order', OrderKept d id order' ∧
      d' = { d with orders := d.orders.set id order', orderPayments := d'.orderPayments } := by
  replace h := past h
  obtain ⟨order, horder, h⟩ := unbind h
  cases order with
  | none => cases h
  | some order =>
    replace h := past h
    replace h := past h
    split_ifs at h with hsame
    · cases h
      exact Or.inl rfl
    · obtain ⟨⟨⟩, hunpaid, h⟩ := unbind h
      replace h := past h
      replace h := past h
      cases h
      rw [failIf_eq_ok] at hunpaid
      exact Or.inr ⟨{ order with payment }, ⟨order, horder, rfl, rfl, fun hpaid =>
        absurd hpaid hunpaid⟩, rfl⟩

/-- The sale transactions of the committed blocks of a run. -/
def chainSales (es : List Event) : List Transaction := (es.filterMap Event.block).flatMap saleTxs

/-- What a run keeps: the authorizations of its sales are fenced and accounted for. -/
structure Books (C : Externals) (es : List Event) (d : DB) (auths : List SaleAuthorization)
    (allocation : Nat) : Prop where
  authorized : Authorized C (chainSales es) auths
  orders_nodup : (auths.map (·.order)).Nodup
  payments_nodup : (auths.map (·.payment)).Nodup
  order_fenced : ∀ a ∈ auths, d.saleConsumed .order a.order = true
  payment_fenced : ∀ a ∈ auths, d.saleConsumed .payment a.payment = true
  /-- Before the first settlement nothing is sold. -/
  inactive : d.sale = none → auths = [] ∧ ∀ e p, Event.commit e ∈ es → e.sale ≠ some p
  active : ∀ s, d.sale = some s → s.remaining.toNat + s.sold.toNat = allocation ∧
    s.sold.toNat = totalAmount auths
  settled : ∀ e p, Event.commit e ∈ es → e.sale = some p → ∃ m, p.migration = some m ∧
    m.checkpoint.saleRemaining.toNat = allocation ∧
    p.after.remaining.toNat + p.after.sold.toNat = allocation

theorem Books.keep {e : Event} (h : Books C es d auths allocation) (htxs : chainSales [e] = [])
    (hunsettled : ∀ e' p, e = .commit e' → e'.sale ≠ some p) (hsale : d'.sale = d.sale)
    (hfences : d'.fences = d.fences) : Books C (es ++ [e]) d' auths allocation := by
  have hchain : chainSales (es ++ [e]) = chainSales es := by
    simp only [chainSales, filterMap_append, flatMap_append] at htxs ⊢
    rw [htxs, append_nil]
  have hevents : ∀ e' p, Event.commit e' ∈ es ++ [e] → e'.sale = some p → Event.commit e' ∈ es := by
    intro e' p he' hp
    rcases mem_append.mp he' with he' | he'
    · exact he'
    · exact absurd hp (hunsettled e' p (mem_singleton.mp he').symm)
  have hconsumed : d'.saleConsumed = d.saleConsumed := by
    funext kind id
    rw [DB.saleConsumed, hfences]
    rfl
  refine ⟨hchain ▸ h.authorized, h.orders_nodup, h.payments_nodup, ?_, ?_, ?_, ?_, ?_⟩
  · rw [hconsumed]
    exact h.order_fenced
  · rw [hconsumed]
    exact h.payment_fenced
  · rw [hsale]
    intro hnone
    exact ⟨(h.inactive hnone).1, fun e' p he' hp =>
      (h.inactive hnone).2 e' p (hevents e' p he' hp) hp⟩
  · rw [hsale]
    exact h.active
  · exact fun e' p he' hp => h.settled e' p (hevents e' p he' hp) hp

theorem SaleCommit.fences {c : Sale.Checkpoint}
    (h : SaleCommit C d b hash height p c start auths w w') (k : FenceKind × Hash32) :
    w'.fences.get k = if k ∈ fenceKeys auths then some hash else w.fences.get k := by
  obtain ⟨w1, hdelivered, hw'⟩ := h.writes
  have hfences : w'.fences = (fenceKeys auths).foldl (fun m k => m.set k hash) w.fences := by
    rw [hw']
    rw [hdelivered.writes]
  rw [hfences, GoMap.get_setKeys]
  split_ifs <;> rfl

theorem Books.commit_some (h : Books C es d auths allocation) (he : e.sale = some p)
    (hstep : Committed C K d e d') :
    ∃ auths' allocation', Books C (es ++ [.commit e]) d' auths' allocation' := by
  obtain ⟨w, happend, hsale, hfences⟩ := commit_sale hstep
  rw [he] at happend
  obtain ⟨c, start, new, hcommit⟩ := appendSaleSettlement_some happend
  have hadvanced := hcommit.advanced
  obtain ⟨m, hm, hc⟩ := Option.map_eq_some_iff.mp hcommit.migration
  have hafter : w.sale = some p.after := by
    obtain ⟨w1, -, rfl⟩ := hcommit.writes
    rfl
  -- the sales so far are all in the ledger the block starts with
  have hstart : start.sold.toNat = totalAmount auths ∧
      (c.saleRemaining.toNat = allocation ∨ ∀ e' p', Event.commit e' ∈ es → e'.sale ≠ some p') := by
    rcases hcommit.start_eq with hsome | ⟨hnone, rfl⟩
    · obtain ⟨hbudget, hsold⟩ := h.active start hsome
      exact ⟨hsold, Or.inl (hadvanced.budget_before.symm.trans hbudget)⟩
    · obtain ⟨rfl, hunsettled⟩ := h.inactive hnone
      exact ⟨rfl, Or.inr hunsettled⟩
  have hsold : p.after.sold.toNat = totalAmount (auths ++ new) := by
    rw [hadvanced.sold_eq, hstart.1]
    simp [totalAmount]
  have hchain : chainSales (es ++ [.commit e]) = chainSales es ++ saleTxs e.block := by
    simp [chainSales, Event.block]
  have hget := hcommit.fences
  -- a new identity is not fenced yet, and those of the chain are
  have hconsumed : ∀ kind id, d'.saleConsumed kind id = true ↔
      (kind, id) ∈ fenceKeys new ∨ d.saleConsumed kind id = true := by
    intro kind id
    rw [DB.saleConsumed, hfences, GoMap.has, hget]
    split_ifs with hmem
    · simp [hmem]
    · simp [hmem, DB.saleConsumed, GoMap.has]
  have horders : ∀ a ∈ auths, ∀ a' ∈ new, a.order ≠ a'.order := by
    intro a ha a' ha' heq
    have hfenced := h.order_fenced a ha
    rw [heq, hadvanced.order_fresh a' ha'] at hfenced
    cases hfenced
  have hpayments : ∀ a ∈ auths, ∀ a' ∈ new, a.payment ≠ a'.payment := by
    intro a ha a' ha' heq
    have hfenced := h.payment_fenced a ha
    rw [heq, hadvanced.payment_fresh a' ha'] at hfenced
    cases hfenced
  refine ⟨auths ++ new, c.saleRemaining.toNat, ?_, ?_, ?_, ?_, ?_, ?_, ?_, ?_⟩
  · rw [hchain]
    exact rel_append h.authorized hadvanced.authorized
  · rw [map_append, nodup_append]
    refine ⟨h.orders_nodup, hadvanced.orders_nodup, ?_⟩
    simpa using horders
  · rw [map_append, nodup_append]
    refine ⟨h.payments_nodup, hadvanced.payments_nodup, ?_⟩
    simpa using hpayments
  · intro a ha
    rw [hconsumed]
    rcases mem_append.mp ha with ha | ha
    · exact Or.inr (h.order_fenced a ha)
    · exact Or.inl (mem_fenceKeys.mpr ⟨a, ha, Or.inl rfl⟩)
  · intro a ha
    rw [hconsumed]
    rcases mem_append.mp ha with ha | ha
    · exact Or.inr (h.payment_fenced a ha)
    · exact Or.inl (mem_fenceKeys.mpr ⟨a, ha, Or.inr rfl⟩)
  · rw [hsale, hafter]
    intro hnone
    cases hnone
  · rw [hsale, hafter]
    rintro s ⟨⟩
    exact ⟨hadvanced.budget, hsold⟩
  · intro e' p' he' hp'
    rcases mem_append.mp he' with he' | he'
    · rcases hstart.2 with hsame | hunsettled
      · rw [hsame]
        exact h.settled e' p' he' hp'
      · exact absurd hp' (hunsettled e' p' he')
    · cases mem_singleton.mp he'
      rw [he] at hp'
      cases hp'
      exact ⟨m, hm, by rw [hc], hadvanced.budget⟩

theorem Books.step {e : Event} (h : Books C es d auths allocation) (hstep : Step C K M d e d') :
    ∃ auths' allocation', Books C (es ++ [e]) d' auths' allocation' := by
  cases e with
  | commit e =>
    cases he : e.sale with
    | some p => exact h.commit_some he hstep
    | none =>
      obtain ⟨w, happend, hsale, hfences⟩ := commit_sale hstep
      rw [he] at happend
      obtain ⟨-, htxs, rfl⟩ := appendSaleSettlement_none happend
      refine ⟨auths, allocation, h.keep ?_ ?_ hsale hfences⟩
      · simp [chainSales, Event.block, htxs]
      · rintro e' p ⟨⟩ hp
        rw [he] at hp
        cases hp
  | reserve order network ids =>
    refine ⟨auths, allocation, h.keep rfl (fun _ _ heq => nomatch heq) ?_ ?_⟩
    all_goals obtain rfl | ⟨-, -, rfl⟩ := reserveSaleOrder_spec hstep <;> rfl
  | bind id invoice =>
    obtain rfl | ⟨order', -, heq⟩ := bindSaleInvoice_spec hstep
    · exact ⟨auths, allocation, h.keep rfl (fun _ _ heq => nomatch heq) rfl rfl⟩
    · rw [heq]
      exact ⟨auths, allocation, h.keep rfl (fun _ _ heq => nomatch heq) rfl rfl⟩
  | pay id payment =>
    obtain rfl | ⟨order', -, heq⟩ := markSaleOrderPaid_spec hstep
    · exact ⟨auths, allocation, h.keep rfl (fun _ _ heq => nomatch heq) rfl rfl⟩
    · rw [heq]
      exact ⟨auths, allocation, h.keep rfl (fun _ _ heq => nomatch heq) rfl rfl⟩

/-- **The sale ledger never oversells.**  Over every run of commits and order operations from a
database without a sale ledger: every sale transaction of the chain has an authorization, no order and
no payment is used by two of them, and there is one allocation such that every settlement names it and
splits it into what remains and what is sold, and all sales together are no more than it. -/
theorem sale_never_oversells {es : List Event} (hsale : d.sale = none)
    (hrun : Run (Step C K M) d es d') :
    ∃ auths allocation, Authorized C (chainSales es) auths ∧
      (auths.map (·.order)).Nodup ∧ (auths.map (·.payment)).Nodup ∧
      totalAmount auths ≤ allocation ∧
      (∀ e p, Event.commit e ∈ es → e.sale = some p → ∃ m, p.migration = some m ∧
        m.checkpoint.saleRemaining.toNat = allocation ∧
        p.after.remaining.toNat + p.after.sold.toNat = allocation) ∧
      ∀ s, d'.sale = some s → s.remaining.toNat + s.sold.toNat = allocation ∧
        s.sold.toNat = totalAmount auths := by
  have hstart : Books C [] d [] 0 := by
    refine ⟨.nil, .nil, .nil, by simp, by simp, by simp, ?_, by simp⟩
    intro s hs
    rw [hsale] at hs
    cases hs
  obtain ⟨auths, allocation, hbooks⟩ := hrun.history
    (fun past d => ∃ auths allocation, Books C past d auths allocation)
    (fun past d1 e d2 _ ⟨auths, allocation, hbooks⟩ hstep => hbooks.step hstep) ⟨[], 0, hstart⟩
  refine ⟨auths, allocation, hbooks.authorized, hbooks.orders_nodup, hbooks.payments_nodup, ?_,
    hbooks.settled, hbooks.active⟩
  cases hs : d'.sale with
  | none =>
    rw [(hbooks.inactive hs).1]
    exact Nat.zero_le _
  | some s =>
    obtain ⟨hbudget, hsold⟩ := hbooks.active s hs
    omega

/-- The transparent chain with a sale of 300 out of 1000. -/
theorem sale_of_300 : ∃ es d', Run (Step Lpod.lpodHashing saleEncodings sampleMerchant) saleDB es d' ∧
    ∃ auths allocation, Authorized Lpod.lpodHashing (chainSales es) auths ∧
      totalAmount auths ≤ allocation ∧ totalAmount auths = 300 ∧ allocation = 1000 := by
  obtain ⟨⟨m, d⟩, hopened, htest⟩ : ∃ p, openedDB = .ok p ∧
      p.2.sale.any (fun s => s.remaining = 700 ∧ s.sold = 300) = true :=
    exists_ok_of_test (by decide +kernel)
  obtain ⟨e1, e2, hrun⟩ := openedDB_run hopened
  obtain ⟨auths, allocation, hauths, -, -, hle, -, hledger⟩ := sale_never_oversells rfl hrun
  cases hs : d.sale with
  | none =>
    rw [hs] at htest
    cases htest
  | some s =>
    rw [hs] at htest
    obtain ⟨hremaining, hsold⟩ := of_decide_eq_true htest
    obtain ⟨hbudget, htotal⟩ := hledger s hs
    rw [hremaining, hsold] at hbudget
    rw [hsold] at htotal
    exact ⟨_, d, hrun, auths, allocation, hauths, hle, htotal.symm, hbudget.symm⟩

end Aperod.Store
