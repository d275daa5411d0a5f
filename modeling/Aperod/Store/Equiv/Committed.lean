import Aperod.Lpod.Equiv.Reload
import Aperod.Store.Equiv.Indices
import Aperod.Store.Equiv.SaleLedger

/-!
# What a commit does to the database

A commit on a database with a sale ledger is described by `ActiveCommit`: the block extends the tip,
the checkpoint and the journal are stored under its hash, its fences are new, and only its own indices
are written.  `DB.Ready` is what holds between the commits; it is kept by every step (`DB.Ready.step`),
and it makes every further commit an `ActiveCommit` (`DB.Ready.activeCommit`).
-/

namespace Aperod.Store

open Go Sale GoMap DB

variable {C : Externals} {K : Lpod.Encodings} {M : Merchant} {o : RangeOrder} {d d' w : DB}
  {e : Commit} {l : Lpod.DB} {c : Lpod.Checkpoint} {records : Records} {hash : Hash32}
  {height : UInt64} {auths : List SaleAuthorization}
variable {id : Hash32} {r : Lpod.Settlement}

/-! ### The parts of a commit -/

/-- The commit as LPoD sees it. -/
def Commit.lpod (e : Commit) : Lpod.Commit where
  block := e.block
  hash := e.hash
  height := e.height
  settlement := e.settlement
  activatingSales := e.sale.any (·.before.isNone)
  validateOrder := e.validateOrder
  appendOrder := e.appendOrder

/-- The database as LPoD leaves it. -/
def Commit.appended (e : Commit) (l : Lpod.DB) : Lpod.DB :=
  { l with
    blocks := l.blocks.set e.hash e.block
    heights := l.heights.set e.height e.hash
    tip := (e.hash, e.height) }

/-- The sale settlement gives `w`, the LPoD settlement `l`, and the indices `records`. -/
structure CommitParts (C : Externals) (K : Lpod.Encodings) (d : DB) (e : Commit) (d' w : DB)
    (l : Lpod.DB) (records : Records) : Prop where
  sale : d.appendSaleSettlement C K e.validateOrder e.block e.hash e.height e.sale d = .ok w
  validated : d.lpodView.validateLPoDBlock C K e.validateOrder e.block e.hash e.height e.settlement =
    .ok ()
  lpod : Lpod.Committed C K d.lpodView e.lpod (e.appended l)
  appended : d.lpodView.appendLPoDSettlement C K e.appendOrder e.hash e.height e.settlement = .ok l
  indexed : indexBlock C e.block e.settlement w.records = .ok records
  spent : loop (fun _ => spendKeyImages C) 0 e.block.txs records.keyImages = .ok d'.records.keyImages
  result : ∃ loaded, d.lpodView.loadCheckpoint C K e.appendOrder = .ok loaded ∧
    d' = recordActivation e.height e.settlement loaded { w with
      lpod := e.appended l
      records := { records with keyImages := d'.records.keyImages } }

theorem recordActivation_eq (height : UInt64) (settlement : Option Lpod.Settlement)
    (loaded : Option Lpod.Checkpoint) (w : DB) :
    recordActivation height settlement loaded w = { w with
      activationHeights := (recordActivation height settlement loaded w).activationHeights
      activationBudgets := (recordActivation height settlement loaded w).activationBudgets } := by
  unfold recordActivation
  split <;> rfl

theorem recordActivation_later (settlement : Option Lpod.Settlement) (c : Lpod.Checkpoint) (w : DB) :
    recordActivation height settlement (some c) w = w := by
  cases settlement.bind (·.migration) <;> rfl

theorem commit_parts (h : Committed C K d e d') : ∃ w l records, CommitParts C K d e d' w l records := by
  obtain ⟨hvalidated, hfunding, w, loaded, l, records, keyImages, hsale, hloaded, happended, hindexed,
    hspent, hd'⟩ := commitRawBlock_eq_ok.mp h
  have hlpod : Lpod.Committed C K d.lpodView e.lpod (e.appended l) :=
    pass hvalidated <| pass hfunding <|
      bind_ok happended rfl
  have himages : d'.records.keyImages = keyImages := by
    rw [hd', recordActivation_eq]
  refine ⟨w, l, records, hsale, hvalidated, hlpod, happended, hindexed, ?_, loaded, hloaded, ?_⟩
  · rw [himages]
    exact hspent
  · rw [himages]
    exact hd'

theorem CommitParts.eq (h : CommitParts C K d e d' w l records) :
    d' = { w with
      lpod := e.appended l
      records := { records with keyImages := d'.records.keyImages }
      activationHeights := d'.activationHeights
      activationBudgets := d'.activationBudgets } := by
  obtain ⟨loaded, -, hd'⟩ := h.result
  have heq := recordActivation_eq e.height e.settlement loaded { w with
    lpod := e.appended l
    records := { records with keyImages := d'.records.keyImages } }
  rwa [← hd'] at heq

/-! ### The LPoD part -/

structure Extends (C : Externals) (d : DB) (e : Commit) (d' : DB) (c : Lpod.Checkpoint) : Prop where
  hash_eq : e.block.hash C = e.hash
  height_eq : e.block.header.height = e.height.toNat
  prevHash : e.block.header.prevHash = d.lpod.tip.1
  height_succ : e.height.toNat = d.lpod.tip.2.toNat + 1
  protocol : e.settlement.any (·.positionProtocol) = true
  /-- No checkpoint was stored under the hash of the block. -/
  new : d.lpod.checkpoints.get e.hash = none
  checkpoints : d'.lpod.checkpoints = d.lpod.checkpoints.set e.hash c
  blocks : d'.lpod.blocks = d.lpod.blocks.set e.hash e.block
  heights : d'.lpod.heights = d.lpod.heights.set e.height e.hash
  tip : d'.lpod.tip = (e.hash, e.height)
  pool : ∀ a, c.allocation = some a → d'.lpod.stakingPool = some a.validatorRemaining
  /-- The first one records the activation. -/
  activation : d.lpod.checkpoints = ∅ ∧ (∃ v ∈ ([1, 2, 3] : List UInt8),
      d'.lpod.bindings.has v = true ∧ d'.activationHeights = d.activationHeights.set v e.height) ∨
    d.lpod.checkpoints ≠ ∅ ∧ d'.lpod.bindings = d.lpod.bindings ∧
      d'.activationHeights = d.activationHeights

theorem lpodView_sound (h : d.lpod.Sound C K) : d.lpodView.Sound C K := h.of_same rfl rfl rfl rfl

theorem appendLPoDSettlement_some {v : Lpod.DB} (hd : v.Sound C K)
    (h : v.appendLPoDSettlement C K o hash height (some r) = .ok l) :
    ∃ before c, v.checkpointBefore C K "store: duplicate LPoD initial allocation" hash height r
        (v.checkpoints.get v.tip.1) = .ok before ∧
      l.checkpoints = v.checkpoints.set hash c ∧
      (∀ a, c.allocation = some a → l.stakingPool = some a.validatorRemaining) ∧
      (v.checkpoints.get v.tip.1 = none → ∃ m, r.migration = some m ∧
        l.bindings = v.bindings.set (Lpod.DB.bindingKey m.version) (m.root C K)) ∧
      (v.checkpoints.get v.tip.1 ≠ none → l.bindings = v.bindings) := by
  obtain ⟨loaded, hloaded, h⟩ := unbind h
  rw [hd.loadCheckpoint] at hloaded
  cases hloaded
  replace h := past h
  obtain ⟨before, hbefore, h⟩ := unbind h
  obtain ⟨c, -, h⟩ := unbind h
  replace h := past h
  cases h
  refine ⟨before, c, hbefore, rfl, fun a ha => ?_, fun hnone => ?_, fun hsome => ?_⟩
  · show c.allocation.elim v.stakingPool (fun a => some a.validatorRemaining) = _
    rw [ha]
    rfl
  · rw [hnone] at hbefore ⊢
    cases hmigration : r.migration with
    | none =>
      rw [Lpod.DB.checkpointBefore, hmigration] at hbefore
      cases hbefore
    | some m => exact ⟨m, rfl, rfl⟩
  · obtain ⟨c0, hc0⟩ := Option.ne_none_iff_exists'.mp hsome
    rw [hc0]

theorem sound_tip_eq_none (hd : d.lpod.Sound C K) :
    d.lpod.checkpoints.get d.lpod.tip.1 = none ↔ d.lpod.checkpoints = ∅ := by
  constructor
  · intro hnone
    rcases hd.tip with hempty | ⟨c, hc, -⟩
    · exact hempty
    · rw [hc] at hnone
      cases hnone
  · intro hempty
    rw [hempty, get_empty]

theorem CommitParts.extends (hd : d.lpod.Sound C K)
    (h : CommitParts C K d e d' w l records) (hw : w.activationHeights = d.activationHeights)
    (hr : e.settlement = some r) : ∃ c, Extends C d e d' c := by
  have hview := lpodView_sound hd
  have hlpod : d'.lpod = e.appended l := by rw [h.eq]
  have happended := h.appended
  have hvalidated := h.validated
  rw [hr] at happended hvalidated
  obtain ⟨before, c, hbefore, hcheckpoints, hpool, hfirst, hlater⟩ :=
    appendLPoDSettlement_some hview happended
  obtain ⟨-, -, -, hprotocol, -⟩ := Lpod.validateLPoDBlock_some hview hbefore hvalidated
  have hcommitted : d.lpodView.commitRawBlock C K e.validateOrder e.appendOrder e.block e.hash e.height
      (some r) (e.sale.any (·.before.isNone)) = .ok (e.appended l) := by
    rw [← hr]
    exact h.lpod
  obtain ⟨before', c', hbefore', hcommit⟩ := Lpod.commit_settled hview hcommitted
  obtain ⟨a, a', hnext, htip, hkept⟩ := hcommit.kept hview hbefore'
  have hnew := Lpod.no_checkpoint_overwritten hview hcommit hnext htip
  have hsucc := hnext.height_lt
  rw [htip] at hsucc
  refine ⟨c, hcommit.hash_eq, hcommit.height_eq, hcommit.prevHash, ?_, ?_, hnew, ?_, ?_, ?_, ?_, ?_, ?_⟩
  · exact hsucc
  · rw [hr]
    exact hprotocol
  · rw [hlpod]
    exact hcheckpoints
  · rw [hlpod]
    exact hcommit.blocks
  · rw [hlpod]
    exact hcommit.heights
  · rw [hlpod]
    rfl
  · rw [hlpod]
    exact hpool
  · obtain ⟨loaded, hloaded, hd'⟩ := h.result
    rw [hview.loadCheckpoint] at hloaded
    cases hloaded
    have hview_tip : d.lpodView.checkpoints.get d.lpodView.tip.1 =
        d.lpod.checkpoints.get d.lpod.tip.1 := rfl
    rw [hview_tip] at hd' hfirst hlater
    rw [← sound_tip_eq_none hd]
    cases hget : d.lpod.checkpoints.get d.lpod.tip.1 with
    | none =>
      obtain ⟨m, hm, hbindings⟩ := hfirst hget
      refine Or.inl ⟨rfl, Lpod.DB.bindingKey m.version, by
        unfold Lpod.DB.bindingKey
        split_ifs <;> simp, ?_, ?_⟩
      · rw [hlpod]
        show l.bindings.has _ = true
        rw [hbindings, has, get_set_self]
        rfl
      · have hm : e.settlement.bind (·.migration) = some m := by
          rw [hr]
          exact hm
        rw [hd', hget]
        unfold recordActivation
        rw [hm]
        exact congrArg (fun t => set t _ _) hw
    | some c0 =>
      refine Or.inr ⟨fun hempty => ?_, ?_, ?_⟩
      · rw [(sound_tip_eq_none hd).mpr hempty] at hget
        cases hget
      · rw [hlpod]
        apply hlater
        rw [hget]
        exact Option.some_ne_none c0
      · rw [hd', hget, recordActivation_later]
        exact hw

theorem CommitParts.unfunded (hd : d.lpod.Sound C K) (h : CommitParts C K d e d' w l records)
    (hw : w.activationHeights = d.activationHeights) (hr : e.settlement = none) :
    d.lpod.checkpoints = ∅ ∧ d'.lpod.checkpoints = ∅ ∧
      d'.activationHeights = d.activationHeights := by
  have hcommitted : d.lpodView.commitRawBlock C K e.validateOrder e.appendOrder e.block e.hash e.height
      none (e.sale.any (·.before.isNone)) = .ok (e.appended l) := by
    rw [← hr]
    exact h.lpod
  obtain ⟨hempty, hempty'⟩ := Lpod.commit_unsettled (lpodView_sound hd) hcommitted
  refine ⟨hempty, ?_, ?_⟩
  · rw [h.eq]
    exact hempty'
  · obtain ⟨loaded, -, hd'⟩ := h.result
    rw [hd', hr]
    cases loaded <;> exact hw

/-! ### The sale part -/

variable {b : Block} {p : SaleSettlement} {start : Sale.State} {w' : DB}

theorem SaleCommit.eq {c : Sale.Checkpoint} (h : SaleCommit C d b hash height p c start auths w w')
    :
    w' = { w with
      sale := some p.after
      fences := (fenceKeys auths).foldl (fun m k => m.set k hash) w.fences
      pending := (queuedOrders d auths).foldl (fun m id => m.del id) w.pending
      journals := w.journals.set hash { before := d.sale, queuedOrders := queuedOrders d auths }
      txLocations := w'.txLocations
      records := ((saleTxs b).flatMap (storedOutputs C height)).foldl Records.putOutput w.records } := by
  obtain ⟨w1, hdelivered, rfl⟩ := h.writes
  rw [hdelivered.writes]
  rfl

theorem SaleCommit.authorized {c : Sale.Checkpoint}
    (h : SaleCommit C d b hash height p c start auths w w') :
    Authorized C (saleTxs b) auths ∧
      ∀ id ∈ queuedOrders d auths, ∃ order, d.saleOrder id = .ok (some order) ∧ order.payment ≠ 0 := by
  obtain ⟨w1, hdelivered, -⟩ := h.writes
  exact ⟨hdelivered.authorized, hdelivered.paid⟩

theorem SaleCommit.fresh {c : Sale.Checkpoint}
    (h : SaleCommit C d b hash height p c start auths w w') :
    ∀ k ∈ fenceKeys auths, d.fences.get k = none := by
  intro k hk
  obtain ⟨a, ha, rfl | rfl⟩ := mem_fenceKeys.mp hk
  · exact has_eq_false.mp (h.advanced.order_fresh a ha)
  · exact has_eq_false.mp (h.advanced.payment_fresh a ha)

theorem CommitParts.sale_cases (h : CommitParts C K d e d' w l records) :
    (d.sale = none ∧ w = d) ∨ ∃ p c start auths,
      SaleCommit C d e.block e.hash e.height p c start auths d w := by
  have hsale := h.sale
  cases he : e.sale with
  | none =>
    rw [he] at hsale
    obtain ⟨hnone, -, hw⟩ := appendSaleSettlement_none hsale
    exact Or.inl ⟨hnone, hw⟩
  | some p =>
    rw [he] at hsale
    obtain ⟨c, start, auths, hcommit⟩ := appendSaleSettlement_some hsale
    exact Or.inr ⟨p, c, start, auths, hcommit⟩

theorem CommitParts.activationHeights (h : CommitParts C K d e d' w l records) :
    w.activationHeights = d.activationHeights := by
  rcases h.sale_cases with ⟨-, rfl⟩ | ⟨p, c, start, auths, hcommit⟩
  · rfl
  · rw [hcommit.eq]

theorem startState_funded {m : SaleMigration} (hd : d.lpod.Sound C K) (hnone : d.sale = none)
    (h : d.startState C K o b m = .ok start) :
    d.lpod.checkpoints ≠ ∅ := by
  unfold startState at h
  rw [hnone] at h
  obtain ⟨⟨⟩, hactivation, -⟩ := unbind h
  replace hactivation := past hactivation
  replace hactivation := past hactivation
  obtain ⟨loaded, hloaded, hactivation⟩ := unbind hactivation
  replace hactivation := past hactivation
  obtain ⟨issued, -, hactivation⟩ := unbind hactivation
  obtain ⟨c, hc, -⟩ := unbind hactivation
  rw [(lpodView_sound hd).loadCheckpoint] at hloaded
  cases hloaded
  rw [deref_eq_ok] at hc
  intro hempty
  have hget : d.lpod.checkpoints.get d.lpod.tip.1 = some c := hc
  rw [hempty] at hget
  cases hget

theorem CommitParts.funded (hd : d.lpod.Sound C K) (h : CommitParts C K d e d' w l records)
    (hnone : d.sale = none) (hsome : e.sale ≠ none) : d.lpod.checkpoints ≠ ∅ := by
  have hsale := h.sale
  obtain ⟨p, hp⟩ := Option.ne_none_iff_exists'.mp hsome
  rw [hp] at hsale
  replace hsale := past hsale
  obtain ⟨actual, hactual, hsale⟩ := unbind hsale
  cases actual with
  | none => cases hsale
  | some actual =>
    obtain ⟨m, start, -, -, -, -, hstart, -⟩ := prepareSaleBlock_some hactual
    exact startState_funded hd hnone hstart

/-! ### Between the commits -/

/-- What every run of commits and order operations keeps. -/
structure DB.Ready (C : Externals) (K : Lpod.Encodings) (d : DB) : Prop where
  sound : d.lpod.Sound C K
  /-- The ledger is the one of the tip. -/
  clock : ∀ s, d.sale = some s → d.lpod.tip = (s.hash, s.height)
  funded : d.sale ≠ none → d.lpod.checkpoints ≠ ∅
  inactive : d.lpod.checkpoints = ∅ → d.activationHeights = ∅
  active : d.lpod.checkpoints ≠ ∅ → (∃ v ∈ ([1, 2, 3] : List UInt8), d.lpod.bindings.has v = true) ∧
    ∃ height, firstVersion d.activationHeights = some height ∧ height.toNat ≤ d.lpod.tip.2.toNat
  /-- The pool of the validators is the one of the tip's checkpoint. -/
  pool : ∀ c a, d.lpod.checkpoints.get d.lpod.tip.1 = some c → c.allocation = some a →
    d.lpod.stakingPool = some a.validatorRemaining
  /-- An order waits until it is delivered. -/
  queued : ∀ id, d.orders.has id = true → d.fences.get (.order, id) = none → d.pending.get id = some id

/-- A database before LPoD and sales. -/
structure DB.Fresh (d : DB) : Prop where
  checkpoints : d.lpod.checkpoints = ∅
  sale : d.sale = none
  activationHeights : d.activationHeights = ∅
  orders : d.orders = ∅

theorem DB.Fresh.ready (h : d.Fresh) : d.Ready C K := by
  refine ⟨Lpod.sound_of_empty h.checkpoints, fun s hs => ?_, absurd h.sale,
    fun _ => h.activationHeights, absurd h.checkpoints, fun c a hc _ => ?_,
    fun id hid => ?_⟩
  · rw [h.sale] at hs
    cases hs
  · rw [h.checkpoints, get_empty] at hc
    cases hc
  · rw [h.orders, has, get_empty] at hid
    cases hid

theorem firstVersion_set {v : UInt8} (hv : v ∈ ([1, 2, 3] : List UInt8)) (height : UInt64) :
    firstVersion ((∅ : GoMap UInt8 UInt64).set v height) = some height := by
  simp only [List.mem_cons, List.not_mem_nil, or_false] at hv
  rcases hv with rfl | rfl | rfl <;> simp [firstVersion, get_set]

theorem Extends.active (hd : d.Ready C K) (h : Extends C d e d' c) :
    (∃ v ∈ ([1, 2, 3] : List UInt8), d'.lpod.bindings.has v = true) ∧
      ∃ height, firstVersion d'.activationHeights = some height ∧
        height.toNat ≤ d'.lpod.tip.2.toNat := by
  rcases h.activation with ⟨hempty, v, hv, hbinding, hheights⟩ | ⟨hne, hbindings, hheights⟩
  · refine ⟨⟨v, hv, hbinding⟩, e.height, ?_, ?_⟩
    · rw [hheights, hd.inactive hempty]
      exact firstVersion_set hv e.height
    · rw [h.tip]
  · obtain ⟨⟨v, hv, hbinding⟩, height, hfirst, hle⟩ := hd.active hne
    refine ⟨⟨v, hv, by rw [hbindings, hbinding]⟩, height, ?_, ?_⟩
    · rw [hheights, hfirst]
    · rw [h.tip]
      have hsucc := h.height_succ
      show height.toNat ≤ e.height.toNat
      omega

theorem Extends.funded (h : Extends C d e d' c) : d'.lpod.checkpoints ≠ ∅ := by
  intro hempty
  have hget : d'.lpod.checkpoints.get e.hash = some c := by
    rw [h.checkpoints, get_set_self]
  rw [hempty] at hget
  cases hget

theorem SaleCommit.queued {c : Sale.Checkpoint} (hd : d.Ready C K)
    (h : SaleCommit C d b hash height p c start auths d w) (hid : d.orders.has id = true)
    (hfence : w.fences.get (.order, id) = none) :
    w.pending.get id = some id := by
  rw [h.fences] at hfence
  split_ifs at hfence with hmem
  have hnot : id ∉ queuedOrders d auths := by
    intro hqueued
    obtain ⟨a, ha, rfl⟩ := List.mem_map.mp (List.mem_of_mem_filter hqueued)
    exact hmem (mem_fenceKeys.mpr ⟨a, ha, Or.inl rfl⟩)
  rw [h.eq]
  rw [get_delKeys, if_neg hnot]
  exact hd.queued id hid hfence

theorem DB.Ready.commit (hd : d.Ready C K) (h : Committed C K d e d') : d'.Ready C K := by
  obtain ⟨w, l, records, hparts⟩ := commit_parts h
  have hlpod : d'.lpod = e.appended l := by rw [hparts.eq]
  have htip : d'.lpod.tip = (e.hash, e.height) := by rw [hlpod]; rfl
  have hsale : d'.sale = w.sale := by rw [hparts.eq]
  have hsound : d'.lpod.Sound C K := by
    rw [hlpod]
    exact (hparts.lpod.sound (lpodView_sound hd.sound)).1
  have hheights := hparts.activationHeights
  have hfunded : e.sale ≠ none → d.lpod.checkpoints ≠ ∅ := by
    intro hsome
    by_cases hnone : d.sale = none
    · exact hparts.funded hd.sound hnone hsome
    · exact hd.funded hnone
  have hunsold : e.sale = none → d'.sale = none := by
    intro hnone
    have happend := hparts.sale
    rw [hnone] at happend
    obtain ⟨hnone', -, rfl⟩ := appendSaleSettlement_none happend
    rw [hsale, hnone']
  have hclock : ∀ s, d'.sale = some s → d'.lpod.tip = (s.hash, s.height) := by
    intro s hs
    rw [hsale] at hs
    rcases hparts.sale_cases with ⟨hnone, rfl⟩ | ⟨p, sc, start, auths, hcommit⟩
    · rw [hnone] at hs
      cases hs
    · rw [hcommit.eq] at hs
      cases hs
      rw [htip, hcommit.advanced.hash_eq, hcommit.advanced.height_eq]
  have hqueued : ∀ id, d'.orders.has id = true → d'.fences.get (.order, id) = none →
      d'.pending.get id = some id := by
    intro id hid hfence
    rw [hparts.eq] at hid hfence ⊢
    rcases hparts.sale_cases with ⟨-, rfl⟩ | ⟨p, sc, start, auths, hcommit⟩
    · exact hd.queued id hid hfence
    · have horders : w.orders = d.orders := by rw [hcommit.eq]
      apply hcommit.queued hd
      · rw [← horders]
        exact hid
      · exact hfence
  cases hr : e.settlement with
  | none =>
    obtain ⟨hempty, hempty', hsame⟩ := hparts.unfunded hd.sound hheights hr
    refine ⟨hsound, hclock, fun hsome => ?_, fun _ => ?_, absurd hempty',
      fun c a hc _ => ?_, hqueued⟩
    · by_cases hnone : e.sale = none
      · exact absurd (hunsold hnone) hsome
      · exact absurd hempty (hfunded hnone)
    · rw [hsame, hd.inactive hempty]
    · rw [hempty', get_empty] at hc
      cases hc
  | some r =>
    obtain ⟨c, hextends⟩ := hparts.extends hd.sound hheights hr
    refine ⟨hsound, hclock, fun _ => hextends.funded, fun hempty => absurd hempty hextends.funded,
      fun _ => hextends.active hd, fun c' a hc' ha => ?_, hqueued⟩
    rw [hextends.tip, hextends.checkpoints, get_set_self] at hc'
    cases hc'
    exact hextends.pool a ha

theorem DB.Ready.of_orders (hd : d.Ready C K) (hlpod : d'.lpod = d.lpod) (hsale : d'.sale = d.sale)
    (hheights : d'.activationHeights = d.activationHeights)
    (hqueued : ∀ id, d'.orders.has id = true → d'.fences.get (.order, id) = none →
      d'.pending.get id = some id) : d'.Ready C K := by
  refine ⟨?_, ?_, ?_, ?_, ?_, ?_, hqueued⟩
  · rw [hlpod]
    exact hd.sound
  · rw [hlpod, hsale]
    exact hd.clock
  · rw [hlpod, hsale]
    exact hd.funded
  · rw [hlpod, hheights]
    exact hd.inactive
  · rw [hlpod, hheights]
    exact hd.active
  · rw [hlpod]
    exact hd.pool

theorem OrderKept.queued {order' : SaleOrder} (hd : d.Ready C K)
    (h : OrderKept d id order') {id' : Hash32} (hid' : (d.orders.set id order').has id' = true)
    (hfence : d.fences.get (.order, id') = none) : d.pending.get id' = some id' := by
  refine hd.queued id' ?_ hfence
  rcases has_set_eq_true.mp hid' with rfl | hold
  · obtain ⟨order, horder, -⟩ := h
    unfold saleOrder at horder
    cases hget : d.orders.get id' with
    | none =>
      rw [hget] at horder
      cases horder
    | some stored => exact has_eq_true.mpr ⟨stored, hget⟩
  · exact hold

theorem DB.Ready.step {ev : Event} (hd : d.Ready C K) (h : Step C K M d ev d') : d'.Ready C K := by
  cases ev with
  | commit e => exact hd.commit h
  | reserve order network ids =>
    obtain rfl | ⟨-, -, rfl⟩ := reserveSaleOrder_spec h
    · exact hd
    · refine hd.of_orders rfl rfl rfl fun id hid hfence => ?_
      rw [get_set]
      split_ifs with heq
      · rw [heq]
      · rcases has_set_eq_true.mp hid with hid | hid
        · exact absurd hid heq
        · exact hd.queued id hid hfence
  | bind id invoice =>
    obtain rfl | ⟨order', hkept, heq⟩ := bindSaleInvoice_spec h
    · exact hd
    · rw [heq]
      exact hd.of_orders rfl rfl rfl fun id' hid' hfence => hkept.queued hd hid' hfence
  | pay id payment =>
    obtain rfl | ⟨order', hkept, heq⟩ := markSaleOrderPaid_spec h
    · exact hd
    · rw [heq]
      exact hd.of_orders rfl rfl rfl fun id' hid' hfence => hkept.queued hd hid' hfence

/-! ### Commits after the activation -/

/-- A block on a database with a ledger. -/
structure ActiveCommit (C : Externals) (d : DB) (e : Commit) (d' : DB) (c : Lpod.Checkpoint)
    (auths : List SaleAuthorization) : Prop extends Extends C d e d' c where
  authorized : Authorized C (saleTxs e.block) auths
  paid : ∀ id ∈ queuedOrders d auths, ∃ order, d.saleOrder id = .ok (some order) ∧ order.payment ≠ 0
  fresh : ∀ k ∈ fenceKeys auths, d.fences.get k = none
  fences : d'.fences = (fenceKeys auths).foldl (fun m k => m.set k e.hash) d.fences
  pending : d'.pending = (queuedOrders d auths).foldl (fun m id => m.del id) d.pending
  journals : d'.journals = d.journals.set e.hash
    { before := d.sale, queuedOrders := queuedOrders d auths }
  orders : d'.orders = d.orders
  ledger : d'.sale ≠ none
  written : Written C e.block.txs d.records d'.records
  indexable : ∀ tx ∈ e.block.txs, Indexable C tx

theorem putSaleOutputs_touched {txs txs' : List Transaction} (hsub : txs' ⊆ txs) (w : Records) :
    Touched C txs w ((txs'.flatMap (storedOutputs C height)).foldl Records.putOutput w) := by
  induction txs' generalizing w with
  | nil => exact .refl w
  | cons tx txs' ih =>
    obtain ⟨htx, hsub⟩ := List.cons_subset.mp hsub
    rw [List.flatMap_cons, List.foldl_append]
    exact (putOutputs_touched htx w).trans (ih hsub _)

theorem DB.Ready.activeCommit (hd : d.Ready C K) (hactive : d.sale ≠ none)
    (h : Committed C K d e d') : ∃ c auths, ActiveCommit C d e d' c auths := by
  obtain ⟨w, l, records, hparts⟩ := commit_parts h
  rcases hparts.sale_cases with ⟨hnone, -⟩ | ⟨p, sc, start, auths, hcommit⟩
  · exact absurd hnone hactive
  · cases hr : e.settlement with
    | none => exact absurd (hparts.unfunded hd.sound hparts.activationHeights hr).1 (hd.funded hactive)
    | some r =>
      obtain ⟨c, hextends⟩ := hparts.extends hd.sound hparts.activationHeights hr
      obtain ⟨hauthorized, hpaid⟩ := hcommit.authorized
      have hindexed := hparts.indexed
      unfold indexBlock at hindexed
      rw [if_pos hextends.protocol] at hindexed
      have hw := hcommit.eq
      -- first the outputs of the sales, then the indices of all transactions
      have htouched : Touched C e.block.txs d.records w.records := by
        rw [hw]
        exact putSaleOutputs_touched (List.filter_sublist.subset) d.records
      have himages : w.records.keyImages = d.records.keyImages := by
        rw [hw]
        exact foldl_putOutput_keyImages _ _
      have hwritten : Written C e.block.txs d.records d'.records := by
        have hrecords : d'.records = { records with keyImages := d'.records.keyImages } := by
          rw [hparts.eq]
        rw [hrecords]
        have hindices := Written.of_indices hindexed hparts.spent
        exact ⟨htouched.trans hindices.touched, himages ▸ hindices.keyImages⟩
      refine ⟨c, auths, hextends, hauthorized, hpaid, hcommit.fresh, ?_, ?_, ?_, ?_, ?_, hwritten,
        appendLPoDIndices_indexable hindexed⟩
      · rw [hparts.eq, hw]
      · rw [hparts.eq, hw]
      · rw [hparts.eq, hw]
      · rw [hparts.eq, hw]
      · rw [hparts.eq, hw]
        exact Option.some_ne_none _

end Aperod.Store
