import Aperod.Store.Equiv.Committed

/-!
# Selecting an earlier tip

`PutTip` undoes the blocks above the tip it selects: the sales by their journals, the pool of the
validators by the checkpoint of the tip, and the indices by the bodies of the blocks.  All it reads is
still stored when it is called (`Keeps`), so it succeeds, and the ledgers are those of the tip
(`DB.SameLedgers`).  The indices are so just if the blocks were `Undoable`: a rollback deletes what the
blocks wrote, and cannot bring back what they overwrote.
-/

namespace Aperod.Store

open Go Sale GoMap Lpod List DB

variable {C : Externals} {K : Lpod.Encodings} {M : Merchant} {o : RangeOrder} {d d1 d2 D w : DB}
  {e : Commit} {es : List Commit} {c : Lpod.Checkpoint} {auths : List SaleAuthorization}
  {height : UInt64} {txs txs' : List Transaction}

/-! ### What is still stored -/

/-- `D` still has what the rollback to `d` and below it reads. -/
structure Keeps (d D : DB) : Prop where
  stored : ∀ hash c, d.lpod.checkpoints.get hash = some c →
    D.lpod.checkpoints.get hash = some c ∧ D.lpod.blocks.get hash = d.lpod.blocks.get hash ∧
      D.journals.get hash = d.journals.get hash
  orders : D.orders = d.orders

theorem Keeps.refl (d : DB) : Keeps d d := ⟨fun _ _ h => ⟨h, rfl, rfl⟩, rfl⟩

theorem Keeps.trans (h : Keeps d d1) (h' : Keeps d1 D) : Keeps d D := by
  refine ⟨fun hash c hget => ?_, h'.orders.trans h.orders⟩
  obtain ⟨hc, hblock, hjournal⟩ := h.stored hash c hget
  obtain ⟨hc', hblock', hjournal'⟩ := h'.stored hash c hc
  exact ⟨hc', hblock'.trans hblock, hjournal'.trans hjournal⟩

theorem ActiveCommit.keeps (h : ActiveCommit C d e d2 c auths) : Keeps d d2 := by
  refine ⟨fun hash c0 hget => ?_, h.orders⟩
  have hne : hash ≠ e.hash := by
    rintro rfl
    rw [h.new] at hget
    cases hget
  refine ⟨?_, ?_, ?_⟩
  · rw [h.checkpoints, get_set_ne hne, hget]
  · rw [h.blocks, get_set_ne hne]
  · rw [h.journals, get_set_ne hne]

theorem ActiveCommit.stored (h : ActiveCommit C d e d2 c auths) (hkeeps : Keeps d2 D) :
    D.lpod.blocks.get e.hash = some e.block ∧
      D.journals.get e.hash = some { before := d.sale, queuedOrders := queuedOrders d auths } := by
  have hget : d2.lpod.checkpoints.get e.hash = some c := by
    rw [h.checkpoints, get_set_self]
  obtain ⟨-, hblock, hjournal⟩ := hkeeps.stored _ _ hget
  rw [hblock, hjournal, h.blocks, h.journals, get_set_self, get_set_self]
  exact ⟨rfl, rfl⟩

theorem ActiveCommit.bodyOf (h : ActiveCommit C d e d2 c auths) (hkeeps : Keeps d2 D)
    (text : String) : D.bodyOf C text e.hash e.height = .ok e.block := by
  unfold DB.bodyOf
  rw [(h.stored hkeeps).1]
  refine pass ?_ rfl
  rw [failIf_eq_ok, not_or, not_not, not_not]
  exact ⟨h.hash_eq, h.height_eq⟩

theorem Extends.height_pred (h : Extends C d e d2 c) : e.height - 1 = d.lpod.tip.2 := by
  have hsucc := h.height_succ
  apply UInt64.toNat_inj.mp
  rw [UInt64.toNat_sub_of_le]
  · show e.height.toNat - 1 = d.lpod.tip.2.toNat
    omega
  · rw [UInt64.le_iff_toNat_le]
    show 1 ≤ e.height.toNat
    omega

/-! ### Runs of commits -/

def commitTxs (es : List Commit) : List Transaction := es.flatMap (·.block.txs)

/-- Everything about a run of commits but the rollback. -/
structure Advance (C : Externals) (K : Lpod.Encodings) (d : DB) (es : List Commit) (d2 : DB) : Prop
    where
  ready : d2.Ready C K
  ledger : d2.sale ≠ none
  keeps : Keeps d d2
  height : d2.lpod.tip.2.toNat = d.lpod.tip.2.toNat + es.length
  activationHeights : d2.activationHeights = d.activationHeights
  written : Written C (commitTxs es) d.records d2.records

theorem advance_of_run (hd : d.Ready C K) (hactive : d.sale ≠ none)
    (hrun : Run (Committed C K) d es d2) : Advance C K d es d2 := by
  refine hrun.history (Advance C K d) ?_
    ⟨hd, hactive, .refl d, rfl, rfl, .nil _⟩
  intro past d1 e d2 _ h hstep
  obtain ⟨c, auths, hcommit⟩ := h.ready.activeCommit h.ledger hstep
  refine ⟨h.ready.commit hstep, hcommit.ledger, h.keeps.trans hcommit.keeps, ?_, ?_, ?_⟩
  · have hheight := h.height
    have hsucc := hcommit.height_succ
    rw [hcommit.tip, length_append, length_singleton]
    show e.height.toNat = _
    omega
  · rcases hcommit.activation with ⟨hempty, -⟩ | ⟨-, -, hsame⟩
    · exact absurd hempty (h.ready.funded h.ledger)
    · rw [hsame, h.activationHeights]
  · have htxs : commitTxs (past ++ [e]) = commitTxs past ++ e.block.txs := by
      simp [commitTxs]
    rw [htxs]
    exact h.written.append hcommit.written

/-! ### Sales -/

theorem requeueOrders_eq_ok (w : DB) {ids : List Hash32} {i : Nat}
    (hpaid : ∀ id ∈ ids, ∃ order, D.saleOrder id = .ok (some order) ∧ order.payment ≠ 0) :
    loop (fun _ => D.requeueOrder) i ids w =
      .ok { w with pending := ids.foldl (fun m id => m.set id id) w.pending } := by
  induction ids generalizing i w with
  | nil => rfl
  | cons id ids ih =>
    obtain ⟨⟨order, horder, hpayment⟩, hpaid⟩ := forall_mem_cons.mp hpaid
    refine loop_cons_eq_ok.mpr ⟨{ w with pending := w.pending.set id id }, ?_, ih _ hpaid⟩
    refine bind_ok horder <| pass ?_ rfl
    simpa using hpayment

/-- The sales of a block lose their fences and their outputs. -/
theorem exists_undoSales (height : UInt64) (w : DB) {i : Nat} (hsub : txs ⊆ txs')
    (h : Authorized C (txs.filter (·.isSale)) auths) :
    ∃ w', loop (fun _ => undoSale C height) i txs w = .ok w' ∧
      w' = { w with
        fences := (fenceKeys auths).foldl (fun m k => m.del k) w.fences
        txLocations := w'.txLocations
        records := w'.records } ∧
      Touched C txs' w.records w'.records ∧ w'.records.keyImages = w.records.keyImages := by
  induction txs generalizing i w auths with
  | nil =>
    cases h
    exact ⟨w, rfl, rfl, .refl _, rfl⟩
  | cons tx txs ih =>
    obtain ⟨htx, hsub⟩ := cons_subset.mp hsub
    by_cases hsale : tx.isSale = true
    · rw [filter_cons_of_pos hsale] at h
      obtain ⟨a, rest, ha, hrest, rfl⟩ := forall₂_cons_left_iff.mp h
      have hstep : undoSale C height tx w = .ok { w with
          fences := (w.fences.del (.order, a.order)).del (.payment, a.payment)
          txLocations := w.txLocations.del (tx.hash C)
          records := (storedOutputs C height tx).foldl Records.deleteOutput w.records } := by
        unfold undoSale
        rw [if_neg (not_not.mpr hsale)]
        exact bind_ok ha rfl
      obtain ⟨w', hloop, heq, htouched, himages⟩ := ih _ hsub hrest
      refine ⟨w', loop_cons_eq_ok.mpr ⟨_, hstep, hloop⟩, ?_, ?_, ?_⟩
      · rw [heq]
        rfl
      · exact (deleteOutputs_touched htx w.records).trans htouched
      · rw [himages]
        rw [foldl_deleteOutput]
    · rw [filter_cons_of_neg hsale] at h
      obtain ⟨w', hloop, hrest⟩ := ih w hsub h
      refine ⟨w', loop_cons_eq_ok.mpr ⟨w, ?_, hloop⟩, hrest⟩
      unfold undoSale
      rw [if_pos hsale]

/-- The batch `w'` after the sales of `txs` are taken back from `w`, down to the tip of `d`. -/
structure Unsold (C : Externals) (txs : List Transaction) (d w w' : DB) : Prop where
  fences : w'.fences = d.fences
  pending : w'.pending = d.pending
  lpod : w'.lpod = { w.lpod with heights := w'.lpod.heights }
  heights : ∀ height ≤ d.lpod.tip.2, w'.lpod.heights.get height = w.lpod.heights.get height
  touched : Touched C txs w.records w'.records
  keyImages : w'.records.keyImages = w.records.keyImages

theorem ActiveCommit.ledgers_before (hd : d.Ready C K) (h : ActiveCommit C d e d2 c auths) :
    (fenceKeys auths).foldl (fun m k => m.del k) d2.fences = d.fences ∧
      (queuedOrders d auths).foldl (fun m id => m.set id id) d2.pending = d.pending := by
  constructor
  · ext k : 1
    rw [get_delKeys, h.fences, get_setKeys]
    by_cases hk : k ∈ fenceKeys auths
    · rw [if_pos hk, h.fresh k hk]
    · rw [if_neg hk, if_neg hk]
  · ext id : 1
    rw [h.pending]
    apply get_foldl_set
    · intro id hid
      obtain ⟨hauth, hhas⟩ := mem_filter.mp hid
      obtain ⟨a, ha, rfl⟩ := mem_map.mp hauth
      exact hd.queued _ hhas (h.fresh _ (mem_fenceKeys.mpr ⟨a, ha, Or.inl rfl⟩))
    · intro hnot
      rw [get_delKeys, if_neg]
      exact fun hid => hnot id hid rfl

theorem exists_undoSaleBlock (hd : d.Ready C K) (h : ActiveCommit C d e d2 c auths)
    (hkeeps : Keeps d2 D) (hfences : w.fences = d2.fences) (hpending : w.pending = d2.pending) :
    ∃ w', D.undoSaleBlock C e.hash e.height
        { before := d.sale, queuedOrders := queuedOrders d auths } w = .ok (d.lpod.tip.1, w') ∧
      Unsold C e.block.txs d w w' := by
  have hpaid : ∀ id ∈ queuedOrders d auths, ∃ order, D.saleOrder id = .ok (some order) ∧
      order.payment ≠ 0 := by
    intro id hid
    obtain ⟨order, horder, hpayment⟩ := h.paid id hid
    refine ⟨order, ?_, hpayment⟩
    unfold saleOrder at horder ⊢
    rw [hkeeps.orders, h.orders]
    exact horder
  have hloop := requeueOrders_eq_ok w (i := 0) hpaid
  obtain ⟨w2, hundo, heq, htouched, himages⟩ := exists_undoSales e.height
    { w with pending := (queuedOrders d auths).foldl (fun m id => m.set id id) w.pending }
    (List.Subset.refl _) h.authorized
  obtain ⟨hfences', hpending'⟩ := h.ledgers_before hd
  refine ⟨{ w2 with
    lpod := { w2.lpod with heights := w2.lpod.heights.del e.height }
    journals := w2.journals.del e.hash }, ?_, ?_⟩
  · refine bind_ok (h.bodyOf hkeeps _) <| bind_ok hloop <|
      bind_ok hundo ?_
    rw [h.prevHash]
  · refine ⟨?_, ?_, ?_, ?_, htouched, himages⟩
    · rw [heq]
      rw [hfences, hfences']
    · rw [heq]
      rw [hpending, hpending']
    · rw [heq]
    · intro height' hle
      rw [heq]
      apply get_del_ne
      rintro rfl
      have hsucc := h.height_succ
      have hle' := UInt64.le_iff_toNat_le.mp hle
      omega

theorem Unsold.trans {w1 w' : DB} (h : Unsold C txs d1 w w1) (h' : Unsold C txs' d w1 w')
    (hle : d.lpod.tip.2 ≤ d1.lpod.tip.2) : Unsold C (txs' ++ txs) d w w' := by
  refine ⟨h'.fences, h'.pending, ?_, fun height hheight => ?_, ?_, h'.keyImages.trans h.keyImages⟩
  · rw [h'.lpod, h.lpod]
  · rw [h'.heights height hheight, h.heights height (UInt64.le_trans hheight hle)]
  · exact (h.touched.mono (subset_append_right _ _)).trans
      (h'.touched.mono (subset_append_left _ _))

theorem commitTxs_concat (es : List Commit) (e : Commit) :
    commitTxs (es ++ [e]) = commitTxs es ++ e.block.txs := by
  simp [commitTxs]

theorem Advance.tip_le (h : Advance C K d es d2) : d.lpod.tip.2 ≤ d2.lpod.tip.2 := by
  rw [UInt64.le_iff_toNat_le, h.height]
  exact Nat.le_add_right _ _

section

variable (hd : d.Ready C K)
include hd

theorem exists_restoreSaleFrom (hactive : d.sale ≠ none)
    (hrun : Run (Committed C K) d es d2) (hkeeps : Keeps d2 D) (hfences : w.fences = d2.fences)
    (hpending : w.pending = d2.pending) :
    ∃ w', D.restoreSaleFrom C d.lpod.tip.1 d.lpod.tip.2 es.length d2.lpod.tip.1 d2.lpod.tip.2 d2.sale
        w = .ok w' ∧ w'.sale = d.sale ∧ Unsold C (commitTxs es) d w w' := by
  induction es using reverseRecOn generalizing d2 w with
  | nil =>
    cases hrun
    refine ⟨{ w with sale := d.sale }, ?_, rfl, hfences, hpending, rfl, fun _ _ => rfl, .refl _, rfl⟩
    refine pass ?_ rfl
    rw [failIf_eq_ok, not_not]
  | append_singleton es e ih =>
    obtain ⟨d1, hrun1, hstep⟩ := hrun.concat_inv
    have hadvance := advance_of_run hd hactive hrun1
    obtain ⟨c, auths, hcommit⟩ := hadvance.ready.activeCommit hadvance.ledger hstep
    obtain ⟨w1, hundo, hunsold⟩ :=
      exists_undoSaleBlock hadvance.ready hcommit hkeeps hfences hpending
    obtain ⟨w', hloop, hsale, hrest⟩ := ih hrun1 (hcommit.keeps.trans hkeeps) hunsold.fences
      hunsold.pending
    refine ⟨w', ?_, hsale, ?_⟩
    · rw [hcommit.tip, length_append, length_singleton, restoreSaleFrom,
        (hcommit.stored hkeeps).2]
      refine bind_ok hundo <| pass ?_ ?_
      · -- the ledger of the journal is that of the tip below
        obtain ⟨s, hs⟩ := Option.ne_none_iff_exists'.mp hadvance.ledger
        have hclock := hadvance.ready.clock s hs
        rw [hcommit.height_pred, hs, hclock]
        exact failIf_eq_ok.mpr fun h => h.elim (fun h => h rfl) (fun h => h rfl)
      · rw [hcommit.height_pred]
        exact hloop
    · rw [commitTxs_concat]
      exact hunsold.trans hrest hadvance.tip_le

theorem exists_restoreSale (hactive : d.sale ≠ none)
    (hrun : Run (Committed C K) d es D) :
    ∃ w, D.restoreSale C d.lpod.tip.1 d.lpod.tip.2 D = .ok w ∧ w.sale = d.sale ∧
      Unsold C (commitTxs es) d D w := by
  have hadvance := advance_of_run hd hactive hrun
  obtain ⟨s, hs⟩ := Option.ne_none_iff_exists'.mp hadvance.ledger
  obtain ⟨w, hloop, hsale, hunsold⟩ := exists_restoreSaleFrom hd hactive hrun (.refl D) rfl rfl
  refine ⟨w, ?_, hsale, hunsold⟩
  have hlength : D.lpod.tip.2.toNat - d.lpod.tip.2.toNat = es.length := by
    have hheight := hadvance.height
    omega
  unfold restoreSale
  rw [hs] at hloop ⊢
  refine pass ?_ ?_
  · have hclock := hadvance.ready.clock s hs
    rw [failIf_eq_ok]
    show ¬ (s.hash ≠ D.lpod.tip.1 ∨ s.height ≠ D.lpod.tip.2 ∨ d.lpod.tip.2 > D.lpod.tip.2)
    rintro (h | h | h)
    · exact h (by rw [hclock])
    · exact h (by rw [hclock])
    · exact absurd h (UInt64.not_lt.mpr hadvance.tip_le)
  · rw [hlength]
    exact hloop

/-! ### The pool of the validators -/

theorem DB.Ready.tip_checkpoint (hactive : d.sale ≠ none) :
    ∃ c a, d.lpod.checkpoints.get d.lpod.tip.1 = some c ∧ c.state.lastHeight = d.lpod.tip.2 ∧
      Lpod.Kept C K d.lpod d.lpod.tip.1 c a := by
  rcases hd.sound.tip with hempty | ⟨c, hc, hheight⟩
  · exact absurd hempty (hd.funded hactive)
  · obtain ⟨a, hkept⟩ := hd.sound.kept _ _ hc
    exact ⟨c, a, hc, hheight, hkept⟩

theorem exists_restoreLPoDPool (hactive : d.sale ≠ none)
    (h : Advance C K d es D) :
    D.restoreLPoDPool C K o d.lpod.tip.1 d.lpod.tip.2 w =
      .ok { w with lpod := { w.lpod with stakingPool := d.lpod.stakingPool } } := by
  obtain ⟨c, a, hc, hheight, hkept⟩ := hd.tip_checkpoint hactive
  obtain ⟨-, first, hfirst, hle⟩ := hd.active (hd.funded hactive)
  have hstored := (h.keeps.stored _ _ hc).1
  have hload : D.lpodView.lpodCheckpoint C K o d.lpod.tip.1 = .ok (some c) := by
    rw [(lpodView_sound h.ready.sound).lpodCheckpoint]
    exact congrArg Except.ok hstored
  have hselected : ((some c).filter (·.state.lastHeight = d.lpod.tip.2)).bind (·.allocation) =
      some a := by
    simp [Option.filter, hheight, hkept.allocation]
  have hpool : D.poolAt C K o d.lpod.tip.1 d.lpod.tip.2 = .ok a.validatorRemaining := by
    unfold poolAt
    simp only [hload, hselected]
  unfold restoreLPoDPool
  rw [h.activationHeights, hfirst, hd.pool c a hc hkept.allocation]
  dsimp only
  rw [if_pos (UInt64.le_iff_toNat_le.mpr hle)]
  exact bind_ok hpool rfl

/-! ### Indices -/

theorem exists_rollbackIndicesFrom (hactive : d.sale ≠ none)
    (hrun : Run (Committed C K) d es d2) (hkeeps : Keeps d2 D) :
    ∃ w', D.rollbackIndicesFrom C d.lpod.tip.1 es.length d2.lpod.tip.1 d2.lpod.tip.2 w = .ok w' ∧
      w' = { w with
        records := w'.records
        lpod := { w.lpod with heights := w'.lpod.heights } } ∧
      (∀ height ≤ d.lpod.tip.2, w'.lpod.heights.get height = w.lpod.heights.get height) ∧
      Erased C (commitTxs es) w.records w'.records := by
  induction es using reverseRecOn generalizing d2 w with
  | nil =>
    cases hrun
    refine ⟨w, pass ?_ rfl, rfl, fun _ _ => rfl, .nil _⟩
    rw [failIf_eq_ok, not_not]
  | append_singleton es e ih =>
    obtain ⟨d1, hrun1, hstep⟩ := hrun.concat_inv
    have hadvance := advance_of_run hd hactive hrun1
    obtain ⟨c, auths, hcommit⟩ := hadvance.ready.activeCommit hadvance.ledger hstep
    obtain ⟨records, hindex, herased⟩ := exists_appendLPoDIndices hcommit.indexable w.records
    obtain ⟨w', hloop, heq, hheights, hrest⟩ := ih hrun1 (hcommit.keeps.trans hkeeps)
      (w := { w with
        records
        lpod := { w.lpod with heights := w.lpod.heights.del e.height } })
    refine ⟨w', ?_, ?_, fun height hheight => ?_, ?_⟩
    · rw [hcommit.tip, length_append, length_singleton, rollbackIndicesFrom]
      refine bind_ok (hcommit.bodyOf hkeeps _) <| bind_ok hindex ?_
      rw [hcommit.height_pred, hcommit.prevHash]
      exact hloop
    · rw [heq]
    · rw [hheights height hheight]
      apply get_del_ne
      rintro rfl
      have hsucc := hcommit.height_succ
      have hle := UInt64.le_iff_toNat_le.mp (UInt64.le_trans hheight hadvance.tip_le)
      omega
    · refine (herased.append hrest).of_mem_iff fun tx => ?_
      rw [commitTxs_concat, mem_append, mem_append, or_comm]

theorem exists_rollbackLPoDIndices (hactive : d.sale ≠ none)
    (hrun : Run (Committed C K) d es D) :
    ∃ w', D.rollbackLPoDIndices C d.lpod.tip.1 d.lpod.tip.2 w = .ok w' ∧
      w' = { w with
        records := w'.records
        lpod := { w.lpod with heights := w'.lpod.heights } } ∧
      (∀ height ≤ d.lpod.tip.2, w'.lpod.heights.get height = w.lpod.heights.get height) ∧
      Erased C (commitTxs es) w.records w'.records := by
  have hadvance := advance_of_run hd hactive hrun
  obtain ⟨⟨v, hv, hbinding⟩, -⟩ := hadvance.ready.active (hadvance.ready.funded hadvance.ledger)
  obtain ⟨w', hloop, hrest⟩ := exists_rollbackIndicesFrom hd hactive hrun (.refl D)
  refine ⟨w', ?_, hrest⟩
  have hbound : D.lpod.bindings.has 1 ∨ D.lpod.bindings.has 2 ∨ D.lpod.bindings.has 3 := by
    simp only [mem_cons, not_mem_nil, or_false] at hv
    rcases hv with rfl | rfl | rfl
    · exact Or.inl hbinding
    · exact Or.inr (Or.inl hbinding)
    · exact Or.inr (Or.inr hbinding)
  have hlength : D.lpod.tip.2.toNat - d.lpod.tip.2.toNat = es.length := by
    have hheight := hadvance.height
    omega
  unfold rollbackLPoDIndices
  rw [if_neg (not_not.mpr hbound)]
  refine pass ?_ ?_
  · rw [failIf_eq_ok]
    exact UInt64.not_lt.mpr hadvance.tip_le
  · rw [hlength]
    exact hloop

/-! ### `PutTip` -/

/-- What belongs to the selected tip, the indices apart. -/
structure DB.SameLedgers (C : Externals) (K : Lpod.Encodings) (d d' : DB) : Prop where
  tip : d'.lpod.tip = d.lpod.tip
  sale : d'.sale = d.sale
  fences : d'.fences = d.fences
  pending : d'.pending = d.pending
  checkpoint : ∀ o, d'.lpodView.loadCheckpoint C K o = d.lpodView.loadCheckpoint C K o
  pool : d'.lpod.stakingPool = d.lpod.stakingPool

/-- The checkpoint of the tip of `d` loads in a database that still has it, and the canonical hashes
up to the tip. -/
theorem loadCheckpoint_selected {l : Lpod.DB} (hactive : d.sale ≠ none)
    (h : Advance C K d es D) (hcheckpoints : l.checkpoints = D.lpod.checkpoints)
    (hblocks : l.blocks = D.lpod.blocks) (htip : l.tip = d.lpod.tip)
    (hheights : ∀ height ≤ d.lpod.tip.2, l.heights.get height = D.lpod.heights.get height) :
    l.loadCheckpoint C K o = d.lpodView.loadCheckpoint C K o := by
  obtain ⟨c, a0, hc, hheight, -⟩ := hd.tip_checkpoint hactive
  obtain ⟨a, hkept⟩ := h.ready.sound.kept _ _ (h.keeps.stored _ _ hc).1
  have hfunding : a.fundingHeight ≤ d.lpod.tip.2 := by
    rw [← hheight]
    exact hkept.height_le
  have hstored : ∀ k, l.checkpoints.get k = D.lpod.checkpoints.get k ∧
      l.blocks.get k = D.lpod.blocks.get k := by
    intro k
    rw [hcheckpoints, hblocks]
    exact ⟨rfl, rfl⟩
  have hload : l.lpodCheckpoint C K o d.lpod.tip.1 = .ok (some c) := by
    refine (hkept.of_same (fun k _ => hstored k) (hheights _ hfunding)).lpodCheckpoint
      fun fc hfc => ?_
    rw [hcheckpoints] at hfc
    obtain ⟨b, fc', fa, hf⟩ := hkept.funding
    obtain ⟨fa', hkept'⟩ := h.ready.sound.kept _ _ hfc
    -- the allocation of the funding record is of the same grant, so it has the same funding height
    have hsame : fa'.fundingHeight = a.fundingHeight := by
      rw [hf.record] at hfc
      cases hfc
      have heq : fa' = fa := Option.some.inj (hkept'.allocation.symm.trans hf.allocation)
      rw [heq, hf.sameGrant]
    exact ⟨fa', hkept'.of_same (fun k _ => hstored k) (hheights _ (hsame ▸ hfunding))⟩
  rw [(lpodView_sound hd.sound).loadCheckpoint]
  show _ = Except.ok (d.lpod.checkpoints.get d.lpod.tip.1)
  rw [hc]
  refine bind_eq_ok.mpr ⟨some c, ?_, pass ?_ rfl⟩
  · rw [htip]
    exact hload
  · rw [failIf_eq_ok, htip]
    rintro ⟨c', hc', hne⟩
    cases hc'
    exact hne hheight

end

/-- **`PutTip` gives back the ledgers of the tip, and the indices of undoable blocks.**  Let `d` be a
database with a sale ledger that commits and order operations lead to, and `D` what any further
commits make of it.  Selecting the tip of `d` again succeeds.  It restores the sale ledger, the fences,
the queue, the checkpoint and the pool; the key images, outputs, ring members and spent outputs are
those of `d` just if nothing was stored there under a key of the blocks, and the key images of their
stake deposits were spent already or are those of inputs as well. -/
theorem putTip_restores_iff {d0 : DB} {evs : List Event} (hfresh : d0.Fresh)
    (hreached : Run (Step C K M) d0 evs d) (hactive : d.sale ≠ none)
    (hrun : Run (Committed C K) d es D) (o : RangeOrder) :
    ∃ d', D.putTip C K o d.lpod.tip.1 d.lpod.tip.2 = .ok d' ∧ d.SameLedgers C K d' ∧
      (d'.records = d.records ↔ Undoable C d.records (commitTxs es)) := by
  have hd : d.Ready C K :=
    hreached.invariant (DB.Ready C K) (fun _ _ _ _ hready hstep => hready.step hstep) hfresh.ready
  have hadvance := advance_of_run hd hactive hrun
  obtain ⟨w1, hrestore, hsale, hunsold⟩ := exists_restoreSale hd hactive hrun
  have hpool := exists_restoreLPoDPool (o := o) (w := w1) hd hactive hadvance
  obtain ⟨w2, hrollback, heq, hheights, herased⟩ := exists_rollbackLPoDIndices
    hd hactive hrun
  refine ⟨{ w2 with lpod := { w2.lpod with tip := d.lpod.tip } }, ?_, ?_, ?_⟩
  · exact bind_ok hrestore <| bind_ok hpool <| bind_ok hrollback rfl
  · have hlpod : w2.lpod = { D.lpod with
        heights := w2.lpod.heights
        stakingPool := d.lpod.stakingPool } := by
      rw [heq, hunsold.lpod]
    refine ⟨rfl, ?_, ?_, ?_, fun o => ?_, ?_⟩
    · rw [heq]
      exact hsale
    · rw [heq]
      exact hunsold.fences
    · rw [heq]
      exact hunsold.pending
    · refine loadCheckpoint_selected hd hactive hadvance ?_ ?_ rfl fun height hle => ?_
      · show w2.lpod.checkpoints = D.lpod.checkpoints
        rw [hlpod]
      · show w2.lpod.blocks = D.lpod.blocks
        rw [hlpod]
      · show w2.lpod.heights.get height = D.lpod.heights.get height
        rw [hheights height hle]
        exact hunsold.heights height hle
    · show w2.lpod.stakingPool = d.lpod.stakingPool
      rw [hlpod]
  · exact eq_iff_undoable hadvance.written hunsold.touched hunsold.keyImages herased

theorem saleDB_fresh : saleDB.Fresh := ⟨rfl, rfl, rfl, rfl⟩

/-- On the transparent chain a block that pays to a new one-time key is undone exactly. -/
theorem spend_to_new_key_undone :
    ∃ d es D d', d.sale ≠ none ∧ Run (Committed lpodHashing saleEncodings) d es D ∧
      es.length = 1 ∧
      D.putTip lpodHashing saleEncodings .sorted d.lpod.tip.1 d.lpod.tip.2 = .ok d' ∧
      d.SameLedgers lpodHashing saleEncodings d' ∧ d'.records = d.records ∧
      Undoable lpodHashing d.records (commitTxs es) := by
  obtain ⟨⟨d, D, d'⟩, hrewound, hactive, hrecords⟩ : ∃ p, rewoundDB 7 = .ok p ∧
      p.1.sale ≠ none ∧ p.2.2.records = p.1.records := exists_ok_of_test (by decide +kernel)
  obtain ⟨evs, e, hreached, hrun, hput⟩ := rewoundDB_run hrewound
  obtain ⟨d'', hput', hledgers, hiff⟩ :=
    putTip_restores_iff saleDB_fresh hreached hactive hrun .sorted
  rw [hput] at hput'
  cases hput'
  exact ⟨d, [e], D, d', hactive, hrun, rfl, hput, hledgers, hrecords, hiff.mp hrecords⟩

/-- A block that pays to the one-time key of an output that was sold before: when it is undone, the
ring member of the sold output is gone. -/
theorem sold_ring_member_lost :
    ∃ evs d es D d', saleDB.Fresh ∧
      Run (Step lpodHashing saleEncodings sampleMerchant) saleDB evs d ∧ d.sale ≠ none ∧
      Run (Committed lpodHashing saleEncodings) d es D ∧
      D.putTip lpodHashing saleEncodings .sorted d.lpod.tip.1 d.lpod.tip.2 = .ok d' ∧
      (d.records.ringMembers.get 9).isSome ∧ d'.records.ringMembers.get 9 = none := by
  obtain ⟨⟨d, D, d'⟩, hrewound, hactive, hbefore, hafter⟩ : ∃ p, rewoundDB 9 = .ok p ∧
      p.1.sale ≠ none ∧ (p.1.records.ringMembers.get 9).isSome ∧
      p.2.2.records.ringMembers.get 9 = none := exists_ok_of_test (by decide +kernel)
  obtain ⟨evs, e, hreached, hrun, hput⟩ := rewoundDB_run hrewound
  exact ⟨evs, d, [e], D, d', saleDB_fresh, hreached, hactive, hrun, hput, hbefore, hafter⟩

end Aperod.Store
