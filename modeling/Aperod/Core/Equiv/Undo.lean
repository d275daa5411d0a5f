import Aperod.Core.Equiv.ChainRollback
import Aperod.Core.Equiv.Rollback
import Aperod.Core.Equiv.Staking

/-!
# Undoing a block outside the UTXO journal

Two more changes of a block that is refused late have to be undone:

* `RollbackLastBlock` takes the block out of the chain again (`rollbackLastBlock_addBlock`).  It
  gives back the chain `AddBlock` started from if that chain indexed its tip and the block that left
  the window (`Stores`), and knew nothing of the new block (`Undoable`).
* `UnmarkStaked` puts the outputs burned by stake deposits back and enters each in the index
  (`Burned.unmark_all_reindex`), which is as before if they were the indexed ones
  (`reindex_eq_self_iff`).  The calls come after `RollbackBlock`, not before it, so the relation
  `Burned` between a set and the set with the burned outputs is carried through the rollback
  (`Burned.rollbackBlock`).
-/

namespace Aperod

open Go GoMap List

variable {C : Externals}

/-! ### The chain -/

namespace Chain

variable {c c' : Chain} {b : Block}

/-- The chain holds `b` under its hash and its height, and its transactions point to it. -/
structure Stores (C : Externals) (c : Chain) (b : Block) : Prop where
  blocks : c.blocks.get (b.hash C) = some b
  byHeight : c.byHeight.get b.header.height = some b
  txIndex : indexTxs C b c.txIndex = c.txIndex

/-- What the chain must satisfy for `RollbackLastBlock` to undo `AddBlock` of `b`. -/
structure Undoable (C : Externals) (c : Chain) (b : Block) : Prop where
  window : 0 < c.maxInMemoryBlocks
  height_ne_zero : b.header.height ≠ 0
  block_fresh : c.blocks.get (b.hash C) = none
  height_fresh : c.byHeight.get b.header.height = none
  txs_fresh : ∀ tx ∈ b.txs, c.txIndex.get (tx.hash C) = none
  tip_stored : ∀ tip, c.tip = some tip → c.Stores C tip
  /-- The block that leaves the window stands under its own height. -/
  evicted_stored : ∀ old, c.maxInMemoryBlocks ≤ b.header.height →
    c.byHeight.get (b.header.height - c.maxInMemoryBlocks) = some old →
    old.header.height = b.header.height - c.maxInMemoryBlocks ∧ c.Stores C old

/-- Entering blocks the chain stores into an empty map puts what the chain holds at their keys. -/
theorem get_enter_stored {K V : Type} [DecidableEq K] {enter : Block → GoMap K V → GoMap K V}
    {keys : Block → List K} {m : GoMap K V} {k : K} {bs : List Block}
    (henter : ∀ x, GoMap.Overwrites (enter x) (keys x)) (hself : ∀ x ∈ bs, enter x m = m)
    (hk : (∃ x ∈ bs, k ∈ keys x) ∨ m.get k = none) :
    m.get k = (bs.foldl (fun m x => enter x m) ∅).get k := by
  have hfold := GoMap.Overwrites.foldl henter bs
  have hkeep : bs.foldl (fun m x => enter x m) m = m :=
    foldlRecOn (motive := (· = m)) bs _ rfl fun n hn x hx => hn ▸ hself x hx
  by_cases hmem : k ∈ bs.flatMap keys
  · exact hfold.eq_self_iff.mp hkeep k hmem
  · rw [hfold.get_of_not_mem hmem, get_empty]
    rcases hk with ⟨x, hx, hkx⟩ | hnone
    · exact absurd (mem_flatMap.mpr ⟨x, hx, hkx⟩) hmem
    · exact hnone

theorem leaving_eq_some (hc : c.Undoable C b) {n : Nat} {old : Block}
    (h : c.leaving b = some (n, old)) : n = old.header.height ∧ c.Stores C old := by
  have hwindow := hc.window
  unfold leaving at h
  split_ifs at h with hge
  obtain ⟨old', hget, heq⟩ := Option.map_eq_some_iff.mp h
  cases heq
  rw [get_set_ne (by omega)] at hget
  obtain ⟨hheight, hstored⟩ := hc.evicted_stored old hge hget
  exact ⟨hheight.symm, hstored⟩

theorem Undoable.stores (hc : c.Undoable C b) {x : Block} (h : x ∈ c.restored b) : c.Stores C x := by
  rcases mem_append.mp h with htip | hold
  · exact hc.tip_stored x (Option.mem_toList.mp htip)
  · rw [Option.mem_toList, Option.filter_eq_some_iff] at hold
    obtain ⟨e, he, rfl⟩ := Option.map_eq_some_iff.mp hold.1
    exact (leaving_eq_some hc he).2

theorem leaving_restored {e : Nat × Block} (h : c.leaving b = some e) : e.2 ∈ c.restored b := by
  unfold restored
  rw [h]
  by_cases htip : c.tip = some e.2
  · exact mem_append_left _ (Option.mem_toList.mpr htip)
  · refine mem_append_right _ (Option.mem_toList.mpr ?_)
    rw [Option.filter_eq_some_iff]
    exact ⟨rfl, decide_eq_true htip⟩

theorem restored_of_touched {x : Block} (h : x ∈ c.touched b) : x = b ∨ x ∈ c.restored b := by
  rcases mem_touched.mp h with h | h | h
  · exact .inl h
  · obtain ⟨e, he, rfl⟩ := mem_map.mp h
    exact .inr (leaving_restored (Option.mem_toList.mp he))
  · exact .inr h

theorem Undoable.reverted_eq (hc : c.Undoable C b) : c.reverted C b = c := by
  rw [reverted_eq_self_iff, reverted_blocks_iff, reverted_byHeight_iff, reverted_txIndex_iff]
  obtain ⟨hblocks, hheight, htx⟩ := remnant_maps
  refine ⟨fun x hx => ?_, fun n hn => ?_, fun x hx h hh => ?_⟩
  · rw [hblocks]
    refine get_enter_stored (fun x => overwrites_set (x.hash C) x)
      (fun y hy => set_eq_self_iff.mpr (hc.stores hy).blocks) ?_
    rcases restored_of_touched hx with rfl | hx
    · exact .inr hc.block_fresh
    · exact .inl ⟨x, hx, mem_singleton.mpr rfl⟩
  · rw [hheight]
    refine get_enter_stored (fun x => overwrites_set x.header.height x)
      (fun y hy => set_eq_self_iff.mpr (hc.stores hy).byHeight) ?_
    unfold touchedHeights at hn
    simp only [cons_append, mem_cons, mem_append, mem_map] at hn
    rcases hn with rfl | ⟨⟨m, old⟩, he, rfl⟩ | ⟨x, hx, rfl⟩
    · exact .inr hc.height_fresh
    · have hleaving := Option.mem_toList.mp he
      refine .inl ⟨old, leaving_restored hleaving, ?_⟩
      exact mem_singleton.mpr (leaving_eq_some hc hleaving).1
    · exact .inl ⟨x, hx, mem_singleton.mpr rfl⟩
  · rw [htx]
    refine get_enter_stored overwrites_indexTxs (fun y hy => (hc.stores hy).txIndex) ?_
    rcases restored_of_touched hx with rfl | hx
    · obtain ⟨tx, hmem, rfl⟩ := mem_map.mp hh
      exact .inr (hc.txs_fresh tx hmem)
    · exact .inl ⟨x, hx, hh⟩

/-- **`RollbackLastBlock` undoes `AddBlock`.** -/
theorem rollbackLastBlock_addBlock (hc : c.Undoable C b) (h : c.addBlock C b = .ok c') :
    c'.rollbackLastBlock C b (c.lastAdd C b) = .ok c := by
  rw [rollbackLastBlock_of_addBlock h, if_neg hc.height_ne_zero, hc.reverted_eq]

end Chain

/-! ### Burned outputs -/

namespace UTXOSet

variable {s t t' : UTXOSet} {k : UTXOKey} {B : List (UTXOKey × UTXO)}

/-- An output recorded under `k` is indexed by its one-time key. -/
def Indexed (s : UTXOSet) (k : UTXOKey) : Prop :=
  ∀ u, s.utxos.get k = some u → s.byPubKey.get u.oneTimePub = some u

/-- The set `t` is `s` after the outputs `B` were burned: it may differ in them, their index and the
staked outputs. -/
structure Burned (s : UTXOSet) (B : List (UTXOKey × UTXO)) (t : UTXOSet) : Prop where
  keyImages : t.keyImages = s.keyImages
  pool : t.spentPubKeys = s.spentPubKeys
  journal : t.rollbackJournal = s.rollbackJournal
  ringMembers : t.ringMembers = s.ringMembers
  activation : t.clsagActivationHeight = s.clsagActivationHeight
  recent : t.clsagRecentOutputs = s.clsagRecentOutputs
  utxos : ∀ k, k ∉ B.map Prod.fst → t.utxos.get k = s.utxos.get k
  byPubKey : ∀ m, m ∉ B.map (·.2.oneTimePub) → t.byPubKey.get m = s.byPubKey.get m
  staked : ∀ e ∈ B, t.stakedUTXOs.get e.1 = some e.2
  unstaked : ∀ k, k ∉ B.map Prod.fst → t.stakedUTXOs.get k = s.stakedUTXOs.get k

/-- The outputs `B` are active in `s`, and none is staked. -/
structure Present (s : UTXOSet) (B : List (UTXOKey × UTXO)) : Prop where
  nodup : (B.map Prod.fst).Nodup
  active : ∀ e ∈ B, s.utxos.get e.1 = some e.2
  unstaked : ∀ e ∈ B, s.stakedUTXOs.get e.1 = none

/-- The outputs `B` are active and indexed in `s`, and none is staked. -/
structure Held (s : UTXOSet) (B : List (UTXOKey × UTXO)) : Prop where
  nodup : (B.map Prod.fst).Nodup
  active : ∀ e ∈ B, s.utxos.get e.1 = some e.2
  indexed : ∀ e ∈ B, s.byPubKey.get e.2.oneTimePub = some e.2
  unstaked : ∀ e ∈ B, s.stakedUTXOs.get e.1 = none

theorem Held.present (h : Held s B) : Present s B := ⟨h.nodup, h.active, h.unstaked⟩

/-- The index after the outputs `us` were entered in it, in this order. -/
def reindex (s : UTXOSet) (us : List UTXO) : UTXOSet :=
  { s with byPubKey := us.foldl (fun m u => m.set u.oneTimePub u) s.byPubKey }

/-- Every output of the list is the indexed one, unless a later one has the same key. -/
def KeepsIndex (s : UTXOSet) : List UTXO → Prop
  | [] => True
  | u :: us =>
    (u.oneTimePub ∈ us.map (·.oneTimePub) ∨ s.byPubKey.get u.oneTimePub = some u) ∧
      s.KeepsIndex us

theorem reindex_eq_self_iff (us : List UTXO) : s.reindex us = s ↔ s.KeepsIndex us := by
  have hindex : s.reindex us = s ↔
      us.foldl (fun m u => m.set u.oneTimePub u) s.byPubKey = s.byPubKey := by
    constructor
    · exact congrArg UTXOSet.byPubKey
    · intro h
      unfold reindex
      rw [h]
  rw [hindex]
  clear hindex
  induction us with
  | nil => exact ⟨fun _ => trivial, fun _ => rfl⟩
  | cons u us ih =>
    rw [foldl_cons, KeepsIndex]
    by_cases hlater : u.oneTimePub ∈ us.map (·.oneTimePub)
    · rw [foldl_set_set_of_mem hlater]
      exact ih.trans ⟨fun h => ⟨.inl hlater, h⟩, fun h => h.2⟩
    · rw [foldl_set_cons_eq_self_iff hlater, or_iff_right hlater]
      exact and_congr Iff.rfl ih

theorem KeepsIndex.of_indexed {us : List UTXO}
    (h : ∀ u ∈ us, s.byPubKey.get u.oneTimePub = some u) : s.KeepsIndex us := by
  induction us with
  | nil => trivial
  | cons u us ih =>
    exact ⟨.inr (h u mem_cons_self), ih fun v hv => h v (mem_cons_of_mem _ hv)⟩

theorem unmarkStaked_of_get {u : UTXO} (h : t.stakedUTXOs.get k = some u) :
    t.unmarkStaked k = { t with
      stakedUTXOs := t.stakedUTXOs.del k
      utxos := t.utxos.set k u
      byPubKey := t.byPubKey.set u.oneTimePub u } := by
  unfold unmarkStaked
  rw [h]

theorem Burned.refl (s : UTXOSet) : Burned s [] s :=
  ⟨rfl, rfl, rfl, rfl, rfl, rfl, fun _ _ => rfl, fun _ _ => rfl, nofun, fun _ _ => rfl⟩

variable (h : Burned s B t)
include h

theorem Burned.markable (hmark : t.markStaked k = .ok t') :
    k ∉ B.map Prod.fst ∧ s.stakedUTXOs.get k = none ∧ ∃ u, s.utxos.get k = some u ∧
      t.utxos.get k = some u := by
  obtain ⟨hfree, u, hu, -⟩ := markStaked_eq_ok.mp hmark
  have hfree : t.stakedUTXOs.get k = none := has_eq_false.mp hfree
  have hnew : k ∉ B.map Prod.fst := by
    intro hmem
    obtain ⟨e, he, rfl⟩ := mem_map.mp hmem
    rw [h.staked e he] at hfree
    cases hfree
  exact ⟨hnew, (h.unstaked k hnew).symm.trans hfree, u, (h.utxos k hnew).symm.trans hu, hu⟩

theorem Burned.mark_present (hpres : Present s B)
    (hmark : t.markStaked k = .ok t') :
    ∃ u, s.utxos.get k = some u ∧ Burned s (B ++ [(k, u)]) t' ∧ Present s (B ++ [(k, u)]) := by
  obtain ⟨hnew, hfree, u, hu, hut⟩ := h.markable hmark
  obtain ⟨-, v, hv, rfl⟩ := markStaked_eq_ok.mp hmark
  obtain rfl : u = v := Option.some.inj (hut.symm.trans hv)
  have hmem : ∀ {e : UTXOKey × UTXO}, e ∈ B ++ [(k, u)] → e ∈ B ∨ e = (k, u) := by
    intro e he
    rcases mem_append.mp he with he | he
    · exact .inl he
    · exact .inr (mem_singleton.mp he)
  refine ⟨u, hu, { h with
    utxos := fun k' hk' => ?_
    byPubKey := fun m hm => ?_
    staked := fun e he => ?_
    unstaked := fun k' hk' => ?_ }, ⟨?_, ?_, ?_⟩⟩
  · rw [map_append, mem_append, not_or] at hk'
    rw [get_del_ne fun heq => hk'.2 (by simp [heq])]
    exact h.utxos k' hk'.1
  · rw [map_append, mem_append, not_or] at hm
    rw [get_del_ne fun heq => hm.2 (by simp [heq])]
    exact h.byPubKey m hm.1
  · show (t.stakedUTXOs.set k u).get e.1 = _
    rcases hmem he with he | rfl
    · have hne : e.1 ≠ k := fun heq => hnew (heq ▸ mem_map_of_mem he)
      rw [get_set_ne hne]
      exact h.staked e he
    · exact get_set_self _ _ _
  · rw [map_append, mem_append, not_or] at hk'
    rw [get_set_ne fun heq => hk'.2 (by simp [heq])]
    exact h.unstaked k' hk'.1
  · rw [map_append]
    refine nodup_append.mpr ⟨hpres.nodup, nodup_singleton _, ?_⟩
    rintro a ha b hb rfl
    have hk : a = k := mem_singleton.mp hb
    exact hnew (hk ▸ ha)
  · intro e he
    rcases hmem he with he | rfl
    · exact hpres.active e he
    · exact hu
  · intro e he
    rcases hmem he with he | rfl
    · exact hpres.unstaked e he
    · exact hfree

/-- An output that is burned and put back at once is the indexed one for its key afterwards. -/
theorem Burned.mark_unmark (hmark : t.markStaked k = .ok t') :
    ∃ u, s.utxos.get k = some u ∧ Burned (s.reindex [u]) B (t'.unmarkStaked k) := by
  obtain ⟨hnew, hfree, u, hu, hut⟩ := h.markable hmark
  obtain ⟨hfree', v, hv, rfl⟩ := markStaked_eq_ok.mp hmark
  have hfree' : t.stakedUTXOs.get k = none := has_eq_false.mp hfree'
  obtain rfl : u = v := Option.some.inj (hut.symm.trans hv)
  rw [unmarkStaked_of_get (get_set_self _ _ _)]
  have hstaked : (t.stakedUTXOs.set k u).del k = t.stakedUTXOs := del_set_of_get_none hfree'
  refine ⟨u, hu, h.keyImages, h.pool, h.journal, h.ringMembers, h.activation, h.recent,
    fun k' hk' => ?_, fun m hm => ?_, fun e he => ?_, fun k' hk' => ?_⟩
  · show ((t.utxos.del k).set k u).get k' = s.utxos.get k'
    rw [get_set, get_del]
    split_ifs with heq
    · rw [heq, hu]
    · exact h.utxos k' hk'
  · show ((t.byPubKey.del _).set u.oneTimePub u).get m = (s.byPubKey.set u.oneTimePub u).get m
    rw [get_set, get_set, get_del]
    split_ifs with heq
    · rfl
    · exact h.byPubKey m hm
  · show ((t.stakedUTXOs.set k u).del k).get e.1 = _
    rw [hstaked]
    exact h.staked e he
  · show ((t.stakedUTXOs.set k u).del k).get k' = _
    rw [hstaked]
    exact h.unstaked k' hk'

/-- Unmarking every burned output gives the set back, with an index in which they were entered one
after the other. -/
theorem Burned.unmark_all_reindex (hpres : Present s B) :
    (B.map Prod.fst).foldl unmarkStaked t = s.reindex (B.map Prod.snd) := by
  induction B generalizing s t with
  | nil =>
    apply UTXOSet.ext
    · ext k : 1
      exact h.utxos k not_mem_nil
    · exact h.keyImages
    · ext m : 1
      exact h.byPubKey m not_mem_nil
    · ext k : 1
      exact h.unstaked k not_mem_nil
    · exact h.pool
    · exact h.journal
    · exact h.ringMembers
    · exact h.activation
    · exact h.recent
  | cons e B ih =>
    obtain ⟨hnew, hnodup⟩ := nodup_cons.mp hpres.nodup
    rw [map_cons, foldl_cons, unmarkStaked_of_get (h.staked e mem_cons_self)]
    -- the rest is unmarked over the set whose index has `e` already
    show _ = (s.reindex [e.2]).reindex (B.map Prod.snd)
    refine ih ⟨h.keyImages, h.pool, h.journal, h.ringMembers, h.activation, h.recent,
      fun k hk => ?_, fun m hm => ?_, fun e' he' => ?_, fun k hk => ?_⟩
      ⟨hnodup, fun e' he' => hpres.active e' (mem_cons_of_mem _ he'),
        fun e' he' => hpres.unstaked e' (mem_cons_of_mem _ he')⟩
    · show (t.utxos.set e.1 e.2).get k = s.utxos.get k
      rw [get_set]
      split_ifs with heq
      · rw [heq, hpres.active e mem_cons_self]
      · exact h.utxos k (not_mem_cons_of_ne_of_not_mem heq hk)
    · show (t.byPubKey.set e.2.oneTimePub e.2).get m = (s.byPubKey.set e.2.oneTimePub e.2).get m
      rw [get_set, get_set]
      split_ifs with heq
      · rfl
      · exact h.byPubKey m (not_mem_cons_of_ne_of_not_mem heq hm)
    · show (t.stakedUTXOs.del e.1).get e'.1 = _
      have hne : e'.1 ≠ e.1 := fun heq => hnew (heq ▸ mem_map_of_mem he')
      rw [get_del_ne hne]
      exact h.staked e' (mem_cons_of_mem _ he')
    · show (t.stakedUTXOs.del e.1).get k = s.stakedUTXOs.get k
      rw [get_del]
      split_ifs with heq
      · rw [heq, hpres.unstaked e mem_cons_self]
      · exact h.unstaked k (not_mem_cons_of_ne_of_not_mem heq hk)

theorem Burned.unmark_all (hheld : Held s B) :
    (B.map Prod.fst).foldl unmarkStaked t = s := by
  rw [h.unmark_all_reindex hheld.present]
  apply (reindex_eq_self_iff _).mpr
  apply KeepsIndex.of_indexed
  intro u hu
  obtain ⟨e, he, rfl⟩ := mem_map.mp hu
  exact hheld.indexed e he

/-! ### The rollback of a set with burned outputs -/

theorem Burned.restore (e : RollbackEntry) :
    Burned (s.restore e) B (t.restore e) := by
  refine { h with pool := ?_, utxos := fun k hk => ?_, byPubKey := fun m hm => ?_ }
  · show t.spentPubKeys.del e.1 = s.spentPubKeys.del e.1
    rw [h.pool]
  · show (t.utxos.set _ _).get k = (s.utxos.set _ _).get k
    rw [get_set, get_set, h.utxos k hk]
  · show (t.byPubKey.set _ _).get m = (s.byPubKey.set _ _).get m
    rw [get_set, get_set, h.byPubKey m hm]

theorem Burned.undo (R : List Point32) (a : SetAction) :
    Burned (s.undo R a) B (t.undo R a) := by
  cases a with
  | mark ki =>
    refine { h with keyImages := ?_ }
    show t.keyImages.remove ki = s.keyImages.remove ki
    rw [h.keyImages]
  | take c ms =>
    unfold UTXOSet.undo
    dsimp only
    rw [findPooled_congr h.pool]
    split
    · exact h.restore _
    · exact h
  | create u =>
    refine { h with utxos := fun k hk => ?_, byPubKey := fun m hm => ?_ }
    · show (t.utxos.del _).get k = (s.utxos.del _).get k
      rw [get_del, get_del, h.utxos k hk]
    · show (t.byPubKey.del _).get m = (s.byPubKey.del _).get m
      rw [get_del, get_del, h.byPubKey m hm]

theorem Burned.restoreJournal (height : Nat) :
    Burned (s.restoreJournal height) B (t.restoreJournal height) := by
  unfold UTXOSet.restoreJournal
  rw [h.journal]
  have hT : Burned (((s.rollbackJournal.get height).getD []).foldl UTXOSet.restore s) B
      (((s.rollbackJournal.get height).getD []).foldl UTXOSet.restore t) :=
    foldl_rel (r := (Burned · B ·)) h fun e _ _ _ h => h.restore e
  refine { hT with journal := ?_ }
  dsimp only
  rw [hT.journal]

/-- **`RollbackBlock` does not see burned outputs**: it makes the same changes with and without
them. -/
theorem Burned.rollbackBlock (b : Block) :
    Burned (s.rollbackBlock C b) B (t.rollbackBlock C b) := by
  rw [rollbackBlock_eq_undos, rollbackBlock_eq_undos]
  have hmembers : t.journalMembers b.header.height = s.journalMembers b.header.height := by
    unfold journalMembers
    rw [h.journal]
  rw [hmembers]
  exact foldl_rel (r := (Burned · B ·)) (h.restoreJournal _) fun a _ _ _ h => h.undo _ a

end UTXOSet

end Aperod
