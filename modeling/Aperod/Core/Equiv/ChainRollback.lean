import Aperod.Core.Chain
import Aperod.Core.Transparent
import Aperod.Go.Overwrite

/-!
# Rolling the chain back

What `RollbackLastBlock` leaves after `AddBlock`, exactly (`rollbackLastBlock_of_addBlock`): the chain
before, except at the places that the two calls touch (`touched`).  There it holds what the previous
tip and the evicted block put (`remnant`), and nothing else.  So the rollback is exact just if the
chain held that before.
-/

namespace Aperod

open Go GoMap List

variable {C : Externals}

attribute [ext] Chain

namespace Chain

variable {c c' : Chain} {b : Block}

/-! ### The index of transactions -/

/-- The hashes `indexTxs` writes. -/
def txHashes (C : Externals) (b : Block) : List Hash32 := b.txs.map (·.hash C)

theorem map_hash_zipIdx (b : Block) :
    b.txs.zipIdx.map (fun e => e.1.hash C) = txHashes C b := by
  unfold txHashes
  nth_rewrite 2 [← zipIdx_map_fst 0 b.txs]
  rw [map_map]
  rfl

theorem overwrites_indexTxs (b : Block) : GoMap.Overwrites (indexTxs C b) (txHashes C b) := by
  have hfold := GoMap.Overwrites.foldl
    (fun e : Transaction × Nat => overwrites_set (e.1.hash C) (b, e.2)) b.txs.zipIdx
  rw [← map_eq_flatMap, map_hash_zipIdx] at hfold
  exact hfold

theorem get_unindexTxs (index : GoMap Hash32 (Block × Nat)) (h : Hash32) :
    (unindexTxs C b index).get h = if h ∈ txHashes C b then none else index.get h :=
  get_foldl_del

/-! ### Adding and removing a block -/

/-- The chain of `AddBlock` before a block leaves the window. -/
def extend (C : Externals) (c : Chain) (b : Block) : Chain :=
  { c with
    blocks := c.blocks.set (b.hash C) b
    byHeight := c.byHeight.set b.header.height b
    txIndex := indexTxs C b c.txIndex
    tip := some b }

/-- The chain of `RollbackLastBlock` before anything is restored. -/
def withdraw (C : Externals) (c : Chain) (b : Block) : Chain :=
  { c with
    blocks := c.blocks.del (b.hash C)
    byHeight := c.byHeight.del b.header.height
    txIndex := unindexTxs C b c.txIndex }

theorem addBlock_extend (h : c.addBlock C b = .ok c') :
    c' = (c.extend C b).evict C b.header.height := by
  obtain ⟨-, -, tip, htip, -, -⟩ := addBlock_eq_ok h
  simp only [addBlock, htip, bind_eq_ok] at h
  obtain ⟨-, -, -, -, h⟩ := h
  exact (Except.ok.inj h).symm

/-- The block that `AddBlock` lets leave the window, with its height there. -/
def leaving (c : Chain) (b : Block) : Option (Nat × Block) :=
  if b.header.height ≥ c.maxInMemoryBlocks then
    ((c.byHeight.set b.header.height b).get (b.header.height - c.maxInMemoryBlocks)).map fun old =>
      (b.header.height - c.maxInMemoryBlocks, old)
  else none

theorem lastAdd_evicted_eq : (c.lastAdd C b).evicted = (c.leaving b).map Prod.snd := by
  unfold lastAdd leaving
  split_ifs
  · rw [Option.map_map]
    exact Option.map_id'.symm
  · rfl

theorem evict_extend : (c.extend C b).evict C b.header.height =
    match c.leaving b with
    | none => c.extend C b
    | some (n, old) =>
      { c.extend C b with
        byHeight := (c.byHeight.set b.header.height b).del n
        blocks := (c.blocks.set (b.hash C) b).del (old.hash C)
        txIndex := unindexTxs C old (indexTxs C b c.txIndex) } := by
  unfold evict leaving
  by_cases hge : b.header.height ≥ c.maxInMemoryBlocks
  · have hge' : b.header.height ≥ (c.extend C b).maxInMemoryBlocks := hge
    rw [if_pos hge, if_pos hge']
    have hget : (c.extend C b).byHeight.get
        (b.header.height - (c.extend C b).maxInMemoryBlocks) =
        (c.byHeight.set b.header.height b).get (b.header.height - c.maxInMemoryBlocks) := rfl
    rw [hget]
    cases (c.byHeight.set b.header.height b).get (b.header.height - c.maxInMemoryBlocks) with
    | none => rfl
    | some old => rfl
  · have hge' : ¬ b.header.height ≥ (c.extend C b).maxInMemoryBlocks := hge
    rw [if_neg hge, if_neg hge']

/-! ### What is left after the two calls -/

section Left

variable (C c b)

/-- The blocks that `RollbackLastBlock` restores, in this order. -/
def restored : List Block :=
  c.tip.toList ++ (((c.leaving b).map Prod.snd).filter fun old => c.tip ≠ some old).toList

/-- What the restored blocks put into an empty chain. -/
def remnant : Chain := (c.restored b).foldl (restore C) {}

/-- The blocks whose places the two calls write or delete. -/
def touched : List Block := b :: (c.leaving b).toList.map Prod.snd ++ c.tip.toList

/-- The heights they write or delete; the evicted block is deleted at the height it is found at. -/
def touchedHeights : List Nat :=
  b.header.height :: (c.leaving b).toList.map Prod.fst ++ (c.restored b).map (·.header.height)

/-- The chain after both calls. -/
def reverted : Chain :=
  { (c.restored b).foldl (restore C) (((c.extend C b).evict C b.header.height).withdraw C b) with
    tip := c.tip }

/-- What happens to each of the three maps: the new block is entered, one leaves, the new block is
taken out, and blocks are restored. -/
def revert {K V : Type} (enter remove : Block → GoMap K V → GoMap K V)
    (drop : Nat × Block → GoMap K V → GoMap K V) (m : GoMap K V) : GoMap K V :=
  (c.restored b).foldl (fun m x => enter x m)
    (remove b ((c.leaving b).elim (enter b m) fun e => drop e (enter b m)))

variable {C c b}

theorem mem_touched {x : Block} :
    x ∈ c.touched b ↔ x = b ∨ x ∈ (c.leaving b).toList.map Prod.snd ∨ x ∈ c.restored b := by
  unfold touched restored
  simp only [cons_append, mem_cons, mem_append]
  constructor
  · rintro (h | h | h)
    · exact .inl h
    · exact .inr (.inl h)
    · exact .inr (.inr (.inl h))
  · rintro (h | h | h | h)
    · exact .inl h
    · exact .inr (.inl h)
    · exact .inr (.inr h)
    · rw [Option.mem_toList, Option.filter_eq_some_iff] at h
      obtain ⟨e, he, rfl⟩ := Option.map_eq_some_iff.mp h.1
      exact .inr (.inl (mem_map_of_mem (Option.mem_toList.mpr he)))

/-- A map is as before just if it holds what the restored blocks enter into an empty map, at every key
of the new block, the evicted one and the restored ones. -/
theorem revert_eq_self_iff {K V : Type} [DecidableEq K] {enter remove : Block → GoMap K V → GoMap K V}
    {drop : Nat × Block → GoMap K V → GoMap K V} (keys : Block → List K)
    (dropped : Nat × Block → List K) (henter : ∀ x, GoMap.Overwrites (enter x) (keys x))
    (hremove : ∀ x m k, (remove x m).get k = if k ∈ keys x then none else m.get k)
    (hdrop : ∀ e m k, (drop e m).get k = if k ∈ dropped e then none else m.get k) {m : GoMap K V} :
    c.revert b enter remove drop m = m ↔
      ∀ k, k ∈ keys b ∨ k ∈ (c.leaving b).toList.flatMap dropped ∨ k ∈ (c.restored b).flatMap keys →
        m.get k = ((c.restored b).foldl (fun m x => enter x m) ∅).get k := by
  -- what is left before anything is restored
  have hstart : ∀ m k, (remove b ((c.leaving b).elim (enter b m) fun e => drop e (enter b m))).get k =
      if k ∈ keys b ∨ k ∈ (c.leaving b).toList.flatMap dropped then none else m.get k := by
    intro m k
    rw [hremove]
    by_cases hk : k ∈ keys b
    · rw [if_pos hk, if_pos (.inl hk)]
    · rw [if_neg hk]
      cases c.leaving b with
      | none =>
        show (enter b m).get k = _
        rw [(henter b).get_of_not_mem hk, if_neg]
        rintro (h | h)
        · exact hk h
        · exact absurd h not_mem_nil
      | some e =>
        show (drop e (enter b m)).get k = _
        rw [hdrop, (henter b).get_of_not_mem hk]
        simp only [Option.toList_some, flatMap_cons, flatMap_nil, append_nil, hk,
          false_or]
  have hrestore := GoMap.Overwrites.foldl henter (c.restored b)
  have hget : ∀ k, (c.revert b enter remove drop m).get k =
      if k ∈ keys b ∨ k ∈ (c.leaving b).toList.flatMap dropped ∨ k ∈ (c.restored b).flatMap keys then
        ((c.restored b).foldl (fun m x => enter x m) ∅).get k else m.get k := by
    intro k
    unfold revert
    by_cases hk : k ∈ (c.restored b).flatMap keys
    · rw [if_pos (.inr (.inr hk))]
      exact hrestore.get_of_mem hk _ _
    · rw [hrestore.get_of_not_mem hk, hrestore.get_of_not_mem hk, hstart, get_empty]
      simp only [hk, or_false]
  constructor
  · intro heq k hk
    rw [← heq, hget, if_pos hk]
  · intro hkeep
    ext k : 1
    rw [hget]
    split_ifs with hk
    · exact (hkeep k hk).symm
    · rfl

theorem foldl_restore (bs : List Block) (d : Chain) :
    (bs.foldl (restore C) d).blocks = bs.foldl (fun m x => m.set (x.hash C) x) d.blocks ∧
      (bs.foldl (restore C) d).byHeight = bs.foldl (fun m x => m.set x.header.height x) d.byHeight ∧
      (bs.foldl (restore C) d).txIndex = bs.foldl (fun m x => indexTxs C x m) d.txIndex ∧
      (bs.foldl (restore C) d).genesis = d.genesis ∧
      (bs.foldl (restore C) d).maxInMemoryBlocks = d.maxInMemoryBlocks := by
  induction bs generalizing d with
  | nil => exact ⟨rfl, rfl, rfl, rfl, rfl⟩
  | cons x bs ih => exact ih (d.restore C x)

theorem reverted_maps :
    (c.reverted C b).blocks = c.revert b (fun x m => m.set (x.hash C) x)
      (fun x m => m.del (x.hash C)) (fun e m => m.del (e.2.hash C)) c.blocks ∧
    (c.reverted C b).byHeight = c.revert b (fun x m => m.set x.header.height x)
      (fun x m => m.del x.header.height) (fun e m => m.del e.1) c.byHeight ∧
    (c.reverted C b).txIndex = c.revert b (indexTxs C) (unindexTxs C)
      (fun e => unindexTxs C e.2) c.txIndex := by
  obtain ⟨hblocks, hheight, htx, -⟩ := foldl_restore (c.restored b)
    (((c.extend C b).evict C b.header.height).withdraw C b)
  refine ⟨hblocks.trans ?_, hheight.trans ?_, htx.trans ?_⟩
  all_goals
    unfold revert
    rw [evict_extend]
    cases c.leaving b <;> rfl

/-- The chain holds, wherever the two calls write or delete, what the previous tip and the evicted
block put there, and nothing else. -/
structure Reverts (C : Externals) (c : Chain) (b : Block) : Prop where
  height_ne_zero : b.header.height ≠ 0
  blocks : ∀ x ∈ c.touched b, c.blocks.get (x.hash C) = (c.remnant C b).blocks.get (x.hash C)
  byHeight : ∀ n ∈ c.touchedHeights b, c.byHeight.get n = (c.remnant C b).byHeight.get n
  txIndex : ∀ x ∈ c.touched b, ∀ h ∈ txHashes C x,
    c.txIndex.get h = (c.remnant C b).txIndex.get h

theorem reverted_eq_self_iff : c.reverted C b = c ↔
    (c.reverted C b).blocks = c.blocks ∧ (c.reverted C b).byHeight = c.byHeight ∧
      (c.reverted C b).txIndex = c.txIndex := by
  obtain ⟨-, -, -, hgenesis, hwindow⟩ := foldl_restore (c.restored b)
    (((c.extend C b).evict C b.header.height).withdraw C b)
  constructor
  · intro h
    exact ⟨congrArg Chain.blocks h, congrArg Chain.byHeight h, congrArg Chain.txIndex h⟩
  · rintro ⟨hblocks, hheight, htx⟩
    refine Chain.ext hblocks hheight htx rfl (hgenesis.trans ?_) (hwindow.trans ?_)
    · exact evict_genesis _
    · exact evict_maxInMemoryBlocks _

theorem remnant_maps :
    (c.remnant C b).blocks = (c.restored b).foldl (fun m x => m.set (x.hash C) x) ∅ ∧
      (c.remnant C b).byHeight = (c.restored b).foldl (fun m x => m.set x.header.height x) ∅ ∧
      (c.remnant C b).txIndex = (c.restored b).foldl (fun m x => indexTxs C x m) ∅ := by
  obtain ⟨hblocks, hheight, htx, -⟩ := foldl_restore (c.restored b) {}
  exact ⟨hblocks, hheight, htx⟩

theorem get_del_singleton {K V : Type} [DecidableEq K] (m : GoMap K V) (k k' : K) :
    (m.del k').get k = if k ∈ [k'] then none else m.get k := by
  simp only [get_del, mem_singleton]

theorem reverted_blocks_iff : (c.reverted C b).blocks = c.blocks ↔
    ∀ x ∈ c.touched b, c.blocks.get (x.hash C) = (c.remnant C b).blocks.get (x.hash C) := by
  rw [reverted_maps.1, remnant_maps.1, revert_eq_self_iff (fun x => [x.hash C]) (fun e => [e.2.hash C])
    (fun x => overwrites_set (x.hash C) x) (fun _ _ _ => get_del_singleton _ _ _)
    (fun _ _ _ => get_del_singleton _ _ _)]
  simp only [mem_touched, ← map_eq_flatMap, mem_singleton, mem_map]
  constructor
  · rintro h x (rfl | ⟨e, he, rfl⟩ | hx)
    · exact h _ (.inl rfl)
    · exact h _ (.inr (.inl ⟨e, he, rfl⟩))
    · exact h _ (.inr (.inr ⟨x, hx, rfl⟩))
  · rintro h k (rfl | ⟨e, he, rfl⟩ | ⟨x, hx, rfl⟩)
    · exact h _ (.inl rfl)
    · exact h _ (.inr (.inl ⟨e, he, rfl⟩))
    · exact h _ (.inr (.inr hx))

theorem reverted_byHeight_iff : (c.reverted C b).byHeight = c.byHeight ↔
    ∀ n ∈ c.touchedHeights b, c.byHeight.get n = (c.remnant C b).byHeight.get n := by
  rw [reverted_maps.2.1, remnant_maps.2.1, revert_eq_self_iff (fun x => [x.header.height])
    (fun e => [e.1]) (fun x => overwrites_set x.header.height x)
    (fun _ _ _ => get_del_singleton _ _ _) (fun _ _ _ => get_del_singleton _ _ _)]
  simp only [touchedHeights, ← map_eq_flatMap, cons_append, mem_cons, mem_append,
    not_mem_nil, or_false]

theorem reverted_txIndex_iff : (c.reverted C b).txIndex = c.txIndex ↔
    ∀ x ∈ c.touched b, ∀ h ∈ txHashes C x, c.txIndex.get h = (c.remnant C b).txIndex.get h := by
  rw [reverted_maps.2.2, remnant_maps.2.2, revert_eq_self_iff (txHashes C) (fun e => txHashes C e.2)
    overwrites_indexTxs (fun _ _ _ => get_unindexTxs _ _) (fun _ _ _ => get_unindexTxs _ _)]
  simp only [mem_touched, mem_flatMap, mem_map]
  constructor
  · rintro h x (rfl | ⟨e, he, rfl⟩ | hx) k hk
    · exact h _ (.inl hk)
    · exact h _ (.inr (.inl ⟨e, he, hk⟩))
    · exact h _ (.inr (.inr ⟨x, hx, hk⟩))
  · rintro h k (hk | ⟨e, he, hk⟩ | ⟨x, hx, hk⟩)
    · exact h _ (.inl rfl) k hk
    · exact h _ (.inr (.inl ⟨e, he, rfl⟩)) k hk
    · exact h _ (.inr (.inr hx)) k hk

/-- `RollbackLastBlock` after `AddBlock` fails only at height zero. -/
theorem rollbackLastBlock_of_addBlock (h : c.addBlock C b = .ok c') :
    c'.rollbackLastBlock C b (c.lastAdd C b) =
      if b.header.height = 0 then fail "rollback last block: invalid parent linkage"
      else .ok (c.reverted C b) := by
  obtain ⟨htip', -, tip, htip, hheight, hprev⟩ := addBlock_eq_ok h
  have hlast : (c.lastAdd C b).previousTip = some tip := htip
  have hlatest : ¬ (c'.tip.map (·.hash C) ≠ some (b.hash C) ∨
      (c.lastAdd C b).blockHash ≠ b.hash C) := by
    rw [htip']
    simp [lastAdd]
  unfold rollbackLastBlock
  rw [hlast]
  dsimp only
  rw [failIf]
  split_ifs with hzero
  · rw [failIf, if_pos (.inl hzero)]
    rfl
  · have hlink : ¬ (b.header.height = 0 ∨ succHeight tip.header.height ≠ b.header.height ∨
        b.header.prevHash ≠ tip.hash C) := by
      rintro (h0 | h1 | h2)
      · exact hzero h0
      · exact h1 hheight.symm
      · exact h2 hprev
    rw [failIf, if_neg hlink]
    refine congrArg Except.ok ?_
    unfold reverted restored
    rw [← addBlock_extend h, htip, lastAdd_evicted_eq, Option.toList_some]
    have hfilter : ((c.leaving b).map Prod.snd).filter (fun x => decide (x ≠ tip)) =
        ((c.leaving b).map Prod.snd).filter fun old => decide (some tip ≠ some old) := by
      simp only [ne_eq, Option.some.injEq, eq_comm]
    rw [hfilter]
    cases ((c.leaving b).map Prod.snd).filter fun old => decide (some tip ≠ some old) with
    | none => rfl
    | some old => rfl

end Left

/-- **Rollback is an exact inverse just if nothing that the block or its eviction touched was shared**:
after a successful `AddBlock`, `RollbackLastBlock` gives the chain before it if and only if that chain
held, at every hash, height and transaction of the new block, the evicted block and the previous tip,
what the evicted block and the tip themselves put there, and nothing else. -/
theorem rollbackLastBlock_exact_iff (h : c.addBlock C b = .ok c') :
    c'.rollbackLastBlock C b (c.lastAdd C b) = .ok c ↔ c.Reverts C b := by
  rw [rollbackLastBlock_of_addBlock h]
  split_ifs with hzero
  · constructor
    · intro hfail
      cases hfail
    · intro hreverts
      exact absurd hzero hreverts.height_ne_zero
  · rw [Except.ok.injEq, reverted_eq_self_iff, reverted_blocks_iff, reverted_byHeight_iff,
      reverted_txIndex_iff]
    constructor
    · rintro ⟨hblocks, hheight, htx⟩
      exact ⟨hzero, hblocks, hheight, htx⟩
    · intro hr
      exact ⟨hr.blocks, hr.byHeight, hr.txIndex⟩

/-! ### A repeated transaction -/

def blockOn (parent : Block) (txs : List Transaction) : Block :=
  { header := { height := parent.header.height + 1, prevHash := parent.hash hashing }, txs }

def chainGenesis : Block := { header := { height := 0 } }

/-- A withdrawal request, which carries no nonce. -/
def requestBlock : Block := blockOn chainGenesis [sampleWithdrawal 1]

def quietBlock : Block := blockOn requestBlock []

/-- The same request again. -/
def repeatBlock : Block := blockOn quietBlock [sampleWithdrawal 1]

/-- The chain of the first three blocks. -/
def requestChain : Result Chain := do
  let c ← (newChain 0).setGenesis hashing chainGenesis
  let c ← c.addBlock hashing requestBlock
  c.addBlock hashing quietBlock

/-- `AddBlock` and `RollbackLastBlock` of one block. -/
def addAndRollback (C : Externals) (c : Chain) (b : Block) : Result Chain := do
  let c' ← c.addBlock C b
  c'.rollbackLastBlock C b (c.lastAdd C b)

/-- Adding the fourth block and rolling it back loses the transaction of the second one. -/
theorem rollback_forgets_repeated_transaction : ∃ c c' c'' : Chain, requestChain = .ok c ∧
    c.addBlock hashing repeatBlock = .ok c' ∧
    c'.rollbackLastBlock hashing repeatBlock (c.lastAdd hashing repeatBlock) = .ok c'' ∧
    c.txIndex.get ((sampleWithdrawal 1).hash hashing) = some (requestBlock, 0) ∧
    c''.txIndex.get ((sampleWithdrawal 1).hash hashing) = none := by
  obtain ⟨c, hc, hindexed, htest⟩ : ∃ c, requestChain = .ok c ∧
      c.txIndex.get ((sampleWithdrawal 1).hash hashing) = some (requestBlock, 0) ∧
      (addAndRollback hashing c repeatBlock).toOption.map
        (·.txIndex.get ((sampleWithdrawal 1).hash hashing)) = some none :=
    exists_ok_of_test (by decide +kernel)
  obtain ⟨c'', hc'', hlost⟩ := Option.map_eq_some_iff.mp htest
  have hboth : addAndRollback hashing c repeatBlock = .ok c'' := by
    cases hr : addAndRollback hashing c repeatBlock with
    | error err =>
      rw [hr] at hc''
      cases hc''
    | ok c1 =>
      rw [hr] at hc''
      cases hc''
      rfl
  obtain ⟨c', hadd, hrollback⟩ := unbind hboth
  exact ⟨c, c', c'', hc, hadd, hrollback, hindexed, hlost⟩

/-- A block without the repeated transaction is rolled back exactly. -/
theorem rollback_quiet_exact : ∃ c c' : Chain, requestChain = .ok c ∧
    c.addBlock hashing (blockOn quietBlock []) = .ok c' ∧
    c'.rollbackLastBlock hashing (blockOn quietBlock [])
      (c.lastAdd hashing (blockOn quietBlock [])) = .ok c ∧
    c.Reverts hashing (blockOn quietBlock []) := by
  obtain ⟨c, hc, htest⟩ : ∃ c, requestChain = .ok c ∧
      addAndRollback hashing c (blockOn quietBlock []) = .ok c :=
    exists_ok_of_test (by decide +kernel)
  obtain ⟨c', hadd, hrollback⟩ := unbind htest
  exact ⟨c, c', hc, hadd, hrollback, (rollbackLastBlock_exact_iff hadd).mp hrollback⟩

end Chain

end Aperod
