import Aperod.Go.Map
import Aperod.Core.Block

/-!
# The chain

`Chain` of `chain.go`: the canonical blocks of a sliding window, by hash and by height, the index of
their transactions, the tip and the genesis block.  What `AddBlock` remembers for
`RollbackLastBlock` is not a field here; it is computed from the chain the block was added to
(`lastAdd`).  `ChainState` is the chain together with it, and `ChainState.call` one call on it.
-/

namespace Aperod

open Go

variable {m n : Nat} {b : Block} {c' : Chain}

structure Chain where
  blocks : GoMap Hash32 Block := ∅
  byHeight : GoMap Nat Block := ∅
  /-- `TxLocation` of a transaction: its block and its position there. -/
  txIndex : GoMap Hash32 (Block × Nat) := ∅
  tip : Option Block := none
  genesis : Option Block := none
  maxInMemoryBlocks : Nat := 1000
  deriving DecidableEq

/-- `height + 1` of a `uint64`. -/
def succHeight (height : Nat) : Nat := (height + 1) % 2 ^ 64

namespace Chain

variable (C : Externals) (c : Chain)

def getByHash (h : Hash32) : Option Block := c.blocks.get h

def getByHeight (height : Nat) : Option Block := c.byHeight.get height

def height : Nat := (c.tip.map (·.header.height)).getD 0

def indexTxs (b : Block) (index : GoMap Hash32 (Block × Nat)) : GoMap Hash32 (Block × Nat) :=
  b.txs.zipIdx.foldl (fun index (tx, i) => index.set (tx.hash C) (b, i)) index

/-- Take the transactions of a block out of the index. -/
def unindexTxs (b : Block) (index : GoMap Hash32 (Block × Nat)) : GoMap Hash32 (Block × Nat) :=
  b.txs.foldl (fun index tx => index.del (tx.hash C)) index

/-- The block that leaves the window when one of height `height` enters it. -/
def evict (height : Nat) : Chain :=
  if height ≥ c.maxInMemoryBlocks then
    match c.byHeight.get (height - c.maxInMemoryBlocks) with
    | some old =>
      { c with
        byHeight := c.byHeight.del (height - c.maxInMemoryBlocks)
        blocks := c.blocks.del (old.hash C)
        txIndex := unindexTxs C old c.txIndex }
    | none => c
  else c

def addBlock (b : Block) : Result Chain :=
  match c.tip with
  | none => fail "chain not initialized: call SetGenesis first"
  | some tip => do
    failIf (b.header.height ≠ succHeight tip.header.height)
      s!"block height {b.header.height} does not extend tip at {tip.header.height}"
    failIf (b.header.prevHash ≠ tip.hash C) s!"block {b.header.height}: prev hash mismatch"
    .ok (evict C { c with
      blocks := c.blocks.set (b.hash C) b
      byHeight := c.byHeight.set b.header.height b
      txIndex := indexTxs C b c.txIndex
      tip := some b } b.header.height)

structure AddRollback where
  blockHash : Hash32
  previousTip : Option Block
  evicted : Option Block

/-- What `AddBlock` remembers when it adds `b` to the chain. -/
def lastAdd (b : Block) : AddRollback where
  blockHash := b.hash C
  previousTip := c.tip
  evicted :=
    if b.header.height ≥ c.maxInMemoryBlocks then
      (c.byHeight.set b.header.height b).get (b.header.height - c.maxInMemoryBlocks)
    else none

/-- The closure `restore` of `RollbackLastBlock`. -/
def restore (b : Block) : Chain :=
  { c with
    blocks := c.blocks.set (b.hash C) b
    byHeight := c.byHeight.set b.header.height b
    txIndex := indexTxs C b c.txIndex }

def rollbackLastBlock (b : Block) (rollback : AddRollback) : Result Chain :=
  match rollback.previousTip with
  | none => fail "rollback last block: block is not the latest AddBlock"
  | some previousTip => do
    failIf (c.tip.map (·.hash C) ≠ some (b.hash C) ∨ rollback.blockHash ≠ b.hash C)
      "rollback last block: block is not the latest AddBlock"
    failIf (b.header.height = 0 ∨ succHeight previousTip.header.height ≠ b.header.height ∨
        b.header.prevHash ≠ previousTip.hash C)
      "rollback last block: invalid parent linkage"
    let c : Chain := { c with
      blocks := c.blocks.del (b.hash C)
      byHeight := c.byHeight.del b.header.height
      txIndex := unindexTxs C b c.txIndex }
    let c := restore C c previousTip
    let c := (rollback.evicted.filter (· ≠ previousTip)).elim c (restore C c)
    .ok { c with tip := some previousTip }

/-! ### Genesis, lookup and reorganisation -/

def setGenesis (b : Block) : Result Chain := do
  failIf (b.header.height ≠ 0 ∨ b.header.prevHash ≠ 0)
    s!"block at height {b.header.height} is not a genesis block"
  .ok { c with
    blocks := c.blocks.set (b.hash C) b
    byHeight := c.byHeight.set 0 b
    tip := some b
    genesis := some b
    txIndex := indexTxs C b c.txIndex }

/-- `GetTransaction`: the transaction with its block and its position there. -/
def getTransaction (hash : Hash32) : Result (Option (Transaction × Block × Nat)) :=
  match c.txIndex.get hash with
  | none => .ok none
  | some (b, i) => do
    let tx ← index b.txs i
    .ok (some (tx, b, i))

/-- The check of `Reorg` that each block extends the one before. -/
def checkContiguous : List Block → Result Unit
  | a :: b :: rest => do
    failIf (b.header.height ≠ succHeight a.header.height)
      s!"reorg: gap between blocks {a.header.height} and {b.header.height}"
    failIf (b.header.prevHash ≠ a.hash C) s!"reorg: prev hash mismatch at height {b.header.height}"
    checkContiguous (b :: rest)
  | _ => .ok ()

/-- Take the canonical block of a height out of the chain. -/
def orphan (n : Nat) : Chain :=
  match c.byHeight.get n with
  | some old =>
    { c with
      byHeight := c.byHeight.del n
      blocks := c.blocks.del (old.hash C)
      txIndex := unindexTxs C old c.txIndex }
  | none => c

/-- Take out the blocks above the fork point, from the tip down. -/
def orphanAbove (forkPoint tip : Nat) : Chain :=
  ((List.range (tip - forkPoint)).map (tip - ·)).foldl (orphan C) c

/-- Enter a block, and let one leave the window. -/
def install (b : Block) : Chain := evict C (restore C c b) b.header.height

def reorg (forkPoint : Nat) (newBlocks : List Block) : Result Chain :=
  match newBlocks with
  | [] => fail "reorg: no new blocks"
  | first :: _ => do
    failIf (first.header.height ≠ succHeight forkPoint)
      s!"reorg: new chain starts at {first.header.height}, expected {succHeight forkPoint}"
    checkContiguous C newBlocks
    let oldTip ← deref c.tip
    .ok { newBlocks.foldl (install C) (c.orphanAbove C forkPoint oldTip.header.height) with
      tip := newBlocks.getLast? }

/-! ### Headers for a peer -/

/-- `HeadersFrom`: the headers above the highest block of the window that the peer knows. -/
def headersFrom (known : List Hash32) (limit : Nat) : List BlockHeader :=
  match c.tip with
  | none => []
  | some tip =>
    let canonical (h : Hash32) := (c.blocks.get h).filter fun b =>
      (c.byHeight.get b.header.height).any fun canon => canon.hash C = h
    let startHeight := known.foldl (fun start h =>
      (canonical h).elim start fun b => max start (succHeight b.header.height)) 1
    let limit := if limit = 0 ∨ limit > 500 then 500 else limit
    (((List.range' startHeight (tip.header.height + 1 - startHeight)).filterMap
      c.byHeight.get).take limit).map (·.header)

def tailHashes (n : Nat) : List Hash32 :=
  match c.tip with
  | none => []
  | some tip =>
    let start := tip.header.height + 1 - n
    ((List.range' start (tip.header.height + 1 - start)).filterMap c.byHeight.get).map (·.hash C)

end Chain

/-- `NewChain`; zero stands for the default window. -/
def newChain (maxBlocks : Nat) : Chain :=
  { maxInMemoryBlocks := if maxBlocks > 0 then maxBlocks else 1000 }

/-- The chain with `lastAdd`. -/
structure ChainState where
  chain : Chain
  lastAdd : Option Chain.AddRollback := none

/-- The calls that change the chain. -/
inductive ChainCall
  | setGenesis (b : Block)
  | addBlock (b : Block)
  | rollbackLastBlock (b : Block)
  | reorg (forkPoint : Nat) (newBlocks : List Block)

def ChainState.call (C : Externals) (s : ChainState) : ChainCall → Result ChainState
  | .setGenesis b => do
    let chain ← s.chain.setGenesis C b
    .ok { chain }
  | .addBlock b => do
    let chain ← s.chain.addBlock C b
    .ok { chain, lastAdd := some (s.chain.lastAdd C b) }
  | .rollbackLastBlock b =>
    match s.lastAdd with
    | none => fail "rollback last block: block is not the latest AddBlock"
    | some rollback => do
      let chain ← s.chain.rollbackLastBlock C b rollback
      .ok { chain }
  | .reorg forkPoint newBlocks => do
    let chain ← s.chain.reorg C forkPoint newBlocks
    .ok { chain }

namespace Chain

variable {C : Externals} {c : Chain}

@[simp] theorem evict_tip (height : Nat) : (c.evict C height).tip = c.tip := by
  unfold evict
  split_ifs
  · split <;> rfl
  · rfl

@[simp] theorem evict_genesis (height : Nat) : (c.evict C height).genesis = c.genesis := by
  unfold evict
  split_ifs
  · split <;> rfl
  · rfl

@[simp] theorem evict_maxInMemoryBlocks (n : Nat) :
    (c.evict C n).maxInMemoryBlocks = c.maxInMemoryBlocks := by
  unfold evict
  split_ifs
  · split <;> rfl
  · rfl

theorem evict_none :
    (∀ h, c.getByHash h = none → (c.evict C n).getByHash h = none) ∧
      ∀ m, c.getByHeight m = none → (c.evict C n).getByHeight m = none := by
  unfold evict
  split_ifs
  · split
    · constructor
      · intro h hnone
        show (c.blocks.del _).get h = none
        rw [GoMap.get_del, show c.blocks.get h = none from hnone, ite_self]
      · intro m hnone
        show (c.byHeight.del _).get m = none
        rw [GoMap.get_del, show c.byHeight.get m = none from hnone, ite_self]
    · exact ⟨fun _ => id, fun _ => id⟩
  · exact ⟨fun _ => id, fun _ => id⟩

theorem evict_getByHeight (hm : m + c.maxInMemoryBlocks ≠ n) :
    (c.evict C n).getByHeight m = c.getByHeight m := by
  unfold evict
  split_ifs with hge
  · split
    · exact GoMap.get_del_ne (by omega)
    · rfl
  · rfl

theorem evict_getByHeight_some
    (hget : (c.evict C n).getByHeight m = some b) : c.getByHeight m = some b := by
  unfold evict at hget
  split_ifs at hget
  · split at hget
    · have hget : (c.byHeight.del _).get m = some b := hget
      rw [GoMap.get_del] at hget
      split_ifs at hget
      exact hget
    · exact hget
  · exact hget

theorem addBlock_eq_ok (h : c.addBlock C b = .ok c') :
    c'.tip = some b ∧ c'.genesis = c.genesis ∧ ∃ tip, c.tip = some tip ∧
      b.header.height = succHeight tip.header.height ∧ b.header.prevHash = tip.hash C := by
  unfold addBlock at h
  split at h
  · cases h
  · rename_i tip htip
    simp only [bind_eq_ok, failIf_eq_ok, not_not] at h
    obtain ⟨-, hheight, -, hprev, hc⟩ := h
    cases hc
    exact ⟨evict_tip _, evict_genesis _, tip, htip, hheight, hprev⟩

theorem getByHeight_of_addBlock {b' : Block}
    (h : c.addBlock C b = .ok c') (hget : c'.getByHeight n = some b') :
    n = b.header.height ∧ b' = b ∨ c.getByHeight n = some b' := by
  unfold addBlock at h
  split at h
  · cases h
  · simp only [bind_eq_ok] at h
    obtain ⟨-, -, -, -, hc⟩ := h
    cases hc
    have hset : (c.byHeight.set b.header.height b).get n = some b' := evict_getByHeight_some hget
    rw [GoMap.get_set] at hset
    split_ifs at hset with heq
    · exact .inl ⟨heq, (Option.some.inj hset).symm⟩
    · exact .inr hset

end Chain

end Aperod
