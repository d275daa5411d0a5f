import Aperod.Consensus.Checks
import Aperod.Core.Equiv.UTXO
import Aperod.Go.Run

/-!
# No key image is spent twice

A chain of blocks, each accepted by `Block.Validate`, `blockKeyImageCheck`, `VerifyBlock` and
`ApplyBlock`.

`blockKeyImageCheck` and pass 1 of `ApplyBlock` pass over stake transactions and `VerifyBlock` checks
each transaction against the set before the block, so two stake transactions may carry one input.

The invariant of the run: the key images so far are pairwise different and all recorded as spent.
One block extends it because pass 1 reserves the block's key images (`checkBlockInputs_reserves`)
and pass 2 records them (`applyTxs_contains`).
-/

namespace Aperod

open Go List

/-- The set has no outputs and no spent key images. -/
structure UTXOSet.IsEmpty (s : UTXOSet) : Prop where
  utxos : s.utxos = ∅
  byPubKey : s.byPubKey = ∅
  stakedUTXOs : s.stakedUTXOs = ∅
  spentPubKeys : s.spentPubKeys = ∅
  rollbackJournal : s.rollbackJournal = ∅
  clsagRecentOutputs : s.clsagRecentOutputs = []
  keyImages : ∀ ki, s.keyImages.contains ki = false

structure AcceptsBlock (C : Externals) (s : UTXOSet) (b : Block) (s' : UTXOSet) : Prop where
  valid : ∃ authority, b.validate C authority = .ok ()
  keyImages : blockKeyImageCheck b = .ok ()
  verified : ∃ v : TxVerifier, v.utxos = some s ∧ v.verifyBlock C b.withoutSales = .ok ()
  applied : s.applyBlock C b = .ok s'

/-- The canonical key images of the inputs of a block, in order. -/
def Block.inputKeyImages (C : Externals) (b : Block) : List KeyImage :=
  b.txs.flatMap fun tx => tx.inputs.map fun inp => spentForm C inp.keyImage

/-- The canonical key images of the inputs of a chain, in order. -/
def chainKeyImages (C : Externals) (bs : List Block) : List KeyImage :=
  bs.flatMap (Block.inputKeyImages C)

/-- No stake transaction of the block carries inputs. -/
def Block.StakeWithoutInputs (b : Block) : Prop :=
  ∀ tx ∈ b.txs, tx.isStake = true → tx.inputs = []

variable {C : Externals}

/-! ### One block -/

theorem sublist_checkedKeys {tx : Transaction} (h : tx.isStake = true → tx.inputs = []) :
    (tx.inputs.map fun inp => spentForm C inp.keyImage).Sublist (tx.checkedKeys C) := by
  unfold Transaction.checkedKeys
  split_ifs with hv4 hskip
  · rw [h hv4.1]
    exact nil_sublist _
  · have hnil : tx.inputs = [] := by
      rcases Bool.or_eq_true _ _ ▸ hskip with hcb | hst
      · simp only [Transaction.isCoinbase, Bool.and_eq_true, List.isEmpty_iff] at hcb
        tauto
      · exact h hst
    rw [hnil]
    exact List.Sublist.refl _
  · exact List.Sublist.refl _

theorem inputKeyImages_sublist {b : Block} (h : b.StakeWithoutInputs) :
    (b.inputKeyImages C).Sublist (b.txs.flatMap fun tx => tx.checkedKeys C) := by
  unfold Block.StakeWithoutInputs at h
  unfold Block.inputKeyImages
  generalize b.txs = txs at h
  induction txs with
  | nil => exact List.Sublist.refl _
  | cons tx txs ih =>
    exact (sublist_checkedKeys (h tx mem_cons_self)).append
      (ih fun t ht => h t (mem_cons_of_mem _ ht))

/-- What one accepted block adds: key images that are new, pairwise different, and spent from then
on; what was spent before stays spent. -/
theorem AcceptsBlock.keyImages_step {s s' : UTXOSet} {b : Block} (h : AcceptsBlock C s b s')
    (hstake : b.StakeWithoutInputs) :
    (b.inputKeyImages C).Nodup ∧ (∀ k ∈ b.inputKeyImages C, s.keyImages.contains k = false) ∧
      (∀ k ∈ b.inputKeyImages C, s'.keyImages.contains k = true) ∧
      ∀ k, s.keyImages.contains k = true → s'.keyImages.contains k = true := by
  obtain ⟨⟨r, hr⟩, rfl⟩ := UTXOSet.applyBlock_spec h.applied
  have hres := UTXOSet.checkBlockInputs_reserves hr
  have hsub := inputKeyImages_sublist (C := C) hstake
  refine ⟨hsub.nodup hres.nodup, fun k hk => hres.unspent k (hsub.subset hk), fun k hk => ?_,
    fun k hk => (UTXOSet.applyTxs_contains s b k).mpr (Or.inl hk)⟩
  refine (UTXOSet.applyTxs_contains s b k).mpr (Or.inr ?_)
  obtain ⟨tx, htx, hk⟩ := mem_flatMap.mp hk
  exact mem_flatMap.mpr ⟨tx, htx, mem_append_left _ hk⟩

/-! ### A chain -/

/-- **No double spend**: over every accepted chain in which stake transactions carry no inputs, the
canonical key images of all inputs are pairwise different, whatever set the chain starts from. -/
theorem chain_keyImages_nodup {s0 s : UTXOSet} {bs : List Block}
    (hrun : Run (AcceptsBlock C) s0 bs s)
    (hstake : ∀ b ∈ bs, b.StakeWithoutInputs) : (chainKeyImages C bs).Nodup := by
  suffices hinv : (chainKeyImages C bs).Nodup ∧
      ∀ k ∈ chainKeyImages C bs, s.keyImages.contains k = true from hinv.1
  refine hrun.history (fun past t => (chainKeyImages C past).Nodup ∧
    ∀ k ∈ chainKeyImages C past, t.keyImages.contains k = true) ?_ (by simp [chainKeyImages])
  rintro past t b t' hb ⟨hnodup, hspent⟩ hacc
  obtain ⟨hbnodup, hnew, hmarked, hkeep⟩ := hacc.keyImages_step (hstake b hb)
  have happ : chainKeyImages C (past ++ [b]) = chainKeyImages C past ++ b.inputKeyImages C := by
    simp [chainKeyImages]
  rw [happ]
  refine ⟨nodup_append'.mpr ⟨hnodup, hbnodup, fun k hk hk' => ?_⟩, fun k hk => ?_⟩
  · -- a key image of the past is spent, one of the block is not
    exact absurd (hspent k hk) (by simp [hnew k hk'])
  · rcases mem_append.mp hk with hk | hk
    · exact hkeep k (hspent k hk)
    · exact hmarked k hk

/-! ### Two chains -/

/-- A block at `height` with a correct Merkle root; its signature is accepted by `transparent`. -/
def transparentBlock (height : Nat) (txs : List Transaction) : Block where
  header :=
    { height, merkleRoot := merkleRoot transparent txs, validatorPub := [1]
      signature := replicate 64 0 }
  txs := txs

def emptySet : UTXOSet := {}

theorem emptySet_isEmpty : emptySet.IsEmpty := by
  refine ⟨rfl, rfl, rfl, rfl, rfl, rfl, fun ki => ?_⟩
  simp [emptySet, KeyImageSet.contains, KeyImageSet.older]

/-- An ordinary chain: the coinbase output is spent once. -/
def spendChain : List Block :=
  [transparentBlock 1 [coinbaseOf7], transparentBlock 2 [exampleSpend]]

set_option maxRecDepth 4000

/-- The ordinary chain is accepted and meets the condition. -/
theorem spendChain_keyImages_nodup : (chainKeyImages transparent spendChain).Nodup := by
  refine @chain_keyImages_nodup transparent emptySet _ _
    (Run.cons ⟨⟨[1], rfl⟩, rfl, ⟨{ utxos := some emptySet }, rfl, rfl⟩, rfl⟩
      (Run.cons ⟨⟨[1], rfl⟩, rfl, ⟨{ utxos := some _ }, rfl, rfl⟩, rfl⟩ (Run.nil _))) ?_
  intro b hb tx htx hst
  simp only [spendChain, mem_cons, not_mem_nil, or_false] at hb
  rcases hb with rfl | rfl
  all_goals
    rw [mem_singleton.mp htx] at hst
    exact absurd hst (by decide)

/-- A withdrawal request of validator `v` that also spends the 7 of key 1 as its fee. -/
def withdrawalWithInput (v : UInt8) : Transaction :=
  { version := .stake
    inputs := [{ keyImage := 1
                 ring := exampleRing
                 amountCommit := 7 }]
    fee := 7
    feeCommit := 7
    signatures := [some ⟨0, [], 1, [], [], 0, 0⟩]
    extra := 2 :: (replicate 32 v ++ replicate 72 0) }

def doubleStakeChain : List Block :=
  [transparentBlock 1 [coinbaseOf7],
   transparentBlock 2 [withdrawalWithInput 1, withdrawalWithInput 2]]

/-- Two withdrawals of one block carry the same input, and every check accepts the block: from the
empty set, a chain with a repeated key image. -/
theorem stake_inputs_share_keyImage :
    ∃ s, emptySet.IsEmpty ∧ Run (AcceptsBlock transparent) emptySet doubleStakeChain s ∧
      ¬ (chainKeyImages transparent doubleStakeChain).Nodup := by
  refine ⟨_, emptySet_isEmpty, Run.cons ⟨⟨[1], rfl⟩, rfl, ⟨{ utxos := some emptySet }, rfl, rfl⟩, rfl⟩
    (Run.cons ⟨⟨[1], rfl⟩, rfl, ⟨{ utxos := some _ }, rfl, rfl⟩, rfl⟩ (Run.nil _)), by decide⟩

end Aperod
