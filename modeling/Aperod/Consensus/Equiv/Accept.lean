import Aperod.Consensus.Receive
import Aperod.Core.Transparent

/-!
# What acceptance says

Inversion of `acceptBlock` and of its parts: a block is accepted exactly if every check passes, and
then the engine is the one `advance` describes.
-/

namespace Aperod

open Go

variable {C : Externals} {S : Type} {V : Services S} {e e' : Engine S} {env : Env} {b : Block}

namespace Engine

theorem checkHeader_eq_ok {u : Unit} : e.checkHeader env b = .ok u ↔
    b.header.timestamp - env.now ≤ maxClockSkewNs ∧
    (∃ tip, e.chain.tip = some tip ∧ tip.header.height ≠ maxUint64 ∧
      b.header.height = tip.header.height + 1 ∧ tip.header.round ≠ maxUint32 ∧
      b.header.round = tip.header.round + 1) ∧
    b.header.validatorPub ∈ e.activeValidators ∧
    ∀ pub, e.proposerAt b.header.round = some pub → pub = b.header.validatorPub := by
  unfold checkHeader
  rcases htip : e.chain.tip with _ | tip
  · simp [bind_eq_ok]
  · simp only [bind_eq_ok, failIf_eq_ok, failSome_eq_ok, not_lt, not_or, not_not, Option.some.injEq,
      exists_eq_left', Option.filter_eq_none_iff, decide_eq_true_eq, exists_const, and_assoc]

theorem checkContent_eq_ok {now : Int} {u : Unit} : e.checkContent C V now b = .ok u ↔
    blockKeyImageCheck b = .ok () ∧ e.validateCoinbasePolicy C V now b = .ok () ∧
    e.validateBlockEconomics b = .ok () ∧ e.validateRingCTV4Activation C V now b = .ok () ∧
    e.registry.validateBlockStakeTxs C b.txs b.header.height = .ok () ∧
    e.verifyBlockWithSales C V now b = .ok () ∧ e.prepareAVMBlock C V now b = .ok () := by
  simp only [checkContent, bind_eq_ok, wrap_eq_ok, Unique.exists_iff, PUnit.default_eq_unit]

theorem commitRegistry_eq_ok {r : ValidatorRegistry} : e.commitRegistry C b = .ok r ↔
    ∃ s s', e.registry.utxos = some s ∧ s.applyBlock C b = .ok s' ∧
      { e.registry with utxos := some s' }.applyBlockStakeTxs C b.txs b.header.height = .ok r := by
  simp only [commitRegistry, bind_eq_ok, wrap_eq_ok, deref_eq_ok, exists_and_left]

theorem acceptBlock_eq_ok : e.acceptBlock C V env b = .ok e' ↔
    e.halted = false ∧ e.checkAuthorityParent V b.header = .ok () ∧
    b.validate C (authority e.cfg.validatorAuthorityFork b.header.validatorPub b.header.height) =
      .ok () ∧
    e.checkHeader env b = .ok () ∧ ∃ slashing, e.checkSlashing C b = .ok slashing ∧
    e.checkOraclePriceDeviation env.oraclePrice b.header.oraclePrice = .ok () ∧
    e.checkContent C V env.now b = .ok () ∧ ∃ r chain store, e.commitRegistry C b = .ok r ∧
    e.chain.addBlock C b = .ok chain ∧ V.onCanonicalBlock e.store b = .ok store ∧
    e' = { e with slashing }.advance C env b r chain store := by
  simp only [acceptBlock, bind_eq_ok, wrap_eq_ok, failIf_eq_ok, exists_and_left,
    Unique.exists_iff, PUnit.default_eq_unit, Bool.not_eq_true, Except.ok.injEq, eq_comm (b := e')]

/-! ### Local production -/

theorem commitProduced_eq_ok : e.commitProduced C V env b = .ok e' ↔
    e.validateCoinbasePolicy C V env.now b = .ok () ∧ e.validateBlockEconomics b = .ok () ∧
    e.validateRingCTV4Activation C V env.now b = .ok () ∧
    e.registry.validateBlockStakeTxs C b.txs b.header.height = .ok () ∧
    e.prepareAVMBlock C V env.now b = .ok () ∧ ∃ r chain store, e.commitRegistry C b = .ok r ∧
    e.chain.addBlock C b = .ok chain ∧ V.onCanonicalBlock e.store b = .ok store ∧
    e' = e.advance C env b r chain store := by
  simp only [commitProduced, selfCheck, commitRegistry, bind_eq_ok, wrap_eq_ok, orLeave_eq_ok,
    exists_and_left, Unique.exists_iff, PUnit.default_eq_unit, Except.ok.injEq, eq_comm (b := e')]
  grind

/-- What a `tick` that commits a block does before the votes. -/
theorem tick_eq_some (h : e.tick C V env = .ok (e', some b)) :
    ∃ (tip : Block) (key : ValidatorKey) (pool : Mempool) (e1 : Engine S),
      e.halted = false ∧ e.chain.tip = some tip ∧
      e.stopped (succHeight tip.header.height) = false ∧
      e.slotKey (succHeight tip.header.height) ((tip.header.round + 1) % 2 ^ 32) = some key ∧
      e.produceBlock C V env key (succHeight tip.header.height) ((tip.header.round + 1) % 2 ^ 32)
        tip = (pool, .ok b) ∧
      { e with pool }.commitProduced C V env b = .ok e1 ∧
      e' = (e1.replayFutureVotes C env b).castVote C b := by
  obtain ⟨_, hhalted, h⟩ := unbind h
  split at h
  · exact absurd h (by simp)
  · rename_i tip htip
    dsimp only at h
    split at h
    · cases h
    · rename_i key hkey
      simp only [bind_eq_ok, orLeave_eq_ok, wrap_eq_ok] at h
      obtain ⟨-, -, b', hb, e1, hcommit, heq⟩ := h
      cases heq
      split_ifs at hkey with hstop
      refine ⟨tip, key, _, e1, by simpa using hhalted, htip, by simpa using hstop, hkey, ?_,
        hcommit, rfl⟩
      rw [← hb]

/-! ### A block from the network -/

theorem receiveBlock_eq_ok :
    e.receiveBlock C V env b = .ok e' ↔ e.handleIncomingBlock C V env b = .ok e' := by
  unfold receiveBlock handleIncomingBlock acceptBlock checkCandidate commitRegistry
  simp only [bind_eq_ok, orLeave_eq_ok, wrap_eq_ok]
  constructor
  · rintro ⟨⟨⟩, ⟨⟨⟩, hrun, ⟨⟩, hparent, ⟨⟩, hvalid, hheader⟩, slashing, hslash, ⟨⟩, horacle, ⟨⟩,
      hcontent, s, hs, s', happly, r, hstake, chain, hchain, store, hstore, heq⟩
    cases heq
    exact ⟨_, ⟨(), hrun, (), hparent, (), hvalid, (), hheader, slashing, hslash, (), horacle, (),
      hcontent, r, ⟨s, hs, s', happly, hstake⟩, chain, hchain, store, hstore, rfl⟩, rfl⟩
  · rintro ⟨e1, ⟨⟨⟩, hrun, ⟨⟩, hparent, ⟨⟩, hvalid, ⟨⟩, hheader, slashing, hslash, ⟨⟩, horacle, ⟨⟩,
      hcontent, r, ⟨s, hs, s', happly, hstake⟩, chain, hchain, store, hstore, heq1⟩, heq⟩
    cases heq1
    cases heq
    exact ⟨(), ⟨(), hrun, (), hparent, (), hvalid, hheader⟩, slashing, hslash, (), horacle, (),
      hcontent, s, hs, s', happly, r, hstake, chain, hchain, store, hstore, rfl⟩

theorem transition_eq_ok {s' : UTXOSet} : e.transition C V env b = .ok s' ↔
    e.checkCandidate C V env b = .ok () ∧ (∃ slashing, e.checkSlashing C b = .ok slashing) ∧
    e.checkOraclePriceDeviation env.oraclePrice b.header.oraclePrice = .ok () ∧
    e.checkContent C V env.now b = .ok () ∧
    ∃ s, e.registry.utxos = some s ∧ s.applyBlock C b = .ok s' := by
  simp only [transition, bind_eq_ok, deref_eq_ok, wrap_eq_ok, Unique.exists_iff,
    PUnit.default_eq_unit]
  grind

/-- The engines a refusal leaves: as it was, if the block did not get past the detector; with the
block on record; or with the record and a rollback. -/
theorem receiveBlock_eq_error (h : e.receiveBlock C V env b = .error (e', err)) :
    (e' = e ∧ ∀ slashing, e.checkCandidate C V env b = .ok () → e.checkSlashing C b ≠ .ok slashing) ∨
    ∃ slashing, e.checkCandidate C V env b = .ok () ∧ e.checkSlashing C b = .ok slashing ∧
      ((e' = { e with slashing } ∧ ∀ s', e.transition C V env b ≠ .ok s') ∨
        ∃ s s', e.transition C V env b = .ok s' ∧ e.checkContent C V env.now b = .ok () ∧
        e.registry.utxos = some s ∧ s.applyBlock C b = .ok s' ∧
        ((e' = { e with slashing }.undoStake C b s' ∧ ∀ r,
            { e.registry with utxos := some s' }.applyBlockStakeTxs C b.txs b.header.height ≠ .ok r) ∨
          ∃ r, { e.registry with utxos := some s' }.applyBlockStakeTxs C b.txs b.header.height = .ok r ∧
            ((e' = { e with slashing }.undo C b r (b.txs.filterMap Transaction.stakeBurnKey) ∧
                ∀ chain, e.chain.addBlock C b ≠ .ok chain) ∨
              ∃ chain, e.chain.addBlock C b = .ok chain ∧
                e' = { e with slashing }.failCanonicalPersistence C b r
                  (b.txs.filterMap Transaction.stakeBurnKey) chain))) := by
  have hne : ∀ {α : Type} {r : Result α} {f : Fault}, r = .error f → ∀ a, r ≠ .ok a := by
    rintro α r f rfl a
    simp
  have hwrap : ∀ {α : Type} {pre : String} {r : Result α} {f : Fault}, wrap pre r = .error f →
      ∀ a, r ≠ .ok a := by
    rintro α pre r f hr a rfl
    simp [wrap] at hr
  unfold receiveBlock at h
  simp only [bind_eq_error, orLeave_eq_error, orLeave_eq_ok] at h
  rcases h with ⟨hcand, rfl⟩ | ⟨⟨⟩, hcand, h⟩
  · exact .inl ⟨rfl, fun _ hok => absurd hok (hne hcand ())⟩
  rcases h with ⟨hslash, rfl⟩ | ⟨slashing, hslash, h⟩
  · exact .inl ⟨rfl, fun slashing _ => hne hslash slashing⟩
  refine .inr ⟨slashing, hcand, hslash, ?_⟩
  rcases h with ⟨horacle, rfl⟩ | ⟨⟨⟩, horacle, h⟩
  · refine .inl ⟨rfl, fun s' ht => ?_⟩
    obtain ⟨-, -, hok, -⟩ := transition_eq_ok.mp ht
    exact hne horacle () hok
  rcases h with ⟨hcontent, rfl⟩ | ⟨⟨⟩, hcontent, h⟩
  · refine .inl ⟨rfl, fun s' ht => ?_⟩
    obtain ⟨-, -, -, hok, -⟩ := transition_eq_ok.mp ht
    exact hne hcontent () hok
  rcases h with ⟨hs, rfl⟩ | ⟨s, hs, h⟩
  · refine .inl ⟨rfl, fun s' ht => ?_⟩
    obtain ⟨-, -, -, -, s, hok, -⟩ := transition_eq_ok.mp ht
    exact hne hs s (deref_eq_ok.mpr hok)
  rcases h with ⟨happly, rfl⟩ | ⟨s', happly, h⟩
  · refine .inl ⟨rfl, fun s' ht => ?_⟩
    obtain ⟨-, -, -, -, s1, hs1, hok⟩ := transition_eq_ok.mp ht
    obtain rfl : s = s1 := Option.some.inj ((deref_eq_ok.mp hs).symm.trans hs1)
    exact hwrap happly s' hok
  have hs := deref_eq_ok.mp hs
  have happly := wrap_eq_ok.mp happly
  refine .inr ⟨s, s', transition_eq_ok.mpr ⟨hcand, ⟨slashing, hslash⟩, horacle, hcontent, s, hs,
    happly⟩, hcontent, hs, happly, ?_⟩
  rcases h with ⟨hstake, rfl⟩ | ⟨r, hstake, h⟩
  · exact .inl ⟨rfl, hwrap hstake⟩
  refine .inr ⟨r, wrap_eq_ok.mp hstake, ?_⟩
  rcases h with ⟨hchain, rfl⟩ | ⟨chain, hchain, h⟩
  · exact .inl ⟨rfl, hwrap hchain⟩
  rcases h with ⟨-, rfl⟩ | ⟨store, -, h⟩
  · exact .inr ⟨chain, wrap_eq_ok.mp hchain, rfl⟩
  · cases h

end Engine

/-! ### A node without services -/

/-- No LPoD, no sales, no AVM, and a store that keeps nothing. -/
def idleServices : Services Unit where
  registryFingerprint _ := 0
  mintOutput _ amount height :=
    .ok { oneTimePub := BitVec.ofNat _ (2 ^ 200 + height), amountCommit := BitVec.ofNat _ amount }
  rewardAuthorization _ _ _ _ _ := .ok []
  authorizedReward _ _ _ _ := fail "no authorized reward"
  stakingPoolRemaining _ := 0
  executeAVM _ _ := .ok ()
  checkLPoDConfig _ _ _ := fail "lpod: not configured"
  previewLPoD _ _ := fail "lpod: not configured"
  lpodPositions _ _ _ := .ok fun _ _ => false
  saleStarted _ := false
  settleSale _ _ := fail "sale: not configured"
  saleTransactions _ := none
  onCanonicalBlock _ _ := .ok ()

/-- The block validator `v` makes on top of `parent`. -/
def blockOn (parent : Block) (v : UInt8) (txs : List Transaction) : Block where
  header :=
    { height := parent.header.height + 1
      prevHash := parent.hash hashing
      merkleRoot := merkleRoot hashing txs
      timestamp := parent.header.timestamp + 1
      round := parent.header.round + 1
      validatorPub := sampleValidator v
      baseFee := initialBaseFeePerByte
      signature := List.replicate 64 0 }
  txs

def sampleGenesis : Block := { header := { height := 0 } }

/-- A chain of the genesis block and one more. -/
def chainOf (b : Block) : Chain where
  blocks := ((∅ : GoMap Hash32 Block).set (sampleGenesis.hash hashing) sampleGenesis).set
    (b.hash hashing) b
  byHeight := ((∅ : GoMap Nat Block).set 0 sampleGenesis).set 1 b
  tip := some b
  genesis := some sampleGenesis

end Aperod
