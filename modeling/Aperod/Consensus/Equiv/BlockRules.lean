import Aperod.Consensus.Equiv.Finality
import Aperod.Core.BlockVerifier
import Aperod.Lpod.Store

/-!
# The rules of the block verifier in consensus

`VerifyBlock` and `handleIncomingBlock` check blocks independently.  `handleIncomingBlock` implies
the verifier's rules on structure, continuity and proofs (`verifyBlock_iff_of_accepted`), but it
neither counts nor measures transactions, and only LPoD compares the timestamp with the parent's: an
accepted block follows the other rules exactly if it does so by itself (`accepted_follows_iff`).
-/

namespace Aperod

open Go BlockVerifierConfig

/-! ### The rules -/

/-- The rules of `VerifyBlock` on a block and its parent that do not look at the wall clock. -/
structure BlockVerifierConfig.Follows (cfg : BlockVerifierConfig) (parent b : Block) : Prop where
  ordered : parent.header.timestamp < b.header.timestamp
  count : b.txs.length ≤ cfg.maxTxsPerBlock
  measure : b.size ≤ cfg.maxBlockSize

variable {C : Externals} {cfg : BlockVerifierConfig} {parent b : Block}

theorem BlockVerifierConfig.follows_iff : cfg.Follows parent b ↔
    checkOrder parent b = .ok () ∧ cfg.checkLimits b = .ok () := by
  unfold checkOrder checkLimits
  simp only [bind_eq_ok, failIf_eq_ok, not_not, gt_iff_lt, exists_const]
  constructor
  · intro h
    exact ⟨h.ordered, not_lt.mpr h.count, not_lt.mpr h.measure⟩
  · rintro ⟨hordered, hcount, hmeasure⟩
    exact ⟨hordered, not_lt.mp hcount, not_lt.mp hmeasure⟩

theorem BlockVerifier.verifyBlock_eq_ok {v : BlockVerifier} {now : Int} (hb : b.isGenesis = false)
    (hparent : v.chain.getByHash b.header.prevHash = some parent) :
    v.verifyBlock C now b = .ok () ↔ b.validate C b.header.validatorPub = .ok () ∧
      succHeight parent.header.height = b.header.height ∧ v.cfg.Follows parent b ∧
      v.cfg.checkClock now b = .ok () ∧
      ∀ txV, v.txVerifier = some txV → txV.verifyBlock C b = .ok () := by
  have hlook : v.checkParent now b = .ok () ↔ succHeight parent.header.height = b.header.height ∧
      checkOrder parent b = .ok () ∧ v.cfg.checkClock now b = .ok () := by
    unfold checkParent
    rw [hb, if_neg Bool.false_ne_true, hparent]
    simp only [bind_eq_ok, failIf_eq_ok, not_not, Unique.exists_iff, PUnit.default_eq_unit]
  have hcrypto : v.checkTxs C b = .ok () ↔
      ∀ txV, v.txVerifier = some txV → txV.verifyBlock C b = .ok () := by
    unfold checkTxs
    cases v.txVerifier <;> simp
  unfold verifyBlock
  simp only [bind_eq_ok, wrap_eq_ok, Unique.exists_iff, PUnit.default_eq_unit, hlook, hcrypto,
    follows_iff]
  tauto

/-! ### LPoD and the order of timestamps -/

/-- A settlement with positions is previewed only on a clock that has moved on. -/
theorem Lpod.DB.previewLPoD_clock {d : Lpod.DB} {K : Lpod.Encodings} {o : RangeOrder}
    {height : UInt64} {r : Lpod.Settlement} {p : Lpod.Checkpoint × List Lpod.Payment}
    (hpositions : r.positionProtocol = true) (h : d.previewLPoD C K o height r = .ok p) :
    ∃ parent, d.readCanonicalBlock C (height - 1) = .ok parent ∧ parent.hash C = r.parent ∧
      parent.header.timestamp < r.timestamp := by
  replace h := past h
  replace h := past h
  obtain ⟨loaded, -, h⟩ := unbind h
  obtain ⟨before, -, h⟩ := unbind h
  rw [if_pos hpositions] at h
  obtain ⟨t, ht, -⟩ := unbind h
  unfold Lpod.DB.positionTransition at ht
  split at ht
  · cases ht
  · replace ht := past ht
    obtain ⟨elapsed, helapsed, -⟩ := unbind ht
    obtain ⟨parent, hparent, helapsed⟩ := unbind helapsed
    obtain ⟨⟨⟩, hclock, -⟩ := unbind helapsed
    rw [failIf_eq_ok, not_or, not_not, not_le] at hclock
    exact ⟨parent, hparent, hclock⟩

/-! ### Accepted blocks -/

namespace Engine

variable {S : Type} {V : Services S} {e e' : Engine S} {env : Env} {tip : Block}

/-- What `previewLPoD_clock` says, for the services of an engine whose store has its tip. -/
def LPoDClock (V : Services S) (e : Engine S) : Prop :=
  ∀ r p tip, V.previewLPoD e.store r = .ok p → e.chain.tip = some tip →
    tip.header.timestamp < r.header.timestamp

theorem timestamp_of_lpodActive {now : Int} (hclock : e.LPoDClock V)
    (hlpod : e.lpodActive b.header.height = true)
    (h : e.validateRingCTV4Activation C V now b = .ok ()) (htip : e.chain.tip = some tip) :
    tip.header.timestamp < b.header.timestamp := by
  obtain ⟨⟨⟩, h, -⟩ := unbind h
  unfold validateLPoD at h
  rw [if_pos hlpod] at h
  obtain ⟨preview, hpreview, -⟩ := unbind h
  replace hpreview := past hpreview
  obtain ⟨⟨leader, txs⟩, -, hpreview⟩ := unbind hpreview
  obtain ⟨_, -, hpreview⟩ := unbind hpreview
  replace hpreview := past hpreview
  exact hclock _ _ tip hpreview htip

/-- **The rules `handleIncomingBlock` leaves to the block.**  An accepted block follows the rules of
the block verifier exactly if it is not too long and too large by itself and, before LPoD, comes
after its parent. -/
theorem accepted_follows_iff (hclock : e.LPoDClock V) (htip : e.chain.tip = some tip)
    (h : e.handleIncomingBlock C V env b = .ok e') :
    cfg.Follows tip b ↔
      (e.lpodActive b.header.height = false → tip.header.timestamp < b.header.timestamp) ∧
      b.txs.length ≤ cfg.maxTxsPerBlock ∧ b.size ≤ cfg.maxBlockSize := by
  obtain ⟨e1, haccept, -⟩ := unbind h
  obtain ⟨-, -, -, -, slashing, -, -, hcontent, -⟩ := acceptBlock_eq_ok.mp haccept
  obtain ⟨-, -, -, hactivation, -⟩ := checkContent_eq_ok.mp hcontent
  constructor
  · intro hfollows
    exact ⟨fun _ => hfollows.ordered, hfollows.count, hfollows.measure⟩
  · rintro ⟨hordered, hcount, hmeasure⟩
    refine ⟨?_, hcount, hmeasure⟩
    by_cases hlpod : e.lpodActive b.header.height = true
    · exact timestamp_of_lpodActive hclock hlpod hactivation htip
    · exact hordered (Bool.eq_false_iff.mpr hlpod)

end Engine

/-! ### A block that is older than its parent -/

/-- A block of validator 3 on the first block, one nanosecond before it. -/
def earlyBlock : Block :=
  let b := blockOn firstBlock 3 []
  { b with header := { b.header with timestamp := firstBlock.header.timestamp - 1 } }

/-- A later block with one transaction follows the rules. -/
theorem later_block_follows : ∃ e',
    (votedCommittee []).handleIncomingBlock hashing idleServices { now := 5 } withdrawalBlock =
      .ok e' ∧ ({} : BlockVerifierConfig).Follows firstBlock withdrawalBlock := by
  obtain ⟨e', haccept⟩ : ∃ e', (votedCommittee []).handleIncomingBlock hashing idleServices
      { now := 5 } withdrawalBlock = .ok e' :=
    ⟨_, bind_ok (withdrawalBlock_accepted (votedCommittee []).finality) rfl⟩
  refine ⟨e', haccept, ?_⟩
  rw [Engine.accepted_follows_iff (fun _ _ _ h => by cases h) rfl haccept]
  exact ⟨fun _ => by decide, by decide, by decide⟩

set_option maxRecDepth 8000 in
/-- It is accepted. -/
theorem earlier_block_accepted : ∃ e',
    (votedCommittee []).handleIncomingBlock hashing idleServices { now := 5 } earlyBlock = .ok e' ∧
      (votedCommittee []).chain.tip = some firstBlock ∧
      ¬ ({} : BlockVerifierConfig).Follows firstBlock earlyBlock := by
  have hheader : (votedCommittee []).checkHeader { now := 5 } earlyBlock = .ok () := by
    have hlater : (votedCommittee []).checkHeader { now := 5 } (blockOn firstBlock 3 []) = .ok () :=
      committee_checkHeader (votedCommittee_active []) rfl (by decide) (by decide) (by decide) rfl
    obtain ⟨-, hrest⟩ := Engine.checkHeader_eq_ok.mp hlater
    exact Engine.checkHeader_eq_ok.mpr ⟨by decide, hrest⟩
  obtain ⟨r, hr, -⟩ : ∃ r, (votedCommittee []).commitRegistry hashing earlyBlock = .ok r ∧ True :=
    exists_ok_of_test (by decide +kernel)
  obtain ⟨chain, hchain, -⟩ : ∃ c, (votedCommittee []).chain.addBlock hashing earlyBlock = .ok c ∧
      True := exists_ok_of_test (by decide +kernel)
  obtain ⟨e', haccept⟩ : ∃ e', (votedCommittee []).acceptBlock hashing idleServices { now := 5 }
      earlyBlock = .ok e' :=
    ⟨_, Engine.acceptBlock_eq_ok.mpr ⟨rfl, rfl, by decide +kernel, hheader, _, rfl, rfl,
      by decide +kernel, r, chain, (), hr, hchain, rfl, rfl⟩⟩
  refine ⟨_, bind_ok haccept rfl, rfl, fun hfollows => ?_⟩
  exact absurd hfollows.ordered (by decide)

end Aperod
