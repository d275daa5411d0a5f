import Aperod.Consensus.Equiv.Refusal
import Aperod.Core.Equiv.TxVerifier

/-!
# Staked collateral in rings

From the exclusion height on, the ring of a CLSAG transaction must not name an output that is locked
as collateral.  `VerifyBlock` asks the UTXO set for the outputs locked by earlier blocks, and reads
the deposits of the block itself from their payloads.
-/

namespace Aperod

open Go ValidatorRegistry UTXOSet Transaction Engine TxVerifier List

variable {C : Externals} {S : Type} {V : Services S}
variable {height : Nat} {k : UTXOKey} {tx : Transaction} {txs : List Transaction}
  {r r' : ValidatorRegistry}

/-- The outputs the deposits of a block burn. -/
def Block.burns (b : Block) : List UTXOKey := b.txs.filterMap stakeBurnKey

/-- The outputs burned by the blocks of a run. -/
def lockedBy (events : List NodeEvent) : List UTXOKey :=
  events.flatMap fun
    | .accept b => b.burns
    | _ => []

/-- `u` is the output behind a ring member of a CLSAG transaction of the block. -/
def Block.NamesInRing (b : Block) (s : UTXOSet) (u : UTXO) : Prop :=
  ∃ tx ∈ b.txs, tx.usesCLSAG = true ∧ ∃ inp ∈ tx.inputs, ∃ m ∈ inp.ring, s.getRingMember m = some u

/-! ### What is locked stays locked -/

section

variable {t t' : UTXOSet}

theorem markStaked_staked (h : t.markStaked k = .ok t') :
    t'.isStaked k = true ∧ ∀ j, t.isStaked j = true → t'.isStaked j = true := by
  obtain ⟨-, u, -, rfl⟩ := markStaked_eq_ok.mp h
  refine ⟨GoMap.has_eq_true.mpr ⟨u, GoMap.get_set_self _ _ _⟩, ?_⟩
  intro j hj
  exact GoMap.has_set_eq_true.mpr (.inr hj)

theorem applyBlockStakeTxs_staked (ht : r.utxos = some t)
    (h : r.applyBlockStakeTxs C txs height = .ok r') : ∃ t', r'.utxos = some t' ∧
      (∀ j, t.isStaked j = true → t'.isStaked j = true) ∧
      ∀ j ∈ txs.filterMap stakeBurnKey, t'.isStaked j = true := by
  unfold applyBlockStakeTxs at h
  generalize 0 = i at h
  induction txs generalizing r t i with
  | nil =>
    cases h
    exact ⟨t, ht, fun _ hj => hj, by simp⟩
  | cons tx txs ih =>
    obtain ⟨r1, hone, hrest⟩ := loop_cons_eq_ok.mp h
    by_cases hst : tx.isStake = true
    · rw [if_pos hst] at hone
      obtain ⟨t1, ht1, ⟨hnone, rfl⟩ | ⟨k, hk, hmark⟩⟩ := applyOneTx_burns hst ht hone
      · rw [filterMap_cons, hnone]
        exact ih ht1 (i + 1) hrest
      · obtain ⟨t2, ht2, hkeep, hburned⟩ := ih ht1 (i + 1) hrest
        obtain ⟨hself, hold⟩ := markStaked_staked hmark
        refine ⟨t2, ht2, fun j hj => hkeep j (hold j hj), ?_⟩
        rw [filterMap_cons, hk]
        intro j hj
        rcases mem_cons.mp hj with rfl | hj
        · exact hkeep j hself
        · exact hburned j hj
    · have hnone : tx.stakeBurnKey = none := by
        unfold stakeBurnKey
        rw [if_neg hst]
      rw [if_neg hst] at hone
      cases hone
      rw [filterMap_cons, hnone]
      exact ih ht (i + 1) hrest

end

section

variable {e e' : Engine S} {s : UTXOSet} {env : Env} {b : Block} {chain : Chain} {store : S}

theorem commitRegistry_staked (hs : e.registry.utxos = some s)
    (h : e.commitRegistry C b = .ok r) : ∃ s', r.utxos = some s' ∧
      (∀ j, s.isStaked j = true → s'.isStaked j = true) ∧ ∀ j ∈ b.burns, s'.isStaked j = true := by
  obtain ⟨s0, s1, hs0, happ, hstake⟩ := commitRegistry_eq_ok.mp h
  rw [hs] at hs0
  cases hs0
  obtain ⟨-, rfl⟩ := applyBlock_spec happ
  obtain ⟨s', hs', hkeep, hburned⟩ := applyBlockStakeTxs_staked rfl hstake
  refine ⟨s', hs', fun j hj => hkeep j ?_, hburned⟩
  unfold isStaked
  rw [applyTxs_staked]
  exact hj

theorem advance_utxos :
    (e.advance C env b r chain store).registry.utxos = r.utxos := by
  unfold advance
  split_ifs <;> rfl

theorem NodeStep.staked {event : NodeEvent} (h : NodeStep C V e event e') :
    (∀ s, e.registry.utxos = some s → ∃ s', e'.registry.utxos = some s' ∧
      ∀ j, s.isStaked j = true → s'.isStaked j = true) ∧
    ∀ j ∈ lockedBy [event], ∃ s', e'.registry.utxos = some s' ∧ s'.isStaked j = true := by
  have hcommit : ∀ {e0 e1 : Engine S} {env : Env} {b : Block} {r : ValidatorRegistry} {chain : Chain}
      {store : S}, e0.registry = e.registry → e0.commitRegistry C b = .ok r →
      e' = e1.advance C env b r chain store →
      (∀ s, e.registry.utxos = some s → ∃ s', e'.registry.utxos = some s' ∧
        ∀ j, s.isStaked j = true → s'.isStaked j = true) ∧
      ∀ j ∈ b.burns, ∃ s', e'.registry.utxos = some s' ∧ s'.isStaked j = true := by
    intro e0 e1 env b r chain store hreg hr he
    rw [he, advance_utxos]
    constructor
    · intro s hs
      obtain ⟨s', hs', hkeep, -⟩ := commitRegistry_staked (hreg ▸ hs) hr
      exact ⟨s', hs', hkeep⟩
    · intro j hj
      obtain ⟨s, _, hs, -⟩ := commitRegistry_eq_ok.mp hr
      obtain ⟨s', hs', -, hburned⟩ := commitRegistry_staked hs hr
      exact ⟨s', hs', hburned j hj⟩
  have hquiet : e'.registry = e.registry → lockedBy [event] = [] →
      (∀ s, e.registry.utxos = some s → ∃ s', e'.registry.utxos = some s' ∧
        ∀ j, s.isStaked j = true → s'.isStaked j = true) ∧
      ∀ j ∈ lockedBy [event], ∃ s', e'.registry.utxos = some s' ∧ s'.isStaked j = true := by
    intro hreg hnone
    rw [hreg, hnone]
    exact ⟨fun s hs => ⟨s, hs, fun _ hj => hj⟩, by simp⟩
  cases h with
  | incoming hok =>
    obtain ⟨-, -, -, -, _, -, -, -, r, _, _, hr, -, -, he⟩ := acceptBlock_eq_ok.mp hok
    simpa [lockedBy] using hcommit rfl hr he
  | produced hok =>
    obtain ⟨-, -, -, -, -, r, _, _, hr, -, -, he⟩ := commitProduced_eq_ok.mp hok
    simpa [lockedBy] using hcommit rfl hr he
  | unstage => exact hquiet rfl rfl
  | vote => exact hquiet rfl rfl

theorem lockedBy_staked {e0 : Engine S} {events : List NodeEvent}
    (h : Run (NodeStep C V) e0 events e) :
    ∀ j ∈ lockedBy events, ∃ s, e.registry.utxos = some s ∧ s.isStaked j = true := by
  refine h.history (fun past q => ∀ j ∈ lockedBy past, ∃ s, q.registry.utxos = some s ∧
    s.isStaked j = true) ?_ (by simp [lockedBy])
  intro past a event a' _ hpast hstep
  obtain ⟨hkeep, hnew⟩ := hstep.staked
  intro j hj
  have happ : lockedBy (past ++ [event]) = lockedBy past ++ lockedBy [event] := by
    simp [lockedBy]
  rw [happ] at hj
  rcases mem_append.mp hj with hj | hj
  · obtain ⟨s, hs, hstaked⟩ := hpast j hj
    obtain ⟨s', hs', hgrow⟩ := hkeep s hs
    exact ⟨s', hs', hgrow j hstaked⟩
  · exact hnew j hj

/-! ### What the verifier looks at -/

/-- Sale transactions are neither CLSAG spends nor deposits. -/
theorem verified_block {now : Int} (h : e.verifyBlockWithSales C V now b = .ok ()) :
    ∃ b' : Block, (e.txVerifier now).verifyBlock C b' = .ok () ∧ b'.header = b.header ∧
      ∀ tx ∈ b.txs, tx.isSale = false → tx ∈ b'.txs := by
  obtain ⟨prepared, -, h⟩ := unbind h
  refine ⟨_, h, ?_, ?_⟩
  · split_ifs <;> rfl
  · intro tx htx hsale
    split_ifs
    · exact mem_filter.mpr ⟨htx, by simp [hsale]⟩
    · exact htx

theorem verifyBlock_member_unlocked {v : TxVerifier} {b : Block}
    {inp : RingInput} {m : Point32} (h : v.verifyBlock C b = .ok ()) (hs : v.utxos = some s)
    (hact : v.exclusionActive b.header.height = true) (htx : tx ∈ b.txs)
    (hcl : tx.usesCLSAG = true) (hinp : inp ∈ tx.inputs) (hm : m ∈ inp.ring) {u : UTXO}
    (hu : s.getRingMember m = some u) :
    u.key ∉ b.txs.filterMap stakeBurn ∧ s.isStaked u.key = false := by
  have hne : tx.inputs ≠ [] := ne_nil_of_mem hinp
  have hkinds : tx.version = .clsag ∨ tx.version = .avm := by
    simpa [usesCLSAG] using hcl
  have hskip : (tx.isCoinbase || tx.isGuardianFund || tx.isLPoD || tx.isLPoDPayout) = false := by
    rcases hkinds with hv | hv <;>
      simp [isCoinbase, isGuardianFund, isLPoD,
        isLPoDPayout, hv, hne]
  have hver : v.verifyTx C tx (v.blockStakeBurns b) b.header.height = .ok () := by
    rcases verifyBlock_spec h htx with hk | hk
    · rw [hskip] at hk
      cases hk
    · exact hk
  have hring : v.verifyRingTx C tx (v.blockStakeBurns b) b.header.height = .ok () := by
    replace hver := past hver
    have hpos : tx.isLPoDPosition = false := by
      rcases hkinds with hv | hv <;> simp [isLPoDPosition, hv]
    rw [hpos, if_neg fun hlen => hne (length_eq_zero_iff.mp hlen)] at hver
    exact hver
  obtain ⟨i, hi⟩ := getElem?_of_mem hinp
  obtain ⟨j, hj⟩ := getElem?_of_mem hm
  have hbind := (verifyRingTx_spec hring).binding s hs i inp hi
  obtain ⟨u', hu', -, hfree⟩ := checkRingBinding_clsag hbind hcl hj
  rw [hu] at hu'
  cases hu'
  obtain ⟨hburns, hstaked⟩ := hfree hact
  unfold blockStakeBurns at hburns
  rw [if_pos hact] at hburns
  exact ⟨hburns, hstaked⟩

/-- The verifier reads an accepted deposit of layout v2 or v3 as the stake loop does. -/
theorem stakeBurn_of_applied (hst : tx.isStake = true) (h : r.applyOneTx C tx height = .ok r')
    (hk : tx.stakeBurnKey = some k) (hlay : stakeLayout tx.extra ≠ .v4) :
    stakeBurn tx = some k := by
  have hdep : (stakeLayout tx.extra).isDeposit = true := by
    by_contra hnot
    rw [stakeBurnKey_of_not_deposit (by simpa using hnot)] at hk
    cases hk
  obtain ⟨u, -, hchk, -⟩ := (applyOneTx_deposit hst hdep).mp h
  rw [stakeBurnKey_of_deposit hst hchk] at hk
  cases hk
  have haction := hchk.action
  unfold stakeBurn
  rw [if_pos hst]
  rcases hl : stakeLayout tx.extra with _ | _ | _ | _ | _ | _
  all_goals rw [hl] at hdep hlay
  all_goals first | exact absurd hdep (by decide) | exact absurd rfl hlay | skip
  · have hlen : tx.extra.length = stakePayloadSizeV2 := by
      unfold stakeLayout at hl
      split_ifs at hl with _ _ h2
      exact h2
    rw [if_pos hlen, decodeStakeExtraV2_of_layout hl]
    simp only [haction, if_true]
    rfl
  · have hlen : tx.extra.length = stakePayloadSizeV3 := by
      unfold stakeLayout at hl
      split_ifs at hl with _ _ _ h3
      exact h3
    have hne : tx.extra.length ≠ stakePayloadSizeV2 := by
      rw [hlen]
      decide
    rw [if_neg hne, if_pos hlen, decodeStakeExtraV3_of_layout hl]
    simp only [haction, if_true]
    rfl

theorem burns_seen (h : r.applyBlockStakeTxs C txs height = .ok r') (htx : tx ∈ txs)
    (hk : tx.stakeBurnKey = some k) (hlay : stakeLayout tx.extra ≠ .v4) :
    tx.isSale = false ∧ stakeBurn tx = some k := by
  have hst : tx.isStake = true := by
    by_contra hst
    unfold stakeBurnKey at hk
    rw [if_neg hst] at hk
    cases hk
  obtain ⟨i, a, a', hone⟩ := loop_mem h htx
  rw [if_pos hst] at hone
  refine ⟨?_, stakeBurn_of_applied hst hone hk hlay⟩
  have hv : tx.version = .stake := of_decide_eq_true hst
  simp [isSale, hv]

/-! ### The rule -/

/-- At a height with the exclusion rule, after any run: no ring of an accepted block names an output
that an earlier block or the block itself has locked, exactly if none names an output a v4 deposit of
the block burns. -/
theorem collateral_excluded_iff {e0 : Engine S} {events : List NodeEvent}
    (hrun : Run (NodeStep C V) e0 events e) (hs : e.registry.utxos = some s)
    (hacc : e.acceptBlock C V env b = .ok e')
    (hact : (e.txVerifier env.now).exclusionActive b.header.height = true) :
    (∀ u, b.NamesInRing s u →
      u.key ∉ lockedBy events ∧ s.isStaked u.key = false ∧ u.key ∉ b.burns) ↔
    ∀ tx ∈ b.txs, stakeLayout tx.extra = .v4 →
      ∀ u, b.NamesInRing s u → tx.stakeBurnKey ≠ some u.key := by
  constructor
  · intro hrule tx htx _ u hu hkey
    obtain ⟨-, -, hburns⟩ := hrule u hu
    exact hburns (mem_filterMap.mpr ⟨tx, htx, hkey⟩)
  · intro hv4 u hu
    obtain ⟨-, -, -, -, _, -, -, hcontent, r, _, _, hr, -, -, -⟩ :=
      acceptBlock_eq_ok.mp hacc
    obtain ⟨-, -, -, -, -, hverify, -⟩ := checkContent_eq_ok.mp hcontent
    obtain ⟨b', hb', hheader, hkept⟩ := verified_block hverify
    obtain ⟨tx, htx, hcl, inp, hinp, m, hm, hmem⟩ := id hu
    have hsale : tx.isSale = false := by
      have hkinds : tx.version = .clsag ∨ tx.version = .avm := by
        simpa [usesCLSAG] using hcl
      rcases hkinds with hv | hv <;> simp [isSale, hv]
    obtain ⟨hseen, hstaked⟩ := verifyBlock_member_unlocked hb' hs (hheader ▸ hact)
      (hkept tx htx hsale) hcl hinp hm hmem
    refine ⟨?_, hstaked, ?_⟩
    · intro hlocked
      obtain ⟨s', hs', hstaked'⟩ := lockedBy_staked hrun _ hlocked
      rw [hs] at hs'
      cases hs'
      rw [hstaked] at hstaked'
      cases hstaked'
    · intro hburned
      obtain ⟨d, hd, hkey⟩ := mem_filterMap.mp hburned
      by_cases hlay : stakeLayout d.extra = .v4
      · exact hv4 d hd hlay u hu hkey
      · obtain ⟨_, _, -, -, hstake⟩ := commitRegistry_eq_ok.mp hr
        obtain ⟨hdsale, hburn⟩ := burns_seen hstake hd hkey hlay
        exact hseen (mem_filterMap.mpr ⟨d, hkept d hd hdsale, hburn⟩)

end

/-! ### A v4 deposit beside a ring that names its collateral -/

/-- The output of key `i`, at outpoint `(i, 0)`. -/
def ringOutput (i : Nat) : UTXO :=
  { txHash := BitVec.ofNat _ i, outputIndex := 0, oneTimePub := BitVec.ofNat _ i, blockHeight := 0
    amountCommit := if i = 2 ∨ i = 17 then BitVec.ofNat _ minStakeNAPR else 2000000 }

/-- Outputs of the keys `1, …, 17`; those of keys 2 and 17 are worth the minimum stake. -/
def ringOutputs : UTXOSet :=
  let outputs := (range 17).map fun i => ringOutput (i + 1)
  { utxos := GoMap.index UTXO.key outputs ∅, byPubKey := GoMap.index UTXO.oneTimePub outputs ∅ }

/-- Key 1 spends its output in the ring of the first sixteen. -/
def ringSpend : Transaction :=
  { version := .clsag
    inputs := [{ keyImage := 1, ring := exampleRing, amountCommit := 0, pseudoOut := 2000000
                 ringCommitments := (range 16).map fun i => (ringOutput (i + 1)).amountCommit }]
    outputs := [{ oneTimePub := 20, amountCommit := 500000 }]
    fee := 1500000
    feeCommit := 1500000
    rangeProofs := [some ⟨[], 500000⟩]
    clsagSignatures := [some ⟨0, replicate 16 0, 1, 0⟩] }

/-- Validator 1 deposits the output of key `i` with a v4 payload. -/
def ringDeposit (i : Nat) : Transaction :=
  { version := .stake
    extra := [1] ++ sampleValidator 1 ++ beBytes 8 minStakeNAPR ++ replicate 64 0 ++
      Bytes32.bytes (BitVec.ofNat _ i) ++ beBytes 4 0 ++ Bytes32.bytes 0 ++
      Bytes32.bytes (BitVec.ofNat _ i) ++ replicate 96 0 }

/-- The committee, with CLSAG, the exclusion rule and key-image proofs in force. -/
def ringCommittee : Engine Unit :=
  { committee with
    cfg := { committee.cfg with
      ringCTCLSAGActivationHeight := 1
      stakedCollateralRingExclusionActivationHeight := 1 }
    registry := { committee.registry with
      utxos := some ringOutputs
      stakeKeyImageActivation := 1 } }

/-- The spend, and a deposit of the output of key `i`. -/
def ringBlock (i : Nat) : Block := blockOn firstBlock 3 [ringSpend, ringDeposit i]

/-- The committee accepts a block on the first one that passes what depends on the transactions. -/
theorem ringCommittee_accepts (txs : List Transaction)
    (hvalid : (blockOn firstBlock 3 txs).validate hashing (sampleValidator 3) = .ok ())
    (hcontent : ringCommittee.checkContent hashing idleServices 5 (blockOn firstBlock 3 txs) =
      .ok ())
    (hr : (ringCommittee.commitRegistry hashing (blockOn firstBlock 3 txs)).isOk = true)
    (hchain : (ringCommittee.chain.addBlock hashing (blockOn firstBlock 3 txs)).isOk = true) :
    ∃ e', ringCommittee.acceptBlock hashing idleServices { now := 5 } (blockOn firstBlock 3 txs) =
      .ok e' := by
  have hheader : ringCommittee.checkHeader { now := 5 } (blockOn firstBlock 3 txs) = .ok () :=
    committee_checkHeader (votedCommittee_active []) rfl (by decide) (by decide) (by decide) rfl
  obtain ⟨r, hr⟩ := exists_of_isOk hr
  obtain ⟨chain, hchain⟩ := exists_of_isOk hchain
  exact ⟨_, acceptBlock_eq_ok.mpr ⟨rfl, rfl, hvalid, hheader, _, rfl, rfl, hcontent, r, chain,
    (), hr, hchain, rfl, rfl⟩⟩

/-- The deposit of an output outside the ring: the block is accepted and keeps the rule. -/
theorem ring_without_collateral : ∃ e',
    ringCommittee.acceptBlock hashing idleServices { now := 5 } (ringBlock 17) = .ok e' ∧
      ∀ u, (ringBlock 17).NamesInRing ringOutputs u → ringOutputs.isStaked u.key = false ∧
        u.key ∉ (ringBlock 17).burns := by
  obtain ⟨e', he'⟩ := ringCommittee_accepts [ringSpend, ringDeposit 17]
    (by decide +kernel) (by decide +kernel) (by decide +kernel) (by decide +kernel)
  refine ⟨e', he', fun u hu => ?_⟩
  refine (((collateral_excluded_iff (.nil ringCommittee) rfl he' rfl).mpr ?_) u hu).2
  -- the ring members are the keys 1 to 16, and the deposit burns the output of key 17
  have hnamed : exampleRing.all (fun m => (ringOutputs.getRingMember m).map UTXO.key ≠
      some (ringOutput 17).key) = true := by decide +kernel
  have hburn : ∀ tx ∈ (ringBlock 17).txs, tx.stakeBurnKey = none ∨
      tx.stakeBurnKey = some (ringOutput 17).key := by decide +kernel
  rintro tx htx - w ⟨tx', htx', hcl, inp, hinp, m, hm, hget⟩ hkey
  have hspend : tx' = ringSpend := by
    rcases mem_cons.mp htx' with rfl | htx'
    · rfl
    · rw [mem_singleton.mp htx'] at hcl
      cases hcl
  subst hspend
  rw [mem_singleton.mp hinp] at hm
  apply of_decide_eq_true (all_eq_true.mp hnamed m hm)
  rcases hburn tx htx with hnone | hsome
  · rw [hnone] at hkey
    cases hkey
  · rw [hget, Option.map_some, ← hkey, hsome]

/-- The deposit of an output the ring names: the block is accepted all the same. -/
theorem v4_collateral_in_ring : ∃ e' u,
    ringCommittee.acceptBlock hashing idleServices { now := 5 } (ringBlock 2) = .ok e' ∧
      (ringCommittee.txVerifier 5).exclusionActive (ringBlock 2).header.height = true ∧
      (ringBlock 2).NamesInRing ringOutputs u ∧ u.key ∈ (ringBlock 2).burns := by
  obtain ⟨e', he'⟩ := ringCommittee_accepts [ringSpend, ringDeposit 2]
    (by decide +kernel) (by decide +kernel) (by decide +kernel) (by decide +kernel)
  refine ⟨e', ringOutput 2, he', rfl, ?_, by decide +kernel⟩
  exact ⟨ringSpend, mem_cons_self, rfl, _, mem_singleton_self _, 2, by decide +kernel,
    by decide +kernel⟩

end Aperod
