import Aperod.Core.Equiv.Registry
import Aperod.Core.Equiv.Snapshot
import Aperod.Go.Run
import Aperod.Node.Restart

/-!
# Does a restarted node have the registry of a running one?

The replay of a block makes the change of its stake transactions, but neither `runStartupScan` nor
`replayPostSnapshotGap` runs the epoch transition.  So the rebuilt registry is that of the live node
as long as every epoch that ended since the snapshot was quiet (`restart_registry_eq`):
`UpdateEpoch` had nobody to release, to activate or to demote.
-/

namespace Aperod

open Go ValidatorRegistry GoMap List

variable {C : Externals}
variable {i : Nat} {s t : UTXOSet} {o : EpochOrders} {e : ValidatorEntry} {k pub : ValidatorPubKey}

/-! ### Quiet epochs -/

/-- The end of an epoch at which `UpdateEpoch` has nothing to do. -/
structure EpochQuiet (r : ValidatorRegistry) (height : Nat) : Prop where
  bonded : ∀ k e, r.validators.get k = some e → e.status = .unbonding → height < e.unbondEndBlock
  queued : ∀ k e, r.validators.get k = some e → ∀ u ∈ e.unbondingQueue, height < u.endBlock
  seats : activeCount r.validators ≤ maxValidators
  settled : activeCount r.validators < maxValidators →
    ∀ k e, r.validators.get k = some e → e.status = .pending →
      height / epochLength < e.activationEpoch

variable {r : ValidatorRegistry} {height : Nat}

theorem EpochQuiet.released_eq (h : EpochQuiet r height) : r.released height = r.validators := by
  unfold released
  ext k : 1
  rw [get_map]
  rcases hget : r.validators.get k with _ | e
  · rfl
  · have hstatus : ¬ (e.status = .unbonding ∧ height ≥ e.unbondEndBlock) := by
      rintro ⟨hu, hle⟩
      have := h.bonded k e hget hu
      omega
    have hqueue : e.unbondingQueue.filter (height < ·.endBlock) = e.unbondingQueue := by
      rw [filter_eq_self]
      intro u hu
      exact decide_eq_true (h.queued k e hget u hu)
    rw [Option.map_some, ValidatorEntry.release, if_neg hstatus, hqueue]

theorem EpochQuiet.updateEpoch_eq (h : EpochQuiet r height)
    (ho : o.Valid r height) : (r.updateEpoch height o).1 = r := by
  have hpending : o.pending ∈ r.validators.enumerations := h.released_eq ▸ ho.pending
  -- nobody is chosen: no free seat, or no pending validator whose epoch has come
  have hnone : chosen height o.pending r.validators = [] := by
    unfold chosen activationSlots
    by_cases hfree : activeCount r.validators < maxValidators
    · rw [filter_eq_nil_iff.mpr, take_nil]
      intro x hx
      have hmem := mem_filter.mp (mem_sortSlice.mp hx)
      have hstatus : x.2.status = .pending := of_decide_eq_true hmem.2
      have hlt := h.settled hfree x.1 x.2 ((hpending.2 x.1 x.2).mp hmem.1) hstatus
      rw [decide_eq_true_eq]
      omega
    · rw [if_neg hfree, take_zero]
  unfold updateEpoch
  rw [rebalanced_of_free ho h.seats, h.released_eq, hnone]
  rfl

/-- A live step at which the epoch, if one ends, is quiet. -/
def QuietStep (C : Externals) (r : ValidatorRegistry) (b : Block) (r' : ValidatorRegistry) : Prop :=
  LiveStep C r b r' ∧ (epochEnds b.header.height = true →
    ∀ r1, r.commitBlock C b = .ok r1 → EpochQuiet r1 b.header.height)

theorem QuietStep.commit {r' : ValidatorRegistry} {b : Block} (h : QuietStep C r b r') :
    r.commitBlock C b = .ok r' := by
  obtain ⟨⟨-, r1, hcommit, hepoch⟩, hquiet⟩ := h
  split_ifs at hepoch with hends
  · obtain ⟨o, ho, rfl⟩ := hepoch
    rw [(hquiet hends r1 hcommit).updateEpoch_eq ho]
    exact hcommit
  · rw [hepoch]
    exact hcommit

/-! ### One block -/

section

variable {r' q : ValidatorRegistry} {b : Block}

theorem commitBlock_eq_ok : r.commitBlock C b = .ok r' ↔
    ∃ s s', r.utxos = some s ∧ s.applyBlock C b = .ok s' ∧
      (r.withUTXOs s').applyBlockStakeTxs C b.txs b.header.height = .ok r' := by
  simp only [commitBlock, bind_eq_ok, deref_eq_ok, exists_and_left]
  rfl

section

variable (h : r.commitBlock C b = .ok r')
include h

theorem commitBlock_evolves :
    Evolves r.validators r'.validators := by
  obtain ⟨s, s', -, -, h⟩ := commitBlock_eq_ok.mp h
  have hall := applyBlockStakeTxs_evolves h
  exact hall

/-- The stake transactions of a committed block, replayed over any set `t`. -/
theorem replay_commitBlock (hs : r.utxos = some s)
    (t : UTXOSet) :
    ∃ s', Replays r' (s.applyTxs C b) t
      ((r.withUTXOs t).replayBlockStakeTxs C b.txs b.header.height) s' := by
  obtain ⟨s0, s1, hs0, happ, h⟩ := commitBlock_eq_ok.mp h
  rw [hs] at hs0
  cases hs0
  obtain ⟨-, rfl⟩ := UTXOSet.applyBlock_spec happ
  exact replayBlockStakeTxs_spec rfl h t

/-- Both replay paths rebuild the UTXO set in some way and then replay the stake transactions. -/
theorem scanBlock_eq {known : Bool}
    (hq : scanBlock C known b (r.withUTXOs t) = .ok q) : ∃ t', q = r'.withUTXOs t' := by
  obtain ⟨s, -, hs, -, -⟩ := commitBlock_eq_ok.mp h
  simp only [scanBlock, bind_eq_ok, wrap_eq_ok] at hq
  obtain ⟨_, -, t1, -, hq⟩ := hq
  obtain ⟨_, hrep⟩ := replay_commitBlock h hs t1
  exact hrep.same q hq

theorem gapBlock_eq (hq : gapBlock C b (r.withUTXOs t) = .ok q) :
    ∃ t', q = r'.withUTXOs t' := by
  obtain ⟨s, -, hs, -, -⟩ := commitBlock_eq_ok.mp h
  simp only [gapBlock, bind_eq_ok] at hq
  obtain ⟨_, -, t1, -, hq⟩ := hq
  obtain ⟨_, hrep⟩ := replay_commitBlock h hs t1
  exact hrep.same q hq

/-- The scan with a trusted key-image index goes through on a set with the live outputs. -/
theorem scanBlock_ok (hs : r.utxos = some s)
    (hsame : SameOutputs s t)
    (hroom : s.clsagRecentOutputs.length + b.outputCount ≤ maxCLSAGRecentOutputs) :
    ∃ s' t', r'.utxos = some s' ∧ scanBlock C true b (r.withUTXOs t) = .ok (r'.withUTXOs t') ∧
      SameOutputs s' t' ∧
      s'.clsagRecentOutputs.length ≤ s.clsagRecentOutputs.length + b.outputCount := by
  obtain ⟨happlied, hlen⟩ := hsame.applyTxs b hroom
  obtain ⟨s', hrep⟩ := replay_commitBlock h hs (t.applyTxs C b)
  obtain ⟨t', hok, hsame'⟩ := hrep.ok happlied
  refine ⟨s', t', hrep.live, ?_, hsame', by rw [hrep.recent]; exact hlen⟩
  unfold scanBlock
  simp only [bind_eq_ok, wrap_eq_ok]
  exact ⟨t, rfl, t.applyTxs C b, rfl, hok⟩

end

end

/-! ### A run of blocks -/

section

variable {r0 q : ValidatorRegistry} {bs : List Block}

/-- Any replay that follows the live node block by block ends with its validators. -/
theorem loop_replay_eq {f : Block → ValidatorRegistry → Result ValidatorRegistry}
    (hf : ∀ (b : Block) (r r' q : ValidatorRegistry) (t : UTXOSet), r.commitBlock C b = .ok r' →
      f b (r.withUTXOs t) = .ok q → ∃ t', q = r'.withUTXOs t')
    (hrun : Run (QuietStep C) r0 bs r)
    (hq : loop (fun _ b r => f b r) i bs (r0.withUTXOs t) = .ok q) : ∃ t', q = r.withUTXOs t' := by
  induction hrun generalizing t i with
  | nil r =>
    cases hq
    exact ⟨t, rfl⟩
  | cons hstep _ ih =>
    obtain ⟨q1, hone, hrest⟩ := loop_cons_eq_ok.mp hq
    obtain ⟨t1, rfl⟩ := hf _ _ _ _ _ hstep.commit hone
    exact ih hrest

theorem loop_scan_ok (hrun : Run (QuietStep C) r0 bs r)
    (hs : r0.utxos = some s) (hsame : SameOutputs s t)
    (hroom : s.clsagRecentOutputs.length + (bs.map (·.outputCount)).sum ≤ maxCLSAGRecentOutputs) :
    ∃ t', loop (fun _ b r => scanBlock C true b r) i bs (r0.withUTXOs t) =
      .ok (r.withUTXOs t') := by
  induction hrun generalizing s t i with
  | nil r => exact ⟨t, rfl⟩
  | cons hstep _ ih =>
    rw [map_cons, sum_cons] at hroom
    obtain ⟨s1, t1, hs1, hone, hsame1, hlen⟩ :=
      scanBlock_ok hstep.commit hs hsame (by omega)
    obtain ⟨t', hrest⟩ := ih hs1 hsame1 (by omega)
    exact ⟨t', loop_cons_eq_ok.mpr ⟨_, hone, hrest⟩⟩

theorem Knows.has (hkeyed : Keyed r.validators) (h : r.Knows pub) :
    r.validators.has pub = true := by
  obtain ⟨order, ho, hmem⟩ := h
  unfold activeSet at hmem
  rw [mem_sortSlice, mem_map] at hmem
  obtain ⟨⟨k, e⟩, hx, rfl⟩ := hmem
  have hget := (ho.2 k e).mp (mem_of_mem_filter hx)
  rw [hkeyed k e hget]
  exact has_eq_true.mpr ⟨e, hget⟩

theorem producers_registered (hkeyed : Keyed r0.validators) (hrun : Run (QuietStep C) r0 bs r) :
    ∀ b ∈ bs, r.validators.has b.header.validatorPub = true := by
  have hinv := hrun.history (fun past r => Keyed r.validators ∧
    ∀ b ∈ past, r.validators.has b.header.validatorPub = true) ?_ ⟨hkeyed, by simp⟩
  · exact hinv.2
  · rintro past a b a' - ⟨hk, hpast⟩ hstep
    have hev := commitBlock_evolves hstep.commit
    refine ⟨hev.keyed hk, fun b' hb' => hev.has ?_⟩
    rcases mem_append.mp hb' with hb' | hb'
    · exact hpast b' hb'
    · rw [mem_singleton.mp hb']
      exact Knows.has hk hstep.1.1

theorem insertActive_of_has {stake : Nat} {seeded : Bool} {pubs : List ValidatorPubKey}
    (h : ∀ pub ∈ pubs, r.validators.has pub = true) : r.insertActive stake seeded pubs = r := by
  have hfold : pubs.foldl (fun m pub => if m.has pub then m else m.set pub
      { pubKey := pub, stakeNAPR := stake, status := .active, seeded, stakeGeneration := 1 })
      r.validators = r.validators := by
    refine foldlRecOn (motive := (· = r.validators)) pubs _ rfl fun m hm pub hpub => ?_
    rw [hm, if_pos (h pub hpub)]
  unfold insertActive
  rw [hfold]

theorem seed_observed_eq (hreg : ∀ b ∈ bs, r.validators.has b.header.validatorPub = true) :
    r.seedFromObservedProducers (observedProducers bs) = r := by
  refine insertActive_of_has fun pub hpub => ?_
  obtain ⟨hmem, -⟩ := mem_filter.mp (mem_dedup.mp hpub)
  obtain ⟨b, hb, rfl⟩ := mem_map.mp hmem
  exact hreg b hb

end

/-! ### The restart -/

/-- The configuration a restarted node reads is that of the running one. -/
structure SameRules (config r : ValidatorRegistry) : Prop where
  genesis : config.stakeWithdrawalGenesis = r.stakeWithdrawalGenesis
  withdrawal : config.stakeWithdrawalActivation = r.stakeWithdrawalActivation
  keyImage : config.stakeKeyImageActivation = r.stakeKeyImageActivation
  fork : config.signatureFork = r.signatureFork

theorem bootRegistry_eq {config : ValidatorRegistry} (h : SameRules config r) (t : UTXOSet) :
    bootRegistry config r.takeSnapshot t = r.withUTXOs t := by
  cases config
  obtain ⟨rfl, rfl, rfl, rfl⟩ := h
  rfl

/-- The same entries, and so the same stakes, statuses, nonces and queues, and the same ordered
active set. -/
structure RegistryAgrees (r q : ValidatorRegistry) : Prop where
  validators : q.validators = r.validators
  activeSet : ∀ order ∈ r.validators.enumerations, ∀ order' ∈ q.validators.enumerations,
    activeSet order' = activeSet order

theorem registryAgrees_withUTXOs (r : ValidatorRegistry) (t : UTXOSet) :
    RegistryAgrees r (r.withUTXOs t) :=
  ⟨rfl, fun _ ho _ ho' => activeSet_congr ho' ho⟩

/-- From a snapshot at any reachable registry, over any blocks whose epochs were quiet on the live
node: both replay paths end with the live registry if they end, whatever UTXO set was restored; and
the scan does end if the set was restored from a snapshot of a coherent one and the blocks do not
overflow the tracking of recent outputs. -/
theorem restart_registry_eq {r0 r config : ValidatorRegistry} {bs : List Block}
    (hreach : r0.Reachable C) (hrun : Run (QuietStep C) r0 bs r) (hrules : SameRules config r0) :
    (∀ known t q, runStartupScan C known bs (bootRegistry config r0.takeSnapshot t) = .ok q →
      RegistryAgrees r q) ∧
    (∀ t q, replayPostSnapshotGap C bs (bootRegistry config r0.takeSnapshot t) = .ok q →
      RegistryAgrees r q) ∧
    (∀ (s fresh : UTXOSet) (snap : UTXOSnapshot), r0.utxos = some s → s.Coherent → snap.Of s →
      fresh.clsagActivationHeight = s.clsagActivationHeight → fresh.clsagRecentOutputs = [] →
      s.clsagRecentOutputs.length + (bs.map (·.outputCount)).sum ≤ maxCLSAGRecentOutputs →
      ∃ q, runStartupScan C true bs
        (bootRegistry config r0.takeSnapshot (fresh.restoreFromSnapshot snap)) = .ok q) := by
  have hseed : ∀ t', (if activeCount (r.withUTXOs t').validators = 0 ∧ observedProducers bs ≠ []
      then (r.withUTXOs t').seedFromObservedProducers (observedProducers bs)
      else r.withUTXOs t') = r.withUTXOs t' := by
    intro t'
    have hreg := producers_registered hreach.keyed hrun
    rw [seed_observed_eq (r := r.withUTXOs t') hreg, ite_self]
  refine ⟨fun known t q hq => ?_, fun t q hq => ?_,
    fun s fresh snap hs hcoh hsnap hact hnew hroom => ?_⟩
  · rw [bootRegistry_eq hrules] at hq
    obtain ⟨q1, hloop, hq⟩ := unbind hq
    obtain ⟨t', rfl⟩ := loop_replay_eq (fun b _ _ _ _ h hq => scanBlock_eq h hq) hrun hloop
    rw [hseed t'] at hq
    cases hq
    exact registryAgrees_withUTXOs r t'
  · rw [bootRegistry_eq hrules] at hq
    obtain ⟨t', rfl⟩ := loop_replay_eq (fun b _ _ _ _ h hq => gapBlock_eq h hq) hrun hq
    exact registryAgrees_withUTXOs r t'
  · rw [bootRegistry_eq hrules]
    obtain ⟨t', hloop⟩ := loop_scan_ok hrun hs (sameOutputs_restore hcoh hsnap hact hnew) hroom
    exact ⟨_, bind_ok hloop rfl⟩

/-! ### A validator that is pending after a restart -/

theorem updateEpoch_activates (ho : o.Valid r height)
    (hget : r.validators.get k = some e) (helig : eligible height e = true)
    (hroom : r.validators.count (eligible height) ≤ activationSlots r.validators)
    (hcap : activeCount r.validators ≤ maxValidators) :
    ((r.updateEpoch height o).1.validators.get k).map (·.status) = some .active := by
  have hreleased : (r.released height).get k = some (e.release height) := by
    unfold released
    rw [get_map, hget]
    rfl
  have hmem : (k, e.release height) ∈
      (sortedPending o.pending).filter fun x => height / epochLength ≥ x.2.activationEpoch := by
    rw [(candidates_perm height o.pending).mem_iff, mem_filter]
    exact ⟨(ho.pending.2 k _).mpr hreleased, by rw [eligible_release]; exact helig⟩
  -- no candidate is cut off
  have hlen : ((sortedPending o.pending).filter
      fun x => height / epochLength ≥ x.2.activationEpoch).length ≤
      activationSlots (r.released height) := by
    rw [(candidates_perm height o.pending).length_eq, ← countP_eq_length_filter,
      countP_enumeration ho.pending (eligible height), activationSlots_released]
    unfold released
    rw [count_map]
    simp only [eligible_release]
    exact hroom
  rw [updateEpoch_get_free ho hreleased hcap, chosen, take_of_length_le hlen, if_pos hmem]
  rfl

theorem knows_of_active
    (hget : r.validators.get k = some e) (hact : e.status = .active) (hpub : e.pubKey = pub) :
    r.Knows pub := by
  obtain ⟨order, ho⟩ := exists_enumeration r.validators
  refine ⟨order, ho, mem_sortSlice.mpr (mem_map.mpr ⟨(k, e), ?_, hpub⟩)⟩
  exact mem_filter.mpr ⟨(ho.2 k e).mpr hget, decide_eq_true hact⟩

def sampleBlock (height : Nat) (txs : List Transaction) : Block where
  header :=
    { height, merkleRoot := merkleRoot transparent txs, validatorPub := sampleValidator 1
      signature := replicate 64 0 }
  txs := txs

/-- Validator 1 at genesis, and collateral for a deposit in the UTXO set. -/
def genesisRegistry : ValidatorRegistry :=
  ({ utxos := some { utxos := (∅ : GoMap UTXOKey UTXO).set ⟨1, 0⟩ sampleCollateral } } :
    ValidatorRegistry).initFromGenesis [sampleValidator 1] (10 * minStakeNAPR)

/-- The registry after a first block with a deposit of validator 3. -/
def snapshotRegistry : ValidatorRegistry :=
  match genesisRegistry.commitBlock transparent (sampleBlock 1 [sampleDeposit 3]) with
  | .ok r => r
  | .error _ => {}

set_option maxRecDepth 4000

theorem genesis_liveStep :
    LiveStep transparent genesisRegistry (sampleBlock 1 [sampleDeposit 3]) snapshotRegistry :=
  ⟨knows_of_active (k := sampleValidator 1) rfl rfl rfl, snapshotRegistry, rfl, rfl⟩

theorem genesisRegistry_reachable : genesisRegistry.Reachable transparent :=
  .initFromGenesis _ _ (.setUTXOSet _ .new)

/-- A restart after the first block, from a snapshot at genesis. -/
theorem restart_after_first_block :
    ∃ t q, runStartupScan transparent true [sampleBlock 1 [sampleDeposit 3]]
        (bootRegistry {} genesisRegistry.takeSnapshot t) = .ok q ∧
      RegistryAgrees snapshotRegistry q := by
  have hrun : Run (QuietStep transparent) genesisRegistry [sampleBlock 1 [sampleDeposit 3]]
      snapshotRegistry :=
    .cons ⟨genesis_liveStep, fun h => absurd h (by decide)⟩ (.nil _)
  have hrules : SameRules {} genesisRegistry := ⟨rfl, rfl, rfl, rfl⟩
  obtain ⟨hscan, -, -⟩ := restart_registry_eq genesisRegistry_reachable hrun hrules
  exact ⟨{ utxos := (∅ : GoMap UTXOKey UTXO).set ⟨1, 0⟩ sampleCollateral }, _, rfl,
    hscan true _ _ rfl⟩

theorem liveStep_empty (hs : r.utxos = some s) (hknows : r.Knows (sampleValidator 1))
    (hwithin : epochEnds height = false) :
    LiveStep transparent r (sampleBlock height []) r := by
  have hcommit : r.commitBlock transparent (sampleBlock height []) = .ok r := by
    refine commitBlock_eq_ok.mpr ⟨s, s, hs, rfl, ?_⟩
    rw [withUTXOs_self hs]
    rfl
  refine ⟨hknows, r, hcommit, ?_⟩
  have hends : epochEnds (sampleBlock height []).header.height = false := hwithin
  rw [hends, if_neg (by decide)]

theorem run_empty (hs : r.utxos = some s) (hknows : r.Knows (sampleValidator 1))
    (heights : List Nat) (hwithin : ∀ h ∈ heights, epochEnds h = false) :
    Run (LiveStep transparent) r (heights.map fun h => sampleBlock h []) r := by
  induction heights with
  | nil => exact .nil r
  | cons h heights ih =>
    refine .cons (liveStep_empty hs hknows (hwithin h mem_cons_self)) (ih fun h' hh' => ?_)
    exact hwithin h' (mem_cons_of_mem _ hh')

/-- The chain up to height 99: a deposit of validator 3 in the first block. -/
def firstEpoch : List Block :=
  sampleBlock 1 [sampleDeposit 3] :: (range' 2 98).map fun h => sampleBlock h []

theorem snapshotRegistry_knows : snapshotRegistry.Knows (sampleValidator 1) :=
  knows_of_active (k := sampleValidator 1) rfl rfl rfl

/-- The snapshot is taken at height 99.  Block 100 ends the epoch: the live node activates validator
3, and on both restart paths the validator stays pending. -/
theorem pending_after_restart :
    ∃ (r q q' : ValidatorRegistry) (t : UTXOSet), genesisRegistry.Reachable transparent ∧
      Run (LiveStep transparent) genesisRegistry firstEpoch snapshotRegistry ∧
      Run (LiveStep transparent) snapshotRegistry [sampleBlock 100 []] r ∧
      snapshotRegistry.utxos = some t ∧
      runStartupScan transparent true [sampleBlock 100 []]
        (bootRegistry {} snapshotRegistry.takeSnapshot t) = .ok q ∧
      replayPostSnapshotGap transparent [sampleBlock 100 []]
        (bootRegistry {} snapshotRegistry.takeSnapshot t) = .ok q' ∧
      (r.validators.get (sampleValidator 3)).map (·.status) = some .active ∧
      (q.validators.get (sampleValidator 3)).map (·.status) = some .pending ∧
      (q'.validators.get (sampleValidator 3)).map (·.status) = some .pending := by
  obtain ⟨t, ht⟩ : ∃ t, snapshotRegistry.utxos = some t := ⟨_, rfl⟩
  obtain ⟨pending, hp⟩ := exists_enumeration (snapshotRegistry.released 100)
  obtain ⟨active, ha⟩ :=
    exists_enumeration (activatePending 100 pending (snapshotRegistry.released 100))
  obtain ⟨o, ho, -, -⟩ := exists_valid hp ha
  have hcommit : snapshotRegistry.commitBlock transparent (sampleBlock 100 []) =
      .ok snapshotRegistry := rfl
  refine ⟨(snapshotRegistry.updateEpoch 100 o).1, snapshotRegistry.withUTXOs t,
    snapshotRegistry.withUTXOs t, t, genesisRegistry_reachable, ?_, ?_, ht, ?_, ?_, ?_, rfl, rfl⟩
  · refine .cons genesis_liveStep (run_empty ht snapshotRegistry_knows _ fun h hh => ?_)
    have hbound := mem_range'_1.mp hh
    have hne : h % epochLength ≠ 0 := by
      unfold epochLength
      omega
    exact decide_eq_false hne
  · exact .cons ⟨snapshotRegistry_knows, snapshotRegistry, hcommit, o, ho, rfl⟩ (.nil _)
  · cases ht
    rfl
  · cases ht
    rfl
  · refine updateEpoch_activates ho rfl rfl ?_ ?_
    · decide
    · decide

end Aperod
