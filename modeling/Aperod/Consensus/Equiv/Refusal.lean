import Aperod.Core.Equiv.StakeAtomic
import Aperod.Consensus.Equiv.LocalVote

/-!
# Does a refused block leave a trace?

`handleIncomingBlock` can refuse a block after it was applied: a stake transaction fails, `AddBlock`
fails or the durable store fails.  The engine then undoes what it did.  Before that point a refusal
changes the slashing records only.

The compensation is exact if the three mutations can be undone (`Engine.Undoable`): the UTXO set by
`RollbackBlock` (`RollbackSafe`), the burned collateral by `UnmarkStaked`, which writes the index of
the active outputs, and the chain by `RollbackLastBlock`.
-/

namespace Aperod

open Go ValidatorRegistry UTXOSet Transaction

variable {C : Externals} {S : Type} {V : Services S}
variable {b : Block} {k : UTXOKey} {r : ValidatorRegistry}

section Stake

variable {s : UTXOSet} {height : Nat}

theorem exists_collateral {txs : List Transaction} (hs : r.utxos = some s)
    (h : r.validateBlockStakeTxs C txs height = .ok ())
    (hk : k ∈ txs.filterMap stakeBurnKey) : ∃ u, s.utxos.get k = some u := by
  obtain ⟨tx, htx, hkey⟩ := List.mem_filterMap.mp hk
  obtain ⟨sh, hloop, -⟩ := unbind h
  obtain ⟨i, a, b, hone⟩ := loop_mem hloop htx
  have hst : tx.isStake = true := by
    by_contra hst
    unfold stakeBurnKey at hkey
    rw [if_neg hst] at hkey
    cases hkey
  have hlay : (stakeLayout tx.extra).isDeposit = true := by
    by_contra hlay
    rw [stakeBurnKey_of_not_deposit (by simpa using hlay)] at hkey
    cases hkey
  rw [if_pos hst] at hone
  obtain ⟨u, hcol, hchk, -⟩ := validateDeposit_spec hlay hone
  rw [stakeBurnKey_of_deposit hst hchk] at hkey
  obtain ⟨t, ht, hu⟩ := collateral_eq_some.mp hcol
  rw [hs] at ht
  cases ht
  cases hkey
  exact ⟨u, hu⟩

end Stake

/-! ### The burned outputs across the rollback -/

/-- What a deposit names is recorded under its own outpoint and indexed. -/
def UTXOSet.Collateral (s : UTXOSet) (k : UTXOKey) : Prop :=
  ∀ u, s.utxos.get k = some u → u.key = k ∧ s.byPubKey.get u.oneTimePub = some u

/-- An output of the set that is still there after the block is indexed as before. -/
theorem UTXOSet.RollbackSafe.kept_collateral {s s' : UTXOSet} {u : UTXO}
    (hsafe : s.RollbackSafe C b) (hok : s.applyBlock C b = .ok s') (hcol : s.Collateral k)
    (hold : ∃ u, s.utxos.get k = some u) (hget : s'.utxos.get k = some u) :
    s.utxos.get k = some u ∧ s'.byPubKey.get u.oneTimePub = some u := by
  obtain ⟨-, rfl⟩ := applyBlock_spec hok
  obtain ⟨T, h⟩ := exists_applied hsafe.untracked hsafe.spends_earlier
  have hnot : ∀ v ∈ b.utxos C, v.key ≠ k := by
    rintro v hv rfl
    obtain ⟨u, hu⟩ := hold
    rw [hsafe.outpoint_fresh v hv] at hu
    cases hu
  rw [h.utxos k hnot] at hget
  split_ifs at hget with htaken
  obtain ⟨hkey, hindex⟩ := hcol u hget
  refine ⟨hget, ?_⟩
  have hnotpub : ∀ v ∈ b.utxos C, v.oneTimePub ≠ u.oneTimePub := by
    intro v hv heq
    have hfresh := hsafe.key_fresh v hv
    rw [heq, hindex] at hfresh
    cases hfresh
  rw [h.byPubKey _ hnotpub, if_neg, hindex]
  -- an entry taken under this key would be this output, which was not taken
  intro hmem
  obtain ⟨e, he, hfst⟩ := List.mem_map.mp hmem
  have hsound := (h.sound e he).1
  rw [hfst, hindex] at hsound
  cases hsound
  exact htaken ⟨e, he, hkey⟩

/-! ### The engine -/

namespace Engine

variable {e e' : Engine S} {env : Env} {err : Fault} {s s' : UTXOSet}

/-- What the state `s` of the UTXO set and the chain must satisfy for the compensation to be exact. -/
structure Undoable (C : Externals) (e : Engine S) (s : UTXOSet) (b : Block) : Prop where
  safe : s.RollbackSafe C b
  collateral : ∀ k ∈ b.txs.filterMap stakeBurnKey, s.Collateral k
  chain : ∀ chain, e.chain.addBlock C b = .ok chain → e.chain.Undoable C b

section

variable (hundo : e.Undoable C s b) (hs : e.registry.utxos = some s)
  (hok : s.applyBlock C b = .ok s')
  (hstake : e.registry.validateBlockStakeTxs C b.txs b.header.height = .ok ())
include hundo hs hok hstake

theorem Undoable.indexed (hk : k ∈ b.txs.filterMap stakeBurnKey) :
    s'.Indexed k := fun _ hget =>
  (hundo.safe.kept_collateral hok (hundo.collateral k hk) (exists_collateral hs hstake hk) hget).2

/-- The stake loop on the applied set, with the outputs it burned. -/
theorem Undoable.burned :
    ∃ t B, (stakedBeforeFailure C b.header.height { e.registry with utxos := some s' } b.txs).1.utxos =
        some t ∧
      (stakedBeforeFailure C b.header.height { e.registry with utxos := some s' } b.txs).2 =
        B.map Prod.fst ∧ Burned s' B t ∧ Held s' B := by
  exact stakedBeforeFailure_held rfl fun k hk => hundo.indexed hs hok hstake hk

theorem Undoable.undoStake_eq : (e.undoStake C b s').registry = e.registry := by
  obtain ⟨t, B, hutxos, hkeys, hburned, hheld⟩ := hundo.burned hs hok hstake
  have hset : (e.undoStake C b s').registry.utxos = some s := by
    show ((stakedBeforeFailure C b.header.height _ b.txs).1.utxos.map _) = _
    rw [hutxos, hkeys, Option.map_some, hburned.unmark_all hheld, hundo.safe.rollback_eq hok]
  show { e.registry with utxos := (e.undoStake C b s').registry.utxos } = e.registry
  rw [hset, ← hs]

theorem Undoable.undo_eq
    (happly : { e.registry with utxos := some s' }.applyBlockStakeTxs C b.txs b.header.height = .ok r) :
    (e.undo C b r (b.txs.filterMap stakeBurnKey)).registry = e.registry := by
  obtain ⟨t, B, hutxos, hkeys, hburned, hheld⟩ := hundo.burned hs hok hstake
  rw [stakedBeforeFailure_of_ok happly] at hutxos hkeys
  dsimp only at hutxos hkeys
  -- `RollbackBlock` comes first: it leaves the set before the block, without the burned outputs
  have hburned' := hburned.rollbackBlock (C := C) b
  rw [hundo.safe.rollback_eq hok] at hburned'
  obtain ⟨-, hs'⟩ := applyBlock_spec hok
  have hframe : s'.stakedUTXOs = s.stakedUTXOs := by
    obtain ⟨T, h⟩ := exists_applied hundo.safe.untracked hundo.safe.spends_earlier
    rw [hs']
    exact h.frame.staked
  have hheld' : Held s B := by
    have hmem : ∀ x ∈ B, x.1 ∈ b.txs.filterMap stakeBurnKey := fun x hx =>
      hkeys ▸ List.mem_map_of_mem hx
    have hactive : ∀ x ∈ B, s.utxos.get x.1 = some x.2 := fun x hx =>
      (hundo.safe.kept_collateral hok (hundo.collateral x.1 (hmem x hx))
        (exists_collateral hs hstake (hmem x hx)) (hheld.active x hx)).1
    refine ⟨hheld.nodup, hactive, fun x hx => ?_, fun x hx => ?_⟩
    · exact (hundo.collateral x.1 (hmem x hx) x.2 (hactive x hx)).2
    · rw [← hframe]
      exact hheld.unstaked x hx
  have hset : (e.undo C b r (b.txs.filterMap stakeBurnKey)).registry.utxos = some s := by
    show r.utxos.map _ = _
    rw [hutxos, Option.map_some, hkeys, hburned'.unmark_all hheld']
  show { e.registry with utxos :=
    (e.undo C b r (b.txs.filterMap stakeBurnKey)).registry.utxos } = e.registry
  rw [hset, ← hs]

end

theorem stakedBeforeFailure_of_no_deposit (e : Engine S) (s' : UTXOSet)
    (hnone : b.txs.filterMap stakeBurnKey = []) :
    (stakedBeforeFailure C b.header.height { e.registry with utxos := some s' } b.txs).1.utxos =
        some s' ∧
      (stakedBeforeFailure C b.header.height { e.registry with utxos := some s' } b.txs).2 = [] := by
  have hkeys : (stakedBeforeFailure C b.header.height { e.registry with utxos := some s' } b.txs).2 =
      [] := by
    rw [← List.subset_nil, ← hnone]
    exact stakedBeforeFailure_keys _ _
  have hnot : ∀ k ∈ b.txs.filterMap stakeBurnKey, s'.Indexed k := by
    rw [hnone]
    nofun
  obtain ⟨t, B, hutxos, hB, hburned, hheld⟩ := stakedBeforeFailure_held
    (r := { e.registry with utxos := some s' }) rfl hnot
  rw [hkeys] at hB
  obtain rfl : B = [] := List.map_eq_nil_iff.mp hB.symm
  obtain rfl : t = s' := hburned.unmark_all hheld
  exact ⟨hutxos, hkeys⟩

/-- Without deposits, a refused block that was applied leaves the set `RollbackBlock` makes. -/
theorem refused_utxos (h : e.receiveBlock C V env b = .error (e', err))
    (ht : e.transition C V env b = .ok s')
    (hnone : b.txs.filterMap stakeBurnKey = []) :
    e'.registry.utxos = some (s'.rollbackBlock C b) := by
  rcases receiveBlock_eq_error h with ⟨-, hnot⟩ | ⟨slashing, hcand, hslash, hleft⟩
  · obtain ⟨hcand, ⟨slashing, hslash⟩, -⟩ := transition_eq_ok.mp ht
    exact absurd hslash (hnot slashing hcand)
  · rcases hleft with ⟨-, hnot⟩ | ⟨s, s1, ht1, -, -, -, hleft⟩
    · exact absurd ht (hnot s')
    · rw [ht] at ht1
      cases ht1
      obtain ⟨hutxos, hkeys⟩ := stakedBeforeFailure_of_no_deposit (C := C) e s' hnone
      rcases hleft with ⟨rfl, -⟩ | ⟨r, happly, hlate⟩
      · show (stakedBeforeFailure C b.header.height _ b.txs).1.utxos.map _ = _
        rw [hutxos, hkeys]
        rfl
      · rw [stakedBeforeFailure_of_ok happly] at hutxos
        have hset : r.utxos.map (fun s => (b.txs.filterMap stakeBurnKey).foldl
            unmarkStaked (s.rollbackBlock C b)) = some (s'.rollbackBlock C b) := by
          rw [hutxos, hnone]
          rfl
        rcases hlate with ⟨rfl, -⟩ | ⟨chain, -, rfl⟩
        · exact hset
        · exact hset

theorem Undoable.chain_eq {chain : Chain} {keys : List UTXOKey}
    (hundo : e.Undoable C s b) (hadd : e.chain.addBlock C b = .ok chain) :
    (e.failCanonicalPersistence C b r keys chain).chain = e.chain := by
  show (chain.rollbackLastBlock C b (e.chain.lastAdd C b)).toOption.getD chain = e.chain
  rw [Chain.rollbackLastBlock_addBlock (hundo.chain chain hadd) hadd]
  rfl

end Engine

/-! ### A full disk and an orphan -/

/-- A node whose durable store refuses every block. -/
def failingStore : Services Unit := { idleServices with onCanonicalBlock := fun _ _ => fail "disk full" }

set_option maxRecDepth 8000

theorem chainOf_firstBlock_undoable :
    (chainOf firstBlock).Undoable hashing (blockOn firstBlock 3 []) where
  window := by decide
  height_ne_zero := by decide
  block_fresh := by decide +kernel
  height_fresh := rfl
  txs_fresh := nofun
  tip_stored := by
    rintro tip ⟨⟩
    exact ⟨rfl, rfl, rfl⟩
  evicted_stored := by
    intro old hge
    exact absurd hge (by decide)

theorem safe_of_no_txs (hb : b.txs = []) : ({} : UTXOSet).RollbackSafe hashing b := by
  have hnone : ∀ {P : Prop} {tx : Transaction}, tx ∈ b.txs → P := by
    intro P tx htx
    rw [hb] at htx
    exact absurd htx List.not_mem_nil
  have hutxos : b.utxos hashing = [] := by
    unfold Block.utxos
    rw [hb]
    rfl
  refine ⟨fun tx htx => hnone htx, ?_, rfl, .inr (by decide), fun _ _ => rfl, fun _ _ => rfl,
    fun _ _ tx htx => hnone htx, ?_, fun _ _ _ => rfl, fun tx htx => hnone htx⟩
  · intro u hu
    rw [hutxos] at hu
    exact absurd hu List.not_mem_nil
  · rintro m u ⟨-, tx, htx, -⟩
    exact hnone htx

theorem failingStore_refuses : ∃ e' err, (voterOn (chainOf firstBlock)).receiveBlock hashing
    failingStore { now := 5 } (blockOn firstBlock 3 []) = .error (e', err) := by
  have hheader : (voterOn (chainOf firstBlock)).checkHeader { now := 5 } (blockOn firstBlock 3 []) =
      .ok () :=
    committee_checkHeader (voterOn_active _) rfl (by decide) (by decide) (by decide) rfl
  have hcand : (voterOn (chainOf firstBlock)).checkCandidate hashing failingStore { now := 5 }
      (blockOn firstBlock 3 []) = .ok () := by
    unfold Engine.checkCandidate
    simp only [bind_eq_ok]
    exact ⟨(), rfl, (), rfl, (), rfl, hheader⟩
  unfold Engine.receiveBlock
  rw [hcand]
  exact ⟨_, _, rfl⟩

/-- A block of validator 3 that pays a coinbase and does not name its parent. -/
def orphanBlock : Block :=
  let b := blockOn firstBlock 3 [coinbaseOf7]
  { b with header := { b.header with prevHash := 0 } }

/-- Validator 2, with hidden spends active from the first height. -/
def clsagVoter : Engine Unit :=
  let e := voterOn (chainOf firstBlock)
  { e with registry := { e.registry with utxos := some { clsagActivationHeight := 1 } } }

end Aperod
