import Aperod.Core.Equiv.Replay
import Aperod.Core.Equiv.StakeRun
import Aperod.Core.Equiv.StakeValidation
import Aperod.Core.Equiv.Undo

/-!
# Is the application of stake transactions atomic?

`ApplyBlockStakeTxs` applies the stake transactions of a block one after the other.  When one fails it
puts back the validators it copied at the start, and unmarks the outputs that were burned; when all go
through it returns a function that does the same.

All but the index by one-time key comes back as it was: `MarkStaked` deletes the entry of the key
and `UnmarkStaked` writes it, whichever output it named.
-/

namespace Aperod

open Go ValidatorRegistry UTXOSet Transaction List

variable {C : Externals}
variable {txs : List Transaction} {B : List (UTXOKey × UTXO)} {a : StakeWithdrawalAuthorizationV2}

/-! ### What stake transactions leave alone -/

section

variable {r r' : ValidatorRegistry} {height : Nat} {tx : Transaction}

theorem applyOneTx_withdrawal (hst : tx.isStake = true)
    (hlay : (stakeLayout tx.extra).isDeposit = false) (h : r.applyOneTx C tx height = .ok r') :
    r.setState r'.validators r.utxos = r' := by
  obtain ⟨-, -, hr, -⟩ | ⟨-, -, hr, -, -⟩ | ⟨-, -, h⟩ | ⟨s, hdep, -⟩ := applyOneTx_change hst h
  · rw [← hr.set]
    rfl
  · rw [← hr.set]
    rfl
  · obtain ⟨-, e, -, rfl⟩ := applyDeposit_eq_ok.mp h
    rfl
  · cases hlay.symm.trans hdep

theorem applyOneTx_setState (hst : tx.isStake = true) (h : r.applyOneTx C tx height = .ok r') :
    r.setState r'.validators r'.utxos = r' := by
  cases hlay : (stakeLayout tx.extra).isDeposit with
  | false =>
    rw [← applyOneTx_withdrawal hst hlay h]
    rfl
  | true =>
    obtain ⟨_, -, -, h⟩ := (applyOneTx_deposit hst hlay).mp h
    obtain ⟨s, s', -, -, h⟩ := burnAndDeposit_eq_ok.mp h
    obtain ⟨-, e, -, rfl⟩ := applyDeposit_eq_ok.mp h
    rfl

theorem stakedBeforeFailure_setState (r : ValidatorRegistry) (txs : List Transaction) :
    r.setState (stakedBeforeFailure C height r txs).1.validators
      (stakedBeforeFailure C height r txs).1.utxos = (stakedBeforeFailure C height r txs).1 := by
  induction txs generalizing r with
  | nil => rfl
  | cons tx txs ih =>
    unfold stakedBeforeFailure
    cases hst : tx.isStake with
    | false => exact ih r
    | true =>
      cases happ : r.applyOneTx C tx height with
      | error err =>
        show r.setState (r.afterFailure C tx height).validators (r.afterFailure C tx height).utxos = _
        unfold afterFailure
        split
        · split <;> rfl
        · rfl
      | ok r' =>
        have hr' := applyOneTx_setState hst happ
        generalize r'.validators = m, r'.utxos = s at hr'
        subst hr'
        exact ih (r.setState m s)

end

/-! ### The burned outputs of the stake loop -/

section Stake

variable {r r' : ValidatorRegistry} {s t : UTXOSet} {tx : Transaction} {height : Nat} {k : UTXOKey}

theorem stakeBurnKey_of_not_deposit (hlay : (stakeLayout tx.extra).isDeposit = false) :
    tx.stakeBurnKey = none := by
  unfold stakeBurnKey
  split_ifs
  · cases hl : stakeLayout tx.extra <;> rw [hl] at hlay <;> first | rfl | cases hlay
  · rfl

theorem stakeBurnKey_of_deposit {u : UTXO} (hst : tx.isStake = true)
    (hchk : DepositChecked C r height tx.extra u) :
    tx.stakeBurnKey = some (burnFields tx.extra).burnKey := by
  unfold stakeBurnKey
  rw [if_pos hst]
  obtain ⟨hl, -, -⟩ | ⟨hl, -, -⟩ | ⟨p, hl, -, hdec, -⟩ := hchk.proof
  · rw [hl, decodeStakeExtraV2_of_layout hl]
    rfl
  · rw [hl, decodeStakeExtraV3_of_layout hl]
    rfl
  · rw [hl, hdec, ← decodeStakeExtraV4_toV2 hdec]
    rfl

/-- A stake transaction burns the output it names, if any, and leaves the rest of the set alone. -/
theorem applyOneTx_burns (hst : tx.isStake = true) (ht : r.utxos = some t)
    (h : r.applyOneTx C tx height = .ok r') : ∃ t', r'.utxos = some t' ∧
      ((tx.stakeBurnKey = none ∧ t' = t) ∨
        ∃ k, tx.stakeBurnKey = some k ∧ t.markStaked k = .ok t') := by
  cases hlay : (stakeLayout tx.extra).isDeposit with
  | false =>
    have hsame := applyOneTx_withdrawal hst hlay h
    rw [← hsame]
    exact ⟨t, ht, .inl ⟨stakeBurnKey_of_not_deposit hlay, rfl⟩⟩
  | true =>
    obtain ⟨u, -, hchk, hburn⟩ := (applyOneTx_deposit hst hlay).mp h
    obtain ⟨t0, t', ht0, hmark, hdep⟩ := burnAndDeposit_eq_ok.mp hburn
    obtain rfl : t = t0 := Option.some.inj (ht.symm.trans ht0)
    have hset : r'.utxos = some t' :=
      utxos_of_withUTXOs (f := (·.applyDeposit C _ _ height)) hdep (applyDeposit_withUTXOs hdep) rfl
    exact ⟨t', hset, .inr ⟨_, stakeBurnKey_of_deposit hst hchk, hmark⟩⟩

theorem burnAttempt_eq_some (hst : tx.isStake = true) (h : r.burnAttempt C tx height = some k) :
    tx.stakeBurnKey = some k := by
  unfold stakeBurnKey
  rw [if_pos hst]
  obtain ⟨p, hp, rfl⟩ := Option.map_eq_some_iff.mp h
  have hok : ∀ {α : Type} {x : Result α} {a : α}, x.toOption = some a → x = .ok a := by
    intro α x a hx
    cases x with
    | error err => cases hx
    | ok a' => exact congrArg Except.ok (Option.some.inj hx)
  have hp := hok hp
  cases hl : stakeLayout tx.extra <;> rw [hl] at hp
  case v2 =>
    obtain ⟨p', hdec, hp⟩ := unbind hp
    simp only [bind_eq_ok] at hp
    obtain ⟨-, -, -, -, hp⟩ := hp
    cases hp
    rw [hdec]
    rfl
  case v3 =>
    obtain ⟨p', hdec, hp⟩ := unbind hp
    simp only [bind_eq_ok] at hp
    obtain ⟨-, -, -, -, -, -, hp⟩ := hp
    cases hp
    rw [hdec]
    rfl
  case v4 =>
    obtain ⟨p', hdec, hp⟩ := unbind hp
    obtain ⟨-, -, hp⟩ := unbind hp
    cases hp
    rw [hdec]
    rfl
  all_goals cases hp

/-- The output that a failing transaction of the loop burned and put back. -/
def failedBurn (C : Externals) (height : Nat) : ValidatorRegistry → List Transaction → Option UTXOKey
  | _, [] => none
  | r, tx :: rest =>
    match (if tx.isStake then r.applyOneTx C tx height else .ok r) with
    | .ok r' => failedBurn C height r' rest
    | .error _ => (r.burnAttempt C tx height).filter fun k =>
        (r.utxos.bind fun s => (s.markStaked k).toOption).isSome

/-- What a failed stake transaction leaves: its output was burned and put back, or nothing
happened. -/
theorem UTXOSet.Burned.afterFailure (h : Burned s B t)
    (ht : r.utxos = some t) (tx : Transaction) (height : Nat) :
    ∃ t', (r.afterFailure C tx height).utxos = some t' ∧ Burned (s.reindex
      (((r.burnAttempt C tx height).filter fun k =>
        (r.utxos.bind fun s => (s.markStaked k).toOption).isSome).toList.filterMap s.utxos.get)) B t' := by
  unfold ValidatorRegistry.afterFailure
  rw [ht]
  cases hk : r.burnAttempt C tx height with
  | none => exact ⟨t, ht, h⟩
  | some k =>
    cases hmark : t.markStaked k with
    | error err =>
      simp only [hmark, Option.bind_some, Option.filter_some]
      exact ⟨t, ht, h⟩
    | ok t' =>
      obtain ⟨u, hu, hburned⟩ := h.mark_unmark hmark
      simp only [hmark, Option.bind_some, Option.filter_some]
      refine ⟨_, rfl, ?_⟩
      show Burned (s.reindex ([k].filterMap s.utxos.get)) B _
      rw [filterMap_cons_some hu]
      exact hburned

/-- The stake loop up to its end or its first failure: the outputs of `keys` are burned, and the one
of the failing transaction is the indexed one for its key. -/
theorem stakedBeforeFailure_burned (height : Nat) (txs : List Transaction)
    (ht : r.utxos = some t) (h : Burned s B t) (hpres : Present s B) :
    ∃ t' B', (stakedBeforeFailure C height r txs).1.utxos = some t' ∧
      (stakedBeforeFailure C height r txs).2 = B'.map Prod.fst ∧
      Burned (s.reindex ((failedBurn C height r txs).toList.filterMap s.utxos.get)) (B ++ B') t' ∧
      Present s (B ++ B') := by
  -- `B` grows by the output of each transaction
  induction txs generalizing r t B with
  | nil => exact ⟨t, [], ht, rfl, by rwa [append_nil], by rwa [append_nil]⟩
  | cons tx txs ih =>
    unfold stakedBeforeFailure failedBurn
    cases hst : tx.isStake with
    | false =>
      have hnone : tx.stakeBurnKey = none := by
        unfold stakeBurnKey
        rw [hst]
        rfl
      rw [hnone]
      exact ih ht h hpres
    | true =>
      cases happ : r.applyOneTx C tx height with
      | error err =>
        obtain ⟨t', ht', h'⟩ := h.afterFailure ht tx height
        exact ⟨t', [], ht', rfl, by rwa [append_nil], by rwa [append_nil]⟩
      | ok r' =>
        obtain ⟨t', ht', ⟨hnone, rfl⟩ | ⟨k, hk, hmark⟩⟩ := applyOneTx_burns hst ht happ
        · rw [hnone]
          exact ih ht' h hpres
        · obtain ⟨u, -, h', hpres'⟩ := h.mark_present hpres hmark
          obtain ⟨t2, B', hutxos, hkeys, hburned, hpres2⟩ := ih ht' h' hpres'
          rw [append_assoc] at hburned hpres2
          refine ⟨t2, (k, u) :: B', hutxos, ?_, hburned, hpres2⟩
          rw [hk, map_cons, ← hkeys]
          rfl

theorem stakedBeforeFailure_of_ok (h : r.applyBlockStakeTxs C txs height = .ok r') :
    stakedBeforeFailure C height r txs = (r', txs.filterMap stakeBurnKey) := by
  unfold applyBlockStakeTxs at h
  generalize 0 = i at h
  induction txs generalizing r i with
  | nil =>
    cases h
    rfl
  | cons tx txs ih =>
    obtain ⟨r1, hone, hrest⟩ := loop_cons_eq_ok.mp h
    unfold stakedBeforeFailure
    rw [hone]
    dsimp only
    rw [ih (i + 1) hrest, filterMap_cons]
    cases tx.stakeBurnKey <;> rfl

theorem stakedBeforeFailure_keys (r : ValidatorRegistry) (txs : List Transaction) :
    (stakedBeforeFailure C height r txs).2 ⊆ txs.filterMap stakeBurnKey := by
  induction txs generalizing r with
  | nil => exact List.Subset.refl _
  | cons tx txs ih =>
    unfold stakedBeforeFailure
    rw [filterMap_cons]
    split
    · cases tx.stakeBurnKey with
      | none => exact ih _
      | some k => exact cons_subset_cons k (ih _)
    · exact nil_subset _

theorem failedBurn_mem (r : ValidatorRegistry) (txs : List Transaction)
    (h : failedBurn C height r txs = some k) : k ∈ txs.filterMap stakeBurnKey := by
  induction txs generalizing r with
  | nil => cases h
  | cons tx txs ih =>
    have hrest : k ∈ txs.filterMap stakeBurnKey →
        k ∈ (tx :: txs).filterMap stakeBurnKey := by
      intro hk
      obtain ⟨tx', htx', hkey⟩ := mem_filterMap.mp hk
      exact mem_filterMap.mpr ⟨tx', mem_cons_of_mem _ htx', hkey⟩
    unfold failedBurn at h
    cases hst : tx.isStake with
    | false =>
      rw [hst] at h
      exact hrest (ih r h)
    | true =>
      rw [hst] at h
      cases happ : r.applyOneTx C tx height with
      | ok r' =>
        rw [happ] at h
        exact hrest (ih r' h)
      | error err =>
        rw [happ] at h
        have hburn := (Option.filter_eq_some_iff.mp h).1
        exact mem_filterMap.mpr ⟨tx, mem_cons_self, burnAttempt_eq_some hst hburn⟩

/-- When the outputs the transactions name are indexed, so are the burned ones, and the failing
transaction leaves no trace. -/
theorem stakedBeforeFailure_held (hs : r.utxos = some s)
    (hindex : ∀ k ∈ txs.filterMap stakeBurnKey, s.Indexed k) :
    ∃ t B, (stakedBeforeFailure C height r txs).1.utxos = some t ∧
      (stakedBeforeFailure C height r txs).2 = B.map Prod.fst ∧ Burned s B t ∧ Held s B := by
  obtain ⟨t, B, hutxos, hkeys, hburned, hpres⟩ := stakedBeforeFailure_burned
    height txs hs (Burned.refl s) ⟨nodup_nil, nofun, nofun⟩
  refine ⟨t, B, hutxos, hkeys, ?_, hpres.nodup, hpres.active, fun e he => ?_, hpres.unstaked⟩
  · rwa [(reindex_eq_self_iff _).mpr] at hburned
    apply KeepsIndex.of_indexed
    intro u hu
    obtain ⟨k, hk, hget⟩ := mem_filterMap.mp hu
    exact hindex k (failedBurn_mem r txs (Option.mem_toList.mp hk)) u hget
  · have hmem : e.1 ∈ (stakedBeforeFailure C height r txs).2 := hkeys ▸ mem_map_of_mem he
    exact hindex e.1 (stakedBeforeFailure_keys r txs hmem) e.2 (hpres.active e he)

theorem stakedBeforeFailure_of_none (hr : r.utxos = none) :
    (stakedBeforeFailure C height r txs).1.utxos = none := by
  induction txs generalizing r with
  | nil => exact hr
  | cons tx txs ih =>
    unfold stakedBeforeFailure
    cases hst : tx.isStake with
    | false => exact ih hr
    | true =>
      cases happ : r.applyOneTx C tx height with
      | error err =>
        unfold afterFailure
        rw [hr]
        exact hr
      | ok r' =>
        cases hlay : (stakeLayout tx.extra).isDeposit with
        | false =>
          have hr' : r'.utxos = none := by
            rw [← applyOneTx_withdrawal hst hlay happ]
            exact hr
          exact ih hr'
        | true =>
          obtain ⟨_, ⟨s, hs, -⟩, -⟩ := (applyOneTx_deposit hst hlay).mp happ
          rw [hr] at hs
          cases hs

end Stake

/-! ### Restoring -/

/-- The outputs `UnmarkStaked` puts back, in its order: the one of the failing transaction first. -/
def putBack (C : Externals) (height : Nat) (r : ValidatorRegistry) (txs : List Transaction)
    (s : UTXOSet) : List UTXO :=
  ((failedBurn C height r txs).toList ++ (stakedBeforeFailure C height r txs).2).filterMap s.utxos.get

section

variable {r : ValidatorRegistry} {s : UTXOSet} {height : Nat}

/-- The registry the loop leaves, with its validators and burned outputs put back. -/
def restoredRegistry (C : Externals) (height : Nat) (r : ValidatorRegistry)
    (txs : List Transaction) : ValidatorRegistry :=
  { (stakedBeforeFailure C height r txs).1 with
    validators := r.validators
    utxos := (stakedBeforeFailure C height r txs).1.utxos.map fun s =>
      (stakedBeforeFailure C height r txs).2.foldl unmarkStaked s }

theorem restoredRegistry_eq (hs : r.utxos = some s) :
    restoredRegistry C height r txs =
      { r with utxos := some (s.reindex (putBack C height r txs s)) } := by
  obtain ⟨t, B, hutxos, hkeys, hburned, hpres⟩ := stakedBeforeFailure_burned
    height txs hs (Burned.refl s) ⟨nodup_nil, nofun, nofun⟩
  rw [nil_append] at hburned hpres
  have hactive : (B.map Prod.fst).filterMap s.utxos.get = B.map Prod.snd := by
    rw [filterMap_map, ← filterMap_eq_map]
    exact filterMap_congr hpres.active
  have hset : (stakedBeforeFailure C height r txs).1.utxos.map
      ((stakedBeforeFailure C height r txs).2.foldl unmarkStaked) =
        some (s.reindex (putBack C height r txs s)) := by
    unfold putBack
    rw [hutxos, hkeys, Option.map_some, hburned.unmark_all_reindex ⟨hpres.nodup, hpres.active,
      hpres.unstaked⟩, filterMap_append, hactive]
    simp only [reindex, foldl_append]
  unfold restoredRegistry
  rw [hset, ← stakedBeforeFailure_setState]
  rfl

theorem restoredRegistry_of_none (hr : r.utxos = none) : restoredRegistry C height r txs = r := by
  unfold restoredRegistry
  rw [stakedBeforeFailure_of_none hr, ← stakedBeforeFailure_setState]
  show { r with utxos := none } = r
  rw [← hr]

/-- The registry is restored, after an error or by the rollback function, if the index is. -/
theorem restoredRegistry_eq_self_iff : restoredRegistry C height r txs = r ↔
    ∀ s, r.utxos = some s → s.KeepsIndex (putBack C height r txs s) := by
  cases hr : r.utxos with
  | none => exact ⟨nofun, fun _ => restoredRegistry_of_none hr⟩
  | some s =>
    rw [restoredRegistry_eq hr]
    constructor
    · rintro h _ ⟨⟩
      have hset : some (s.reindex (putBack C height r txs s)) = some s :=
        (congrArg ValidatorRegistry.utxos h).trans hr
      exact (reindex_eq_self_iff _).mp (Option.some.inj hset)
    · intro h
      rw [(reindex_eq_self_iff _).mpr (h s rfl), ← hr]

/-- An error leaves registry and UTXO set as they were, and the rollback function restores them, if
and only if every output put back is the one indexed under its key, or another one put back later
is. -/
theorem applyBlockStakeTxs_atomic_iff (C : Externals) (r : ValidatorRegistry)
    (txs : List Transaction) (height : Nat) :
    ((∀ err, (r.applyBlockStakeTxsWithRollback C txs height).2 = .error err →
        (r.applyBlockStakeTxsWithRollback C txs height).1 = r) ∧
      ∀ rollback, (r.applyBlockStakeTxsWithRollback C txs height).2 = .ok rollback →
        rollback (r.applyBlockStakeTxsWithRollback C txs height).1 = r) ↔
      ∀ s, r.utxos = some s → s.KeepsIndex (putBack C height r txs s) := by
  rw [← restoredRegistry_eq_self_iff]
  unfold applyBlockStakeTxsWithRollback
  cases r.applyBlockStakeTxs C txs height with
  | error err =>
    constructor
    · exact fun h => h.1 err rfl
    · exact fun h => ⟨fun _ _ => h, nofun⟩
  | ok r' =>
    constructor
    · exact fun h => h.2 _ rfl
    · intro h
      refine ⟨nofun, ?_⟩
      rintro rollback ⟨⟩
      exact h

end

/-! ### Two outputs with one key -/

/-- The outpoint `(h, 0)` holds an active output of key 7 worth `MaxStakeNAPR`. -/
def twinOutput (h : Hash32) : UTXO := { capOutput h with oneTimePub := 7 }

/-- Two such outputs; the index has the second, which was added later. -/
def twinOutputs : UTXOSet :=
  { utxos := (GoMap.set ∅ (twinOutput 1).key (twinOutput 1)).set (twinOutput 2).key (twinOutput 2)
    byPubKey := GoMap.set ∅ 7 (twinOutput 2) }

/-- A stake transaction without a payload. -/
def emptyStake : Transaction := { version := .stake }

/-- A deposit of the first output is applied and undone, because the next stake transaction fails:
the index now has the first output. -/
theorem failed_stake_moves_index :
    ∃ r err, ({ utxos := some twinOutputs } : ValidatorRegistry).applyBlockStakeTxsWithRollback
        transparent [capDeposit 1, emptyStake] 1 = (r, .error err) ∧
      r.utxos.map (·.byPubKey.get 7) = some (some (twinOutput 1)) ∧
      r ≠ { utxos := some twinOutputs } := by
  have herr : (({ utxos := some twinOutputs } : ValidatorRegistry).applyBlockStakeTxsWithRollback
      transparent [capDeposit 1, emptyStake] 1).2.toOption.isSome = false := by decide +kernel
  have hindex : (({ utxos := some twinOutputs } : ValidatorRegistry).applyBlockStakeTxsWithRollback
      transparent [capDeposit 1, emptyStake] 1).1.utxos.map (·.byPubKey.get 7) =
        some (some (twinOutput 1)) := by decide +kernel
  generalize ({ utxos := some twinOutputs } : ValidatorRegistry).applyBlockStakeTxsWithRollback
    transparent [capDeposit 1, emptyStake] 1 = left at herr hindex
  obtain ⟨r, err | rollback⟩ := left
  · refine ⟨r, err, rfl, hindex, ?_⟩
    rintro rfl
    have hold : twinOutputs.byPubKey.get 7 ≠ some (twinOutput 1) := by decide +kernel
    exact hold (Option.some.inj hindex)
  · cases herr

end Aperod
