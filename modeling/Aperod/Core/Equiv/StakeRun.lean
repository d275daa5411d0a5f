import Aperod.Core.Equiv.Registry
import Aperod.Core.Transparent
import Aperod.Go.Run

/-!
# Runs of registry operations

A registry lives through stake transactions (applied or replayed), seeding, epoch transitions,
restores of its own snapshot and changes of its configuration (`RegistryOp`).  `RegistryStep.effect`
says what one of them can do to the entries:

* nothing but let them settle, where no stake grows and no nonce changes (`Settled`);
* a deposit, before the rest settles;
* an authorised withdrawal, which takes the next nonce;
* new entries of one stake with nonce 0.

From it follow `authorizations_once` and `stake_capped_iff_fits`.
-/

namespace Aperod

open Go ValidatorRegistry GoMap List

variable {C : Externals}
variable {amount : Nat} {m m' : Validators} {e e' : ValidatorEntry} {past : List RegistryOp}
  {k pub : ValidatorPubKey} {a : StakeWithdrawalAuthorizationV2}
  {f : ValidatorEntry → ValidatorEntry}

/-! ### Entries that settle -/

/-- A change that is neither a deposit nor an authorisation. -/
structure ValidatorEntry.Settles (e e' : ValidatorEntry) : Prop where
  stake_le : e'.stakeNAPR ≤ e.stakeNAPR
  nonce_eq : e'.stakeAuthNonce = e.stakeAuthNonce

theorem ValidatorEntry.Settles.trans {e'' : ValidatorEntry} (h : e.Settles e')
    (h' : e'.Settles e'') : e.Settles e'' :=
  ⟨h'.stake_le.trans h.stake_le, h'.nonce_eq.trans h.nonce_eq⟩

/-- The same keys, and every entry settles. -/
def Settled (m m' : Validators) : Prop :=
  ∀ k, Option.Rel ValidatorEntry.Settles (m.get k) (m'.get k)

namespace Settled

theorem refl (m : Validators) : Settled m m := Rel.refl (fun _ => ⟨le_rfl, rfl⟩) m

theorem get_some (h : Settled m m') (hget : m.get k = some e) :
    ∃ e', m'.get k = some e' ∧ e.Settles e' := Rel.some h hget

theorem of_get (h : Settled m m') (hget : m'.get k = some e') :
    ∃ e, m.get k = some e ∧ e.Settles e' := Rel.some_right h hget

theorem update (hget : m.get k = some e) (he : e.Settles e') : Settled m (m.set k e') :=
  Rel.set_right (refl m) hget he

theorem map (hf : ∀ e : ValidatorEntry, e.Settles (f e)) : Settled m (m.map f) := Rel.map hf m

end Settled

section

variable {r : ValidatorRegistry} {height : Nat}

theorem demoteSeeded_settled (m : Validators) : Settled m (demoteSeeded m) := by
  apply Settled.map
  intro e
  split_ifs <;> exact ⟨le_rfl, rfl⟩

theorem updateEpoch_settled {o : EpochOrders} (ho : o.Valid r height) :
    Settled r.validators (r.updateEpoch height o).1.validators :=
  updateEpoch_rel (fun _ => ⟨le_rfl, rfl⟩) (fun _ _ _ => .trans) (fun _ _ _ _ => ⟨le_rfl, rfl⟩) ho

end

/-! ### Operations -/

/-- What the node does to its registry. -/
inductive RegistryOp
  | apply (tx : Transaction) (height : Nat)
  | replay (tx : Transaction) (height : Nat)
  | initFromGenesis (pubs : List ValidatorPubKey) (genesisStake : Nat)
  | seed (pubs : List ValidatorPubKey)
  | epoch (height : Nat) (o : EpochOrders)
  /-- A restore of the snapshot of the current state. -/
  | restore
  /-- `SetUTXOSet`, `UpdateMinStake` and the activation settings. -/
  | configure

/-- One operation that succeeds. -/
inductive RegistryStep (C : Externals) :
    ValidatorRegistry → RegistryOp → ValidatorRegistry → Prop
  | apply {r r' : ValidatorRegistry} {tx : Transaction} {height : Nat} : tx.isStake = true →
      r.applyOneTx C tx height = .ok r' → RegistryStep C r (.apply tx height) r'
  | replay {r r' : ValidatorRegistry} {tx : Transaction} {height : Nat} : tx.isStake = true →
      r.replayOneTx C tx height = .ok r' → RegistryStep C r (.replay tx height) r'
  | initFromGenesis (r : ValidatorRegistry) (pubs : List ValidatorPubKey) (genesisStake : Nat) :
      RegistryStep C r (.initFromGenesis pubs genesisStake) (r.initFromGenesis pubs genesisStake)
  | seed (r : ValidatorRegistry) (pubs : List ValidatorPubKey) :
      RegistryStep C r (.seed pubs) (r.seedFromObservedProducers pubs)
  | epoch {r : ValidatorRegistry} {height : Nat} {o : EpochOrders} : o.Valid r height →
      RegistryStep C r (.epoch height o) (r.updateEpoch height o).1
  | restore (r : ValidatorRegistry) :
      RegistryStep C r .restore (r.restoreFromSnapshot r.takeSnapshot)
  | configure {r r' : ValidatorRegistry} : r'.validators = r.validators →
      RegistryStep C r .configure r'

/-- What an operation is about. -/
inductive OpKind
  | settle
  | deposit (pub : ValidatorPubKey) (amount : Nat)
  | authorize (a : StakeWithdrawalAuthorizationV2)
  | insert (pubs : List ValidatorPubKey) (stake : Nat)

def stakeKind (tx : Transaction) : OpKind :=
  match stakeLayout tx.extra with
  | .v1 =>
    if (stakeFields tx.extra).action = .deposit then
      .deposit (stakeFields tx.extra).pub (stakeFields tx.extra).amount
    else .settle
  | .withdrawalV2 =>
    match decodeStakeWithdrawalExtraV2 tx.extra with
    | .ok a => .authorize a
    | .error _ => .settle
  | .v2 | .v3 | .v4 => .deposit (burnFields tx.extra).pub (burnFields tx.extra).amount
  | .invalid => .settle

namespace RegistryOp

def kind : RegistryOp → OpKind
  | .apply tx _ | .replay tx _ => stakeKind tx
  | .initFromGenesis pubs genesisStake => .insert pubs genesisStake
  | .seed pubs => .insert pubs minStakeNAPR
  | .epoch _ _ | .restore | .configure => .settle

/-- The authorisation an operation applies. -/
def authorization (op : RegistryOp) : Option StakeWithdrawalAuthorizationV2 :=
  match op.kind with
  | .authorize a => some a
  | _ => none

end RegistryOp

theorem applyBlockStakeTxs_run {r r' : ValidatorRegistry} {txs : List Transaction} {height : Nat}
    (h : r.applyBlockStakeTxs C txs height = .ok r') :
    Run (RegistryStep C) r ((txs.filter (·.isStake)).map (.apply · height)) r' := by
  unfold applyBlockStakeTxs at h
  generalize 0 = i at h
  induction txs generalizing r i with
  | nil =>
    cases h
    exact .nil _
  | cons tx txs ih =>
    obtain ⟨r1, hstep, hrest⟩ := loop_cons_eq_ok.mp h
    by_cases hst : tx.isStake = true
    · rw [if_pos hst] at hstep
      rw [filter_cons_of_pos hst]
      exact .cons (.apply hst hstep) (ih _ hrest)
    · rw [if_neg hst] at hstep
      cases hstep
      rw [filter_cons_of_neg hst]
      exact ih _ hrest

/-! ### What an operation can do -/

/-- How an operation of each kind changes the entries. -/
def OpKind.Effect (C : Externals) (m m' : Validators) : OpKind → Prop
  | .settle => Settled m m'
  | .deposit pub amount => amount ≤ maxStakeNAPR ∧ ∃ height e,
      depositEntry C pub amount height (m.get pub) = .ok e ∧ m' = demoteSeeded (m.set pub e)
  | .authorize a => ∃ e e', m.get a.pubKey = some e ∧ a.nonce = e.stakeAuthNonce + 1 ∧
      e'.stakeNAPR ≤ e.stakeNAPR ∧ e'.stakeAuthNonce = a.nonce ∧ m' = m.set a.pubKey e'
  | .insert pubs stake => ∃ seeded,
      m' = (({ validators := m } : ValidatorRegistry).insertActive stake seeded pubs).validators

section

variable {r r' : ValidatorRegistry} {op : RegistryOp} {tx : Transaction} {height : Nat}

theorem applyDeposit_effect (h : r.applyDeposit C pub amount height = .ok r') :
    (OpKind.deposit pub amount).Effect C r.validators r'.validators := by
  obtain ⟨⟨-, hmax⟩, e, he, rfl⟩ := applyDeposit_eq_ok.mp h
  exact ⟨hmax, height, e, he, rfl⟩

theorem StakeChange.effect (h : StakeChange C r tx height r') :
    (stakeKind tx).Effect C r.validators r'.validators := by
  unfold stakeKind
  obtain ⟨hl, hact, hr, hnonce⟩ | ⟨hl, ha, hr, hnext, hnonce⟩ | ⟨hl, hact, h⟩ | ⟨s, hlay, h⟩ := h
  · obtain ⟨hget, rfl, -, hle⟩ := hr
    simp only [hl, if_neg hact]
    exact Settled.update hget ⟨hle, hnonce⟩
  · obtain ⟨hget, rfl, -, hle⟩ := hr
    simp only [hl, ha]
    exact ⟨_, _, hget, hnext, hle, hnonce, rfl⟩
  · simp only [hl, if_pos hact]
    exact applyDeposit_effect h
  · have heff := applyDeposit_effect h
    revert hlay
    cases stakeLayout tx.extra <;> simp [StakeLayout.isDeposit, heff]

theorem RegistryStep.effect (h : RegistryStep C r op r') :
    op.kind.Effect C r.validators r'.validators := by
  cases h with
  | apply hst h => exact (applyOneTx_change hst h).effect
  | replay hst h => exact (replayOneTx_change hst h).effect
  | initFromGenesis pubs stake => exact ⟨false, rfl⟩
  | seed pubs => exact ⟨true, rfl⟩
  | epoch ho => exact updateEpoch_settled ho
  | restore => exact Settled.refl _
  | configure hv =>
    rw [hv]
    exact .refl _

theorem insertActive_get (r : ValidatorRegistry) (stake : Nat) (seeded : Bool)
    (pubs : List ValidatorPubKey) (k : ValidatorPubKey) :
    (r.insertActive stake seeded pubs).validators.get k =
      (r.validators.get k).or (if k ∈ pubs then
        some { pubKey := k, stakeNAPR := stake, status := .active, seeded, stakeGeneration := 1 }
      else none) := by
  unfold insertActive
  generalize r.validators = m
  induction pubs generalizing m with
  | nil => simp
  | cons pub pubs ih =>
    rw [foldl_cons, ih]
    by_cases hk : k = pub
    · subst hk
      cases hget : m.get k with
      | none =>
        have hhas : m.has k = false := has_eq_false.mpr hget
        simp [hhas]
      | some e =>
        have hhas : m.has k = true := has_eq_true.mpr ⟨e, hget⟩
        simp [hhas, hget]
    · have hsame : (if m.has pub = true then m else m.set pub
          { pubKey := pub, stakeNAPR := stake, status := .active, seeded
            stakeGeneration := 1 }).get k = m.get k := by
        split_ifs
        · rfl
        · rw [get_set_ne hk]
      rw [hsame]
      simp [hk]

theorem depositEntry_some (h : depositEntry C pub amount height (some e) = .ok e') :
    e'.stakeAuthNonce = e.stakeAuthNonce ∧
      (e.seeded = true → e'.stakeNAPR = amount) ∧
      (e.seeded = false → e'.stakeNAPR = e.stakeNAPR + amount ∧
        e.stakeNAPR ≤ maxUint64 - amount) := by
  unfold depositEntry at h
  dsimp only at h
  split_ifs at h with hclosed hseeded
  · cases h
  · cases h
    exact ⟨rfl, fun _ => rfl, fun hf => absurd hseeded (by simp [hf])⟩
  · obtain ⟨hle, -, rfl⟩ := topUp_eq_ok.mp h
    exact ⟨rfl, fun ht => absurd ht hseeded, fun _ => ⟨rfl, hle⟩⟩

end

/-! ### Nonces -/

section

variable {r r' : ValidatorRegistry} {op : RegistryOp} {ops : List RegistryOp}

/-- Every entry stays, with at least its nonce. -/
def NoncesGrow (m m' : Validators) : Prop :=
  ∀ k e, m.get k = some e → ∃ e', m'.get k = some e' ∧ e.stakeAuthNonce ≤ e'.stakeAuthNonce

theorem Settled.noncesGrow (h : Settled m m') : NoncesGrow m m' := by
  intro k e hget
  obtain ⟨e', hget', hs⟩ := h.get_some hget
  exact ⟨e', hget', hs.nonce_eq.ge⟩

theorem NoncesGrow.trans {m'' : Validators} (h : NoncesGrow m m') (h' : NoncesGrow m' m'') :
    NoncesGrow m m'' := by
  intro k e hget
  obtain ⟨e', hget', hle⟩ := h k e hget
  obtain ⟨e'', hget'', hle'⟩ := h' k e' hget'
  exact ⟨e'', hget'', hle.trans hle'⟩

theorem noncesGrow_set (h : ∀ e, m.get k = some e → e.stakeAuthNonce ≤ e'.stakeAuthNonce) :
    NoncesGrow m (m.set k e') := by
  intro j e hget
  by_cases hj : j = k
  · subst hj
    exact ⟨e', get_set_self _ _ _, h e hget⟩
  · exact ⟨e, by rw [get_set_ne hj, hget], le_rfl⟩

theorem RegistryStep.noncesGrow (h : RegistryStep C r op r') :
    NoncesGrow r.validators r'.validators := by
  have heff := h.effect
  cases hk : op.kind with
  | settle =>
    rw [hk] at heff
    exact Settled.noncesGrow heff
  | deposit pub amount =>
    rw [hk] at heff
    obtain ⟨-, height, e, he, hm⟩ := heff
    rw [hm]
    apply NoncesGrow.trans _ (demoteSeeded_settled _).noncesGrow
    apply noncesGrow_set
    intro e0 hget
    rw [hget] at he
    exact (depositEntry_some he).1.ge
  | authorize a =>
    rw [hk] at heff
    obtain ⟨e, e', hget, hnonce, -, hnonce', hm⟩ := heff
    rw [hm]
    apply noncesGrow_set
    intro e0 hget0
    have he : e0 = e := Option.some.inj (hget0.symm.trans hget)
    rw [he, hnonce', hnonce]
    exact Nat.le_succ _
  | insert pubs stake =>
    rw [hk] at heff
    obtain ⟨seeded, hm⟩ := heff
    intro k e hget
    refine ⟨e, ?_, le_rfl⟩
    rw [hm, insertActive_get]
    simp [hget]

/-- The authorisations applied so far differ in validator or nonce, and each is used up. -/
structure Spent (past : List RegistryOp) (r : ValidatorRegistry) : Prop where
  distinct : ((past.filterMap RegistryOp.authorization).map fun a => (a.pubKey, a.nonce)).Nodup
  used : ∀ a ∈ past.filterMap RegistryOp.authorization,
    ∃ e, r.validators.get a.pubKey = some e ∧ a.nonce ≤ e.stakeAuthNonce

theorem Spent.grow (h : Spent past r)
    (hg : NoncesGrow r.validators r'.validators) : Spent past r' := by
  refine ⟨h.distinct, ?_⟩
  intro a ha
  obtain ⟨e, hget, hle⟩ := h.used a ha
  obtain ⟨e', hget', hle'⟩ := hg a.pubKey e hget
  exact ⟨e', hget', hle.trans hle'⟩

theorem Spent.step (h : Spent past r) (hstep : RegistryStep C r op r') :
    Spent (past ++ [op]) r' := by
  have hgrown := h.grow hstep.noncesGrow
  have heff := hstep.effect
  cases hauth : op.authorization with
  | none =>
    have hlist : (past ++ [op]).filterMap RegistryOp.authorization =
        past.filterMap RegistryOp.authorization := by simp [hauth]
    exact ⟨by rw [hlist]; exact hgrown.distinct, by rw [hlist]; exact hgrown.used⟩
  | some a =>
    have hlist : (past ++ [op]).filterMap RegistryOp.authorization =
        past.filterMap RegistryOp.authorization ++ [a] := by simp [hauth]
    have hk : op.kind = .authorize a := by
      unfold RegistryOp.authorization at hauth
      split at hauth
      · rename_i b hb
        cases hauth
        exact hb
      · cases hauth
    rw [hk] at heff
    obtain ⟨e, e', hget, hnonce, -, hnonce', hm⟩ := heff
    refine ⟨?_, ?_⟩
    · rw [hlist, map_append, map_singleton]
      apply List.Nodup.append h.distinct (nodup_singleton _)
      -- an earlier authorisation with this nonce would have used the nonce up
      intro x hx hx'
      rw [mem_singleton] at hx'
      obtain ⟨b, hb, rfl⟩ := mem_map.mp hx
      obtain ⟨hpub, hbn⟩ := Prod.mk.inj hx'
      obtain ⟨e0, hget0, hle⟩ := h.used b hb
      rw [hpub, hget] at hget0
      cases hget0
      omega
    · rw [hlist]
      intro b hb
      rcases mem_append.mp hb with hb | hb
      · exact hgrown.used b hb
      · rw [mem_singleton.mp hb, hm]
        exact ⟨e', get_set_self _ _ _, hnonce'.ge⟩

/-- Over every run of operations, from any registry, no two applied authorisations have the same
validator and nonce, and no nonce falls. -/
theorem authorizations_once (h : Run (RegistryStep C) r ops r') :
    ((ops.filterMap RegistryOp.authorization).map fun a => (a.pubKey, a.nonce)).Nodup ∧
      NoncesGrow r.validators r'.validators := by
  refine ⟨?_, ?_⟩
  · have hspent : Spent ops r' :=
      h.history Spent (fun _ _ _ _ _ hp hs => hp.step hs) ⟨by simp, by simp⟩
    exact hspent.distinct
  · refine h.invariant (fun q => NoncesGrow r.validators q.validators) ?_ (Settled.refl _).noncesGrow
    intro a op b _ hg hs
    exact hg.trans hs.noncesGrow

end

/-- A registry of chain 1 in which withdrawals have to be authorised. -/
def authorizedStart : ValidatorRegistry :=
  { stakeWithdrawalGenesis := 1, stakeWithdrawalActivation := 1 }

/-- Validator 1 withdraws 5 of its `stake` with this nonce. -/
def authorizedWithdrawal (nonce stake : Nat) : Transaction :=
  { version := .stake
    extra := [3] ++ sampleValidator 1 ++ beBytes 8 5 ++ Bytes32.bytes 1 ++ beBytes 8 nonce ++
      beBytes 8 1 ++ beBytes 8 50 ++
      Bytes32.bytes (stakeReferenceV2 transparent 1 (sampleValidator 1) 1 stake) ++
      replicate 64 0 }

/-- Validator 1 enters with twice the minimum and withdraws two times. -/
def authorizedOps : List RegistryOp :=
  [.initFromGenesis [sampleValidator 1] (2 * minStakeNAPR),
    .apply (authorizedWithdrawal 1 (2 * minStakeNAPR)) 7,
    .apply (authorizedWithdrawal 2 (2 * minStakeNAPR - 5)) 8]

theorem authorizedOps_once : ∃ r, Run (RegistryStep transparent) authorizedStart authorizedOps r ∧
    (authorizedOps.filterMap RegistryOp.authorization).length = 2 ∧
    ((authorizedOps.filterMap RegistryOp.authorization).map fun a => (a.pubKey, a.nonce)).Nodup := by
  obtain ⟨r, hr, -⟩ : ∃ r, (do
      let r ← (authorizedStart.initFromGenesis [sampleValidator 1] (2 * minStakeNAPR)).applyOneTx
        transparent (authorizedWithdrawal 1 (2 * minStakeNAPR)) 7
      r.applyOneTx transparent (authorizedWithdrawal 2 (2 * minStakeNAPR - 5)) 8) = .ok r ∧ True :=
    exists_ok_of_test (by decide +kernel)
  obtain ⟨r1, h1, h2⟩ := unbind hr
  have hrun : Run (RegistryStep transparent) authorizedStart authorizedOps r :=
    .cons (.initFromGenesis _ _ _) (.cons (.apply rfl h1) (.cons (.apply rfl h2) (.nil r)))
  exact ⟨r, hrun, by decide +kernel, (authorizations_once hrun).1⟩

/-! ### The cap -/

/-- No stake above `MaxStakeNAPR`. -/
def Capped (m : Validators) : Prop := ∀ k e, m.get k = some e → e.stakeNAPR ≤ maxStakeNAPR

/-- A top-up keeps the sum within the cap, and new entries start within it. -/
def RegistryOp.Fits (op : RegistryOp) (r : ValidatorRegistry) : Prop :=
  match op.kind with
  | .deposit pub amount => ∀ e, r.validators.get pub = some e → e.seeded = false →
      e.stakeNAPR + amount ≤ maxStakeNAPR
  | .insert pubs stake => ∀ pub ∈ pubs, r.validators.get pub = none → stake ≤ maxStakeNAPR
  | _ => True

/-- The sum of a top-up is a 64-bit number. -/
def RegistryOp.NoWrap (op : RegistryOp) (r : ValidatorRegistry) : Prop :=
  match op.kind with
  | .deposit pub amount => ∀ e, r.validators.get pub = some e → e.seeded = false →
      e.stakeNAPR + amount < 2 ^ 64
  | _ => True

section

variable {r r' : ValidatorRegistry} {op : RegistryOp} {ops : List RegistryOp}

theorem Settled.capped (h : Settled m m') (hm : Capped m) : Capped m' := by
  intro k e' hget
  obtain ⟨e, hget0, hs⟩ := h.of_get hget
  exact hs.stake_le.trans (hm k e hget0)

theorem capped_set_iff (hm : Capped m) : Capped (m.set k e) ↔ e.stakeNAPR ≤ maxStakeNAPR := by
  constructor
  · intro h
    exact h k e (get_set_self _ _ _)
  · intro he j e' hget
    by_cases hj : j = k
    · subst hj
      rw [get_set_self] at hget
      cases hget
      exact he
    · rw [get_set_ne hj] at hget
      exact hm j e' hget

theorem capped_demoteSeeded_iff : Capped (demoteSeeded m) ↔ Capped m := by
  constructor
  · intro h k e hget
    have hk := h k (if e.seeded then { e with status := .exited, seeded := false } else e)
      (by rw [demoteSeeded, get_map, hget]; rfl)
    split_ifs at hk <;> exact hk
  · exact (demoteSeeded_settled m).capped

theorem RegistryStep.noWrap (h : RegistryStep C r op r') : op.NoWrap r := by
  have heff := h.effect
  unfold RegistryOp.NoWrap
  split
  · rename_i pub amount hk
    rw [hk] at heff
    obtain ⟨hmax, height, e', he, -⟩ := heff
    intro e hget hseeded
    rw [hget] at he
    have hle := ((depositEntry_some he).2.2 hseeded).2
    unfold maxUint64 at hle
    unfold maxStakeNAPR at hmax
    omega
  · trivial

theorem RegistryStep.capped_iff (h : RegistryStep C r op r') (hr : Capped r.validators) :
    Capped r'.validators ↔ op.Fits r := by
  have heff := h.effect
  unfold RegistryOp.Fits
  cases hk : op.kind with
  | settle =>
    rw [hk] at heff
    exact iff_of_true (Settled.capped heff hr) trivial
  | authorize a =>
    rw [hk] at heff
    obtain ⟨e, e', hget, -, hle, -, hm⟩ := heff
    rw [hm, capped_set_iff hr]
    exact iff_of_true (hle.trans (hr _ e hget)) trivial
  | deposit pub amount =>
    rw [hk] at heff
    obtain ⟨hmax, height, e, he, hm⟩ := heff
    rw [hm, capped_demoteSeeded_iff, capped_set_iff hr]
    cases hget : r.validators.get pub with
    | none =>
      rw [hget] at he
      cases he
      refine iff_of_true hmax ?_
      intro e he
      rw [hget] at he
      cases he
    | some e0 =>
      rw [hget] at he
      obtain ⟨-, hseed, htop⟩ := depositEntry_some he
      cases hseeded : e0.seeded with
      | true =>
        rw [hseed hseeded]
        refine iff_of_true hmax ?_
        intro e1 he1 hs
        rw [hget] at he1
        cases he1
        rw [hseeded] at hs
        cases hs
      | false =>
        rw [(htop hseeded).1]
        constructor
        · intro hsum e1 he1 _
          rw [hget] at he1
          cases he1
          exact hsum
        · intro hfit
          exact hfit e0 hget hseeded
  | insert pubs stake =>
    rw [hk] at heff
    obtain ⟨seeded, hm⟩ := heff
    rw [hm]
    constructor
    · intro hcap pub hpub hget
      refine hcap pub { pubKey := pub, stakeNAPR := stake, status := .active, seeded
                        stakeGeneration := 1 } ?_
      rw [insertActive_get]
      simp [hget, hpub]
    · intro hfit k e hget
      rw [insertActive_get] at hget
      cases hold : r.validators.get k with
      | some e0 =>
        rw [hold] at hget
        cases hget
        exact hr k e hold
      | none =>
        rw [hold] at hget
        by_cases hmem : k ∈ pubs
        · rw [if_pos hmem] at hget
          cases hget
          exact hfit k hmem hold
        · rw [if_neg hmem] at hget
          cases hget

/-- From an empty registry, the runs that stay under the cap are the runs whose deposits fit; in
every run the additions are exact. -/
theorem stake_capped_iff_fits (hr : r.validators = ∅) :
    (Run (fun a op b => RegistryStep C a op b ∧ Capped b.validators ∧ op.NoWrap a) r ops r' ↔
      Run (fun a op b => RegistryStep C a op b ∧ op.Fits a) r ops r') ∧
    (Run (RegistryStep C) r ops r' →
      Run (fun a op b => RegistryStep C a op b ∧ op.NoWrap a) r ops r') := by
  have hempty : Capped r.validators := by
    intro k e hget
    rw [hr] at hget
    cases hget
  refine ⟨?_, fun h => h.mono fun a op b hs => ⟨hs, hs.noWrap⟩⟩
  apply Run.congr (fun q => Capped q.validators) ?_ ?_ hempty
  · intro a op b ha
    constructor
    · rintro ⟨hs, hcap, -⟩
      exact ⟨hs, (hs.capped_iff ha).mp hcap⟩
    · rintro ⟨hs, hfit⟩
      exact ⟨hs, (hs.capped_iff ha).mpr hfit, hs.noWrap⟩
  · rintro a op b ha ⟨-, hcap, -⟩
    exact hcap

end

/-! ### Two deposits -/

/-- The outpoint `(h, 0)` holds an active output of `MaxStakeNAPR`. -/
def capOutput (h : Hash32) : UTXO :=
  { txHash := h, outputIndex := 0, oneTimePub := h, txPubKey := 1
    amountCommit := BitVec.ofNat _ maxStakeNAPR, blockHeight := 0 }

/-- An empty registry over two such outputs. -/
def capStart : ValidatorRegistry :=
  { utxos := some
      { utxos := (set ∅ (capOutput 1).key (capOutput 1)).set (capOutput 2).key (capOutput 2)
        byPubKey := (GoMap.set ∅ 1 (capOutput 1)).set 2 (capOutput 2) } }

/-- A v2 deposit of `MaxStakeNAPR` for validator 1 that burns the output at `(h, 0)`. -/
def capDeposit (h : Hash32) : Transaction :=
  { version := .stake
    extra := [1] ++ sampleValidator 1 ++ beBytes 8 maxStakeNAPR ++ replicate 64 0 ++
      Bytes32.bytes h ++ beBytes 4 0 ++ Bytes32.bytes 0 }

/-- The registry has an entry of validator 1 with this stake. -/
def hasStake (stake : Nat) (r : ValidatorRegistry) : Prop :=
  (r.validators.get (sampleValidator 1)).map (·.stakeNAPR) = some stake

instance (stake : Nat) (r : ValidatorRegistry) : Decidable (hasStake stake r) :=
  inferInstanceAs (Decidable (_ = _))

/-- One deposit of the whole cap fits, and the run stays under the cap. -/
theorem one_full_deposit_capped : ∃ r,
    Run (fun a op b => RegistryStep transparent a op b ∧ Capped b.validators ∧ op.NoWrap a)
      capStart [.apply (capDeposit 1) 1] r := by
  obtain ⟨r, hr, -⟩ : ∃ r, capStart.applyOneTx transparent (capDeposit 1) 1 = .ok r ∧
      hasStake maxStakeNAPR r := exists_ok_of_test (by decide +kernel)
  refine ⟨r, (stake_capped_iff_fits rfl).1.mpr ?_⟩
  refine .cons ⟨.apply rfl hr, ?_⟩ (.nil r)
  have hlay : stakeLayout (capDeposit 1).extra = .v2 := by decide +kernel
  have hkind : (RegistryOp.apply (capDeposit 1) 1).kind = .deposit
      (burnFields (capDeposit 1).extra).pub (burnFields (capDeposit 1).extra).amount := by
    show stakeKind (capDeposit 1) = _
    unfold stakeKind
    rw [hlay]
  unfold RegistryOp.Fits
  rw [hkind]
  intro e he
  exact absurd he (by simp [capStart])

/-- Two deposits of the whole cap are both accepted: the stake is twice the cap. -/
theorem two_full_deposits_exceed_cap : ∃ r,
    Run (RegistryStep transparent) capStart [.apply (capDeposit 1) 1, .apply (capDeposit 2) 1] r ∧
      ¬ Capped r.validators := by
  obtain ⟨r, hr, hstake⟩ : ∃ r,
      capStart.applyBlockStakeTxs transparent [capDeposit 1, capDeposit 2] 1 = .ok r ∧
        hasStake (2 * maxStakeNAPR) r := exists_ok_of_test (by decide +kernel)
  refine ⟨r, applyBlockStakeTxs_run hr, fun hcap => ?_⟩
  obtain ⟨e, he, hval⟩ := Option.map_eq_some_iff.mp hstake
  have hle := hcap _ e he
  rw [hval] at hle
  revert hle
  decide

end Aperod
