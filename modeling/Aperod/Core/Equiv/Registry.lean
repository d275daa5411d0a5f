import Aperod.Core.Equiv.Epoch
import Aperod.Core.Equiv.Staking

/-!
# The keys of the registry

Every operation of the registry keeps the entries it finds, each under its key, and files a new
entry under the public key it carries (`Evolves`).  So in every reachable registry an entry stands
under its own public key (`Reachable.keyed`), and no validator ever leaves the map.
-/

namespace Aperod

open Go ValidatorRegistry GoMap

variable {C : Externals}
variable {m : Validators} {e e' : ValidatorEntry} {k : ValidatorPubKey}
  {f : ValidatorEntry → ValidatorEntry}

/-- Every entry stands under its own public key. -/
def Keyed (m : Validators) : Prop := ∀ k e, m.get k = some e → e.pubKey = k

def SameKey (e e' : ValidatorEntry) : Prop := e'.pubKey = e.pubKey

/-- `m'` has the validators of `m`, and new ones under their own keys. -/
structure Evolves (m m' : Validators) : Prop where
  keeps : ∀ k e, m.get k = some e → ∃ e', m'.get k = some e' ∧ e'.pubKey = e.pubKey
  fresh : ∀ k e', m.get k = none → m'.get k = some e' → e'.pubKey = k

namespace Evolves

variable {m' m'' : Validators}

theorem refl (m : Validators) : Evolves m m where
  keeps _ e h := ⟨e, h, rfl⟩
  fresh _ _ hn h := by rw [hn] at h; cases h

theorem trans (h : Evolves m m') (h' : Evolves m' m'') : Evolves m m'' where
  keeps k e hget := by
    obtain ⟨e', hget', hpub'⟩ := h.keeps k e hget
    obtain ⟨e'', hget'', hpub''⟩ := h'.keeps k e' hget'
    exact ⟨e'', hget'', hpub''.trans hpub'⟩
  fresh k e'' hn hget := by
    rcases hm : m'.get k with _ | e'
    · exact h'.fresh k e'' hm hget
    · obtain ⟨e, hget', hpub⟩ := h'.keeps k e' hm
      rw [hget] at hget'
      cases hget'
      exact hpub.trans (h.fresh k e' hn hm)

theorem keyed (h : Evolves m m') (hm : Keyed m) : Keyed m' := by
  intro k e' hget'
  rcases hget : m.get k with _ | e
  · exact h.fresh k e' hget hget'
  · obtain ⟨e1, he1, hpub⟩ := h.keeps k e hget
    rw [hget'] at he1
    cases he1
    exact hpub.trans (hm k e hget)

theorem has (h : Evolves m m') (hk : m.has k = true) : m'.has k = true := by
  obtain ⟨e, he⟩ := has_eq_true.mp hk
  obtain ⟨e', he', -⟩ := h.keeps k e he
  exact has_eq_true.mpr ⟨e', he'⟩

theorem set (hold : ∀ e, m.get k = some e → e'.pubKey = e.pubKey)
    (hnew : m.get k = none → e'.pubKey = k) : Evolves m (m.set k e') where
  keeps j e hget := by
    by_cases hj : j = k
    · subst hj
      exact ⟨e', get_set_self _ _ _, hold e hget⟩
    · exact ⟨e, by rw [get_set_ne hj, hget], rfl⟩
  fresh j e1 hn hget := by
    by_cases hj : j = k
    · subst hj
      rw [get_set_self] at hget
      cases hget
      exact hnew hn
    · rw [get_set_ne hj, hn] at hget
      cases hget

theorem of_rel (h : Rel SameKey m m') : Evolves m m' where
  keeps _ _ hget := h.some hget
  fresh _ _ hn hget := by
    rw [h.none_iff.mp hn] at hget
    cases hget

theorem update (hget : m.get k = some e)
    (hpub : e'.pubKey = e.pubKey) : Evolves m (m.set k e') :=
  .of_rel ((Rel.refl (r := SameKey) (fun _ => rfl) m).set_right hget hpub)

theorem map (hf : ∀ e, (f e).pubKey = e.pubKey) : Evolves m (m.map f) :=
  .of_rel (Rel.map (r := SameKey) hf m)

end Evolves

/-! ### The operations -/

section

variable {r r' : ValidatorRegistry} {pub : ValidatorPubKey} {amount height : Nat}
  {tx : Transaction} {txs : List Transaction}

theorem insertActive_evolves (r : ValidatorRegistry) (stake : Nat) (seeded : Bool)
    (pubs : List ValidatorPubKey) :
    Evolves r.validators (r.insertActive stake seeded pubs).validators := by
  unfold insertActive
  refine List.foldlRecOn (motive := Evolves r.validators) pubs _ (.refl _) fun m hm pub _ => ?_
  split_ifs with hhas
  · exact hm
  · have hnone : m.get pub = none := has_eq_false.mp (by simpa using hhas)
    exact hm.trans (.set (fun e he => by rw [hnone] at he; cases he) fun _ => rfl)

theorem depositEntry_pubKey {o : Option ValidatorEntry}
    (h : depositEntry C pub amount height o = .ok e) :
    (∀ e0, o = some e0 → e.pubKey = e0.pubKey) ∧ (o = none → e.pubKey = pub) := by
  cases o with
  | none =>
    cases h
    exact ⟨fun e0 h0 => (by cases h0), fun _ => rfl⟩
  | some e0 =>
    refine ⟨fun e1 h1 => ?_, fun h => by cases h⟩
    cases h1
    unfold depositEntry at h
    dsimp only at h
    split_ifs at h
    · cases h
    · cases h
      rfl
    · obtain ⟨-, -, rfl⟩ := topUp_eq_ok.mp h
      rfl

theorem applyDeposit_evolves (h : r.applyDeposit C pub amount height = .ok r') :
    Evolves r.validators r'.validators := by
  obtain ⟨-, e, he, rfl⟩ := applyDeposit_eq_ok.mp h
  obtain ⟨hold, hnew⟩ := depositEntry_pubKey he
  have hdemote : Evolves (r.validators.set pub e) (demoteSeeded (r.validators.set pub e)) := by
    refine .map fun e0 => ?_
    split_ifs <;> rfl
  exact (Evolves.set hold hnew).trans hdemote

theorem StakeChange.evolves (h : StakeChange C r tx height r') :
    Evolves r.validators r'.validators := by
  obtain ⟨-, -, hr, -⟩ | ⟨-, -, hr, -, -⟩ | ⟨-, -, h⟩ | ⟨s, -, h⟩ := h
  · obtain ⟨hget, rfl, hpub, -⟩ := hr
    exact .update hget hpub
  · obtain ⟨hget, rfl, hpub, -⟩ := hr
    exact .update hget hpub
  · exact applyDeposit_evolves h
  · have hdep := applyDeposit_evolves h
    exact hdep

theorem applyBlockStakeTxs_evolves (h : r.applyBlockStakeTxs C txs height = .ok r') :
    Evolves r.validators r'.validators := by
  refine loop_invariant (fun q => Evolves r.validators q.validators) ?_ h (.refl _)
  intro _ tx q q' _ hq hstep
  split_ifs at hstep with hst
  · exact hq.trans (applyOneTx_change hst hstep).evolves
  · cases hstep
    exact hq

theorem replayBlockStakeTxs_evolves (h : r.replayBlockStakeTxs C txs height = .ok r') :
    Evolves r.validators r'.validators := by
  refine loop_invariant (fun q => Evolves r.validators q.validators) ?_ h (.refl _)
  intro _ tx q q' _ hq hstep
  split_ifs at hstep with hst
  · exact hq.trans (replayOneTx_change hst hstep).evolves
  · cases hstep
    exact hq

theorem updateEpoch_evolves {o : EpochOrders} (ho : o.Valid r height) :
    Evolves r.validators (r.updateEpoch height o).1.validators :=
  .of_rel (updateEpoch_rel (fun _ => rfl) (fun _ _ _ h h' => h'.trans h) (fun _ _ _ _ => rfl) ho)

end

theorem ValidatorRegistry.Reachable.keyed {r : ValidatorRegistry} (h : r.Reachable C) :
    Keyed r.validators := by
  induction h with
  | new =>
    intro k e he
    cases (get_empty k).symm.trans he
  | setUTXOSet _ _ ih => exact ih
  | updateMinStake _ _ ih => exact ih
  | initFromGenesis pubs stake _ ih => exact (insertActive_evolves _ _ _ _).keyed ih
  | seedFromObservedProducers pubs _ ih => exact (insertActive_evolves _ _ _ _).keyed ih
  | configureStakeWithdrawalV2 _ hc ih =>
    simp only [ValidatorRegistry.configureStakeWithdrawalV2, bind_eq_ok] at hc
    obtain ⟨-, -, -, -, hc⟩ := hc
    cases hc
    exact ih
  | configureStakeKeyImageV4 _ hc ih =>
    simp only [ValidatorRegistry.configureStakeKeyImageV4, bind_eq_ok] at hc
    obtain ⟨-, -, -, -, hc⟩ := hc
    cases hc
    exact ih
  | configureSignatureAuthority _ hc ih =>
    simp only [ValidatorRegistry.configureSignatureAuthority, bind_eq_ok] at hc
    obtain ⟨-, -, hc⟩ := hc
    cases hc
    exact ih
  | restoreFromSnapshot _ _ _ ih => exact ih
  | applyBlockStakeTxs _ hb ih => exact (applyBlockStakeTxs_evolves hb).keyed ih
  | replayBlockStakeTxs _ hb ih => exact (replayBlockStakeTxs_evolves hb).keyed ih
  | updateEpoch _ ho ih => exact (updateEpoch_evolves ho).keyed ih

end Aperod
