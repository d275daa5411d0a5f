import Aperod.Core.Equiv.Staking
import Aperod.Core.Equiv.UTXO
import Aperod.Core.Snapshot

/-!
# Startup replay against the live path

`replayOneTx` trusts that a stored block was checked when it was accepted.  For a transaction the
live path applied, it makes the same change to the validators, whatever UTXO set the restarted node
has (`replayOneTx_eq`); and it goes through if the set still has the collateral of a v4 deposit
(`replayOneTx_ok`).

`SameOutputs` is what the two UTXO sets have to share for that: the active outputs, their index and
the burned outputs.  Key images, the rollback journal and the decoy pool may differ.
-/

namespace Aperod

open Go ValidatorRegistry List

variable {C : Externals}
variable {s : UTXOSet} {a : StakeWithdrawalAuthorizationV2}

def ValidatorRegistry.withUTXOs (r : ValidatorRegistry) (t : UTXOSet) : ValidatorRegistry :=
  { r with utxos := some t }

/-! ### Changes of entries do not read the UTXO set -/

section

variable {r r' : ValidatorRegistry} {pub : ValidatorPubKey} {amount height : Nat}

theorem applyDeposit_withUTXOs (h : r.applyDeposit C pub amount height = .ok r') (t : UTXOSet) :
    (r.withUTXOs t).applyDeposit C pub amount height = .ok (r'.withUTXOs t) := by
  obtain ⟨hb, e, he, rfl⟩ := applyDeposit_eq_ok.mp h
  exact applyDeposit_eq_ok.mpr ⟨hb, e, he, rfl⟩

theorem applyWithdraw_withUTXOs (h : r.applyWithdraw pub height = .ok r') (t : UTXOSet) :
    (r.withUTXOs t).applyWithdraw pub height = .ok (r'.withUTXOs t) := by
  obtain ⟨e, he, hopen, rfl⟩ := applyWithdraw_eq_ok.mp h
  exact applyWithdraw_eq_ok.mpr ⟨e, he, hopen, rfl⟩

theorem applyPartialWithdraw_withUTXOs (h : r.applyPartialWithdraw C pub amount height = .ok r')
    (t : UTXOSet) :
    (r.withUTXOs t).applyPartialWithdraw C pub amount height = .ok (r'.withUTXOs t) := by
  obtain ⟨e, he, hopen, hne, hle, rfl⟩ := applyPartialWithdraw_eq_ok.mp h
  exact applyPartialWithdraw_eq_ok.mpr ⟨e, he, hopen, hne, hle, rfl⟩

theorem withdrawV2_withUTXOs (h : r.withdrawV2 C a height = .ok r') (t : UTXOSet) :
    (r.withUTXOs t).withdrawV2 C a height = .ok (r'.withUTXOs t) := by
  unfold withdrawV2 at h ⊢
  split at h
  · obtain ⟨⟨⟩, hzero, h⟩ := unbind h
    exact pass hzero (applyWithdraw_withUTXOs h t)
  · exact applyPartialWithdraw_withUTXOs h t
  · cases h

theorem setNonce_withUTXOs (nonce : Nat) (t : UTXOSet) :
    (r.withUTXOs t).setNonce pub nonce = (r.setNonce pub nonce).withUTXOs t := by
  unfold setNonce
  have hget : (r.withUTXOs t).validators.get pub = r.validators.get pub := rfl
  rw [hget]
  cases r.validators.get pub <;> rfl

theorem applyWithdrawalV2_withUTXOs (h : r.applyWithdrawalV2 C a height = .ok r') (t : UTXOSet) :
    (r.withUTXOs t).applyWithdrawalV2 C a height = .ok (r'.withUTXOs t) := by
  obtain ⟨e, hval, h⟩ := unbind h
  obtain ⟨r1, hw, h⟩ := unbind h
  cases h
  refine bind_ok hval <| bind_ok (withdrawV2_withUTXOs hw t) ?_
  rw [setNonce_withUTXOs]

end

theorem withUTXOs_self {r : ValidatorRegistry} (hs : r.utxos = some s) :
    r.withUTXOs s = r := by
  cases r
  cases hs
  rfl

/-- A change that works over every UTXO set leaves the set alone. -/
theorem utxos_of_withUTXOs {f : ValidatorRegistry → Result ValidatorRegistry}
    {r r' : ValidatorRegistry} (h : f r = .ok r')
    (hf : ∀ t, f (r.withUTXOs t) = .ok (r'.withUTXOs t)) (hs : r.utxos = some s) :
    r'.utxos = some s := by
  have h' := hf s
  rw [withUTXOs_self hs, h] at h'
  have heq : r' = r'.withUTXOs s := Except.ok.inj h'
  rw [heq]
  rfl

/-! ### The shared part of two UTXO sets -/

/-- The two sets have the same active outputs, index and burned outputs, and `t` tracks no more
recent outputs than `s`. -/
structure SameOutputs (s t : UTXOSet) : Prop where
  utxos : t.utxos = s.utxos
  byPubKey : t.byPubKey = s.byPubKey
  staked : t.stakedUTXOs = s.stakedUTXOs
  activation : t.clsagActivationHeight = s.clsagActivationHeight
  recent : t.clsagRecentOutputs.length ≤ s.clsagRecentOutputs.length

/-- `MarkStakedKnown` acts as `MarkStaked` does where the latter succeeds. -/
theorem SameOutputs.markStaked {s' t : UTXOSet} (h : SameOutputs s t) {k : UTXOKey}
    (hmark : s.markStaked k = .ok s') (u : UTXO) : SameOutputs s' (t.markStakedKnown k u) := by
  obtain ⟨hfree, v, hget, rfl⟩ := UTXOSet.markStaked_eq_ok.mp hmark
  have hfree' : t.stakedUTXOs.has k = false := by
    rw [h.staked]
    exact hfree
  have hget' : t.utxos.get k = some v := by
    rw [h.utxos]
    exact hget
  unfold UTXOSet.markStakedKnown
  rw [hfree', hget']
  refine ⟨?_, ?_, ?_, h.activation, h.recent⟩
  · exact congrArg (·.del k) h.utxos
  · exact congrArg (·.del v.oneTimePub) h.byPubKey
  · exact congrArg (·.set k v) h.staked

namespace SameOutputs

variable {t : UTXOSet}

section

variable (h : SameOutputs s t)
include h

theorem setKeyImages (c c' : KeyImageSet) :
    SameOutputs { s with keyImages := c } { t with keyImages := c' } :=
  { h with }

theorem spend (height : Nat) (m : Point32) (u : UTXO) :
    SameOutputs (s.spend height m u) (t.spend height m u) := by
  refine ⟨?_, ?_, h.staked, h.activation, h.recent⟩
  · show t.utxos.del u.key = s.utxos.del u.key
    rw [h.utxos]
  · show t.byPubKey.del m = s.byPubKey.del m
    rw [h.byPubKey]

theorem applyInput (height : Nat) (tx : Transaction) (inp : RingInput) :
    SameOutputs (s.applyInput C height tx inp) (t.applyInput C height tx inp) := by
  have hmarked := h.setKeyImages (s.keyImages.insert (spentForm C inp.keyImage))
    (t.keyImages.insert (spentForm C inp.keyImage))
  unfold UTXOSet.applyInput
  dsimp only
  split_ifs
  · exact hmarked
  · rw [UTXOSet.findMember_congr hmarked.byPubKey]
    split
    · exact hmarked.spend height _ _
    · exact hmarked

theorem trackCLSAGRecent (key : UTXOKey) (height : Nat)
    (hroom : s.clsagRecentOutputs.length + 1 ≤ maxCLSAGRecentOutputs) :
    SameOutputs (s.trackCLSAGRecent key height) (t.trackCLSAGRecent key height) ∧
      (s.trackCLSAGRecent key height).clsagRecentOutputs.length ≤
        s.clsagRecentOutputs.length + 1 := by
  have hrecent := h.recent
  have hs : (s.clsagRecentOutputs ++ [key]).length ≤ maxCLSAGRecentOutputs := by
    rw [length_append]
    exact hroom
  have ht : (t.clsagRecentOutputs ++ [key]).length ≤ maxCLSAGRecentOutputs := by
    rw [length_append, length_singleton]
    omega
  unfold UTXOSet.trackCLSAGRecent
  rw [h.utxos, h.activation, if_pos hs, if_pos ht]
  split_ifs
  · exact ⟨h, Nat.le_succ _⟩
  · exact ⟨h, Nat.le_succ _⟩
  · refine ⟨⟨rfl, h.byPubKey, h.staked, rfl, ?_⟩, ?_⟩
    · show (t.clsagRecentOutputs ++ [key]).length ≤ (s.clsagRecentOutputs ++ [key]).length
      rw [length_append, length_append]
      exact Nat.add_le_add_right h.recent _
    · show (s.clsagRecentOutputs ++ [key]).length ≤ _
      rw [length_append]
      exact le_rfl

theorem addOutput (height : Nat) (u : UTXO)
    (hroom : s.clsagRecentOutputs.length + 1 ≤ maxCLSAGRecentOutputs) :
    SameOutputs (s.addOutput height u) (t.addOutput height u) ∧
      (s.addOutput height u).clsagRecentOutputs.length ≤ s.clsagRecentOutputs.length + 1 := by
  have hadded : SameOutputs
      { s with
        utxos := s.utxos.set u.key u
        byPubKey := if u.protocolLocked then s.byPubKey else s.byPubKey.set u.oneTimePub u }
      { t with
        utxos := t.utxos.set u.key u
        byPubKey := if u.protocolLocked then t.byPubKey else t.byPubKey.set u.oneTimePub u } := by
    refine ⟨?_, ?_, h.staked, h.activation, h.recent⟩
    · dsimp only
      rw [h.utxos]
    · dsimp only
      rw [h.byPubKey]
  exact hadded.trackCLSAGRecent u.key height hroom

theorem addOutputs (height : Nat) (us : List UTXO)
    (hroom : s.clsagRecentOutputs.length + us.length ≤ maxCLSAGRecentOutputs) :
    SameOutputs (us.foldl (UTXOSet.addOutput height) s) (us.foldl (UTXOSet.addOutput height) t) ∧
      (us.foldl (UTXOSet.addOutput height) s).clsagRecentOutputs.length ≤
        s.clsagRecentOutputs.length + us.length := by
  induction us generalizing s t with
  | nil => exact ⟨h, le_rfl⟩
  | cons u us ih =>
    rw [length_cons] at hroom ⊢
    obtain ⟨hone, hlen⟩ := h.addOutput height u (by omega)
    obtain ⟨hall, hlen'⟩ := ih hone (by omega)
    exact ⟨hall, by rw [foldl_cons]; omega⟩

end

end SameOutputs

namespace UTXOSet

theorem applyInput_recent (s : UTXOSet) (height : Nat) (tx : Transaction) (inp : RingInput) :
    (s.applyInput C height tx inp).clsagRecentOutputs = s.clsagRecentOutputs := by
  unfold applyInput
  dsimp only
  split_ifs
  · rfl
  · split <;> rfl

end UTXOSet

/-- The number of outputs a block creates. -/
def Block.outputCount (b : Block) : Nat := (b.txs.map (·.outputs.length)).sum

namespace SameOutputs

variable {t : UTXOSet}

theorem applyTx (h : SameOutputs s t) (height : Nat) (tx : Transaction)
    (hroom : s.clsagRecentOutputs.length + tx.outputs.length ≤ maxCLSAGRecentOutputs) :
    SameOutputs (s.applyTx C height tx) (t.applyTx C height tx) ∧
      (s.applyTx C height tx).clsagRecentOutputs.length ≤
        s.clsagRecentOutputs.length + tx.outputs.length := by
  have hlen : (tx.utxos C height).length = tx.outputs.length := by
    simp [Transaction.utxos]
  have hin : SameOutputs (tx.inputs.foldl (UTXOSet.applyInput C height tx) s)
      (tx.inputs.foldl (UTXOSet.applyInput C height tx) t) :=
    foldl_rel h fun inp _ _ _ h => h.applyInput height tx inp
  have hrec : (tx.inputs.foldl (UTXOSet.applyInput C height tx) s).clsagRecentOutputs =
      s.clsagRecentOutputs :=
    foldlRecOn (motive := fun t : UTXOSet => t.clsagRecentOutputs = s.clsagRecentOutputs) _ _ rfl
      fun t ht inp _ => (t.applyInput_recent height tx inp).trans ht
  unfold UTXOSet.applyTx
  rw [← hlen] at hroom ⊢
  rw [← hrec] at hroom ⊢
  split
  · exact (hin.setKeyImages _ _).addOutputs height _ hroom
  · exact hin.addOutputs height _ hroom

/-- **Pass 2** keeps the shared part, if the recent outputs stay within their cap. -/
theorem applyTxs (h : SameOutputs s t) (b : Block)
    (hroom : s.clsagRecentOutputs.length + b.outputCount ≤ maxCLSAGRecentOutputs) :
    SameOutputs (s.applyTxs C b) (t.applyTxs C b) ∧
      (s.applyTxs C b).clsagRecentOutputs.length ≤
        s.clsagRecentOutputs.length + b.outputCount := by
  unfold UTXOSet.applyTxs
  unfold Block.outputCount at hroom ⊢
  generalize b.txs = txs at hroom ⊢
  induction txs generalizing s t with
  | nil => exact ⟨h, le_rfl⟩
  | cons tx txs ih =>
    rw [map_cons, sum_cons] at hroom ⊢
    obtain ⟨hone, hlen⟩ := h.applyTx b.header.height tx (by omega)
    obtain ⟨hall, hlen'⟩ := ih hone (by omega)
    exact ⟨hall, by rw [foldl_cons]; omega⟩

end SameOutputs

/-! ### One transaction -/

section

variable {r r1 q : ValidatorRegistry} {tx : Transaction} {height : Nat} {t : UTXOSet}

theorem replayOneTx_withdrawal (hst : tx.isStake = true)
    (hlay : (stakeLayout tx.extra).isDeposit = false) (hs : r.utxos = some s)
    (hlive : r.applyOneTx C tx height = .ok r1) (t : UTXOSet) :
    r1.utxos = some s ∧ (r.withUTXOs t).replayOneTx C tx height = .ok (r1.withUTXOs t) := by
  have hv : tx.version = .stake := of_decide_eq_true hst
  unfold applyOneTx at hlive
  unfold replayOneTx
  simp only [hv, ne_eq, not_true_eq_false, failIf, if_false, ok_bind] at hlive ⊢
  rcases hl : stakeLayout tx.extra with _ | _ | _ | _ | _ | _
  all_goals rw [hl] at hlive hlay
  all_goals first | exact absurd hlay (by decide) | skip
  · -- v1: the live path refuses deposits and, after activation, everything
    simp only [applyV1, decodeStakeExtra_of_layout hl, ok_bind, bind_eq_ok, failIf_eq_ok,
      Bool.not_eq_true, Bool.not_eq_false, exists_and_left, exists_const] at hlive
    obtain ⟨hdep, hactive, hsig, hlive⟩ := hlive
    have hactive' : (r.withUTXOs t).withdrawalV2Active height = false := hactive
    have hsig' : (r.withUTXOs t).verifyValidatorSignature C (stakeFields tx.extra).pub height
        (stakeSignMsg C (stakeFields tx.extra)) (stakeFields tx.extra).sig = true := hsig
    simp only [replayV1, decodeStakeExtra_of_layout hl, wrap, ok_bind, failIf, hdep, hactive',
      hsig', false_and, Bool.false_eq_true, not_true_eq_false, if_false]
    unfold applyWithdrawalV1 at hlive
    unfold replayActionV1
    split at hlive
    · rename_i hact
      simp only [hact]
      have hok := applyWithdraw_withUTXOs hlive
      exact ⟨utxos_of_withUTXOs (f := (·.applyWithdraw _ height)) hlive hok hs, hok t⟩
    · rename_i hact
      simp only [hact]
      have hok := applyPartialWithdraw_withUTXOs hlive
      exact ⟨utxos_of_withUTXOs (f := (·.applyPartialWithdraw C _ _ height)) hlive hok hs, hok t⟩
    · cases hlive
  · -- authorised withdrawal
    obtain ⟨a, hdec, hlive⟩ := unbind hlive
    have hok := applyWithdrawalV2_withUTXOs hlive
    refine ⟨utxos_of_withUTXOs (f := (·.applyWithdrawalV2 C a height)) hlive hok hs, ?_⟩
    simp only [hdec, wrap, ok_bind, hok t]
  · cases hlive

/-- The end of a replayed deposit: the same change of the validators as `burnAndDeposit`. -/
theorem markBurned_applyDeposit {p : StakeExtraV2} (h : r.burnAndDeposit C p height = .ok r1)
    (t : UTXOSet) (u : UTXO) :
    ((r.withUTXOs t).markBurned p u).applyDeposit C p.pub p.amount height =
      .ok (r1.withUTXOs (t.markStakedKnown p.burnKey u)) := by
  obtain ⟨s, s', -, -, hdep⟩ := burnAndDeposit_eq_ok.mp h
  exact applyDeposit_withUTXOs hdep _

theorem replayDeposit_eq {v : String} {u : UTXO} (hchk : DepositChecked C r height tx.extra u)
    (hkey : r.keyImageActive height = false)
    (h : r.burnAndDeposit C (burnFields tx.extra) height = .ok r1) (t : UTXOSet) :
    (r.withUTXOs t).replayDeposit C v (burnFields tx.extra) height =
      .ok (r1.withUTXOs (t.markStakedKnown (burnFields tx.extra).burnKey
        (burnedUTXO C (burnFields tx.extra)))) := by
  have hhead : (r.withUTXOs t).checkDepositHead C (replayTexts v height) height
      (burnFields tx.extra) = .ok () :=
    checkDepositHead_eq_ok.mpr ⟨hkey, hchk.action, hchk.signature⟩
  unfold replayDeposit
  rw [hhead]
  exact markBurned_applyDeposit h t _

/-- A replayed deposit burns the named outpoint of whatever set there is; only layout v4 needs the
set to have the output. -/
theorem replayOneTx_deposit (hst : tx.isStake = true)
    (hlay : (stakeLayout tx.extra).isDeposit = true) (hlive : r.applyOneTx C tx height = .ok r1)
    (t : UTXOSet) :
    (∀ q, (r.withUTXOs t).replayOneTx C tx height = .ok q →
      ∃ u, q = r1.withUTXOs (t.markStakedKnown (burnFields tx.extra).burnKey u)) ∧
    (t.get (burnFields tx.extra).burnKey = r.utxos.bind (·.get (burnFields tx.extra).burnKey) →
      ∃ u, (r.withUTXOs t).replayOneTx C tx height =
        .ok (r1.withUTXOs (t.markStakedKnown (burnFields tx.extra).burnKey u))) := by
  have hv : tx.version = .stake := of_decide_eq_true hst
  obtain ⟨u, ⟨s, hs, hu⟩, hchk, hburn⟩ := (applyOneTx_deposit hst hlay).mp hlive
  unfold replayOneTx
  simp only [hv, ne_eq, not_true_eq_false, if_false]
  obtain ⟨hl, hk, -⟩ | ⟨hl, hk, -⟩ | ⟨p, hl, hk, hdec, hproof⟩ := hchk.proof
  · simp only [hl, decodeStakeExtraV2_of_layout hl, wrap, ok_bind]
    rw [replayDeposit_eq hchk hk hburn]
    exact ⟨fun q hq => ⟨_, (Except.ok.inj hq).symm⟩, fun _ => ⟨_, rfl⟩⟩
  · simp only [hl, decodeStakeExtraV3_of_layout hl, wrap, ok_bind]
    rw [replayDeposit_eq hchk hk hburn]
    exact ⟨fun q hq => ⟨_, (Except.ok.inj hq).symm⟩, fun _ => ⟨_, rfl⟩⟩
  · have hp2 := decodeStakeExtraV4_toV2 hdec
    simp only [hl, replayV4, hdec, wrap, ok_bind]
    constructor
    · intro q hq
      obtain ⟨u', -, hq⟩ := unbind hq
      rw [← hp2] at hburn ⊢
      rw [markBurned_applyDeposit hburn t u'] at hq
      exact ⟨u', (Except.ok.inj hq).symm⟩
    · intro hcol
      have hcol' : t.get (burnFields tx.extra).burnKey = some u := by
        rw [hcol, hs]
        exact hu
      rw [← hp2] at hburn hcol' ⊢
      have hval : (r.withUTXOs t).validateStakeDepositV4 C height p false = .ok u := by
        refine validateStakeDepositV4_eq_ok.mpr ⟨hk, ?_, ?_, t, rfl, hcol', ?_, hproof, by simp⟩
        · rw [hp2]
          exact hchk.action
        · rw [hp2]
          exact hchk.signature
        · rw [hp2]
          exact hchk.commit
      exact ⟨u, by rw [hval]; exact markBurned_applyDeposit hburn t u⟩

/-- What replay makes of something the live path turned `r`, over the set `s`, into `r1`. -/
structure Replays (r1 : ValidatorRegistry) (s t : UTXOSet) (replayed : Result ValidatorRegistry)
    (s' : UTXOSet) : Prop where
  live : r1.utxos = some s'
  recent : s'.clsagRecentOutputs = s.clsagRecentOutputs
  /-- Whatever set `t` the restarted node has, the validators come out the same. -/
  same : ∀ q, replayed = .ok q → ∃ t', q = r1.withUTXOs t'
  /-- If it has the outputs of the live node, replay goes through. -/
  ok : SameOutputs s t → ∃ t', replayed = .ok (r1.withUTXOs t') ∧ SameOutputs s' t'

theorem replayOneTx_spec (hst : tx.isStake = true) (hs : r.utxos = some s)
    (hlive : r.applyOneTx C tx height = .ok r1) (t : UTXOSet) :
    ∃ s', Replays r1 s t ((r.withUTXOs t).replayOneTx C tx height) s' := by
  by_cases hlay : (stakeLayout tx.extra).isDeposit = true
  · obtain ⟨hsame, hok⟩ := replayOneTx_deposit hst hlay hlive t
    obtain ⟨u, -, -, hburn⟩ := (applyOneTx_deposit hst hlay).mp hlive
    obtain ⟨s0, s', hs0, hmark, hdep⟩ := burnAndDeposit_eq_ok.mp hburn
    rw [hs] at hs0
    cases hs0
    obtain ⟨-, e, -, rfl⟩ := applyDeposit_eq_ok.mp hdep
    have hrecent : s'.clsagRecentOutputs = s.clsagRecentOutputs := by
      obtain ⟨-, v, -, rfl⟩ := UTXOSet.markStaked_eq_ok.mp hmark
      rfl
    refine ⟨s', rfl, hrecent, fun q hq => ?_, fun h => ?_⟩
    · obtain ⟨v, hv⟩ := hsame q hq
      exact ⟨_, hv⟩
    · have hcol : t.get (burnFields tx.extra).burnKey =
          r.utxos.bind (·.get (burnFields tx.extra).burnKey) := by
        rw [hs]
        show t.utxos.get _ = s.utxos.get _
        rw [h.utxos]
      obtain ⟨v, hv⟩ := hok hcol
      exact ⟨_, hv, h.markStaked hmark v⟩
  · have hlay' : (stakeLayout tx.extra).isDeposit = false := by simpa using hlay
    obtain ⟨hlive', hok⟩ := replayOneTx_withdrawal hst hlay' hs hlive t
    refine ⟨s, hlive', rfl, fun q hq => ?_, fun h => ⟨t, hok, h⟩⟩
    rw [hok] at hq
    exact ⟨t, (Except.ok.inj hq).symm⟩

/-- **One block**, by induction on its transactions. -/
theorem replayBlockStakeTxs_spec {txs : List Transaction} (hs : r.utxos = some s)
    (hlive : r.applyBlockStakeTxs C txs height = .ok r1) (t : UTXOSet) :
    ∃ s', Replays r1 s t ((r.withUTXOs t).replayBlockStakeTxs C txs height) s' := by
  unfold applyBlockStakeTxs at hlive
  unfold replayBlockStakeTxs
  generalize 0 = i at hlive ⊢
  induction txs generalizing r s t i with
  | nil =>
    cases hlive
    exact ⟨s, hs, rfl, fun q hq => ⟨t, (Except.ok.inj hq).symm⟩, fun h => ⟨t, rfl, h⟩⟩
  | cons tx txs ih =>
    obtain ⟨r2, hone, hrest⟩ := loop_cons_eq_ok.mp hlive
    by_cases hst : tx.isStake = true
    · rw [if_pos hst] at hone
      obtain ⟨s2, hstep⟩ := replayOneTx_spec hst hs hone t
      -- the final set of the live path does not depend on `t`
      obtain ⟨s', hs', hrecent, -, -⟩ := ih hstep.live t (i + 1) hrest
      refine ⟨s', hs', hrecent.trans hstep.recent, fun q hq => ?_, fun h => ?_⟩
      · obtain ⟨q2, hq2, hq⟩ := loop_cons_eq_ok.mp hq
        rw [if_pos hst] at hq2
        obtain ⟨t2, rfl⟩ := hstep.same q2 hq2
        obtain ⟨_, htail⟩ := ih hstep.live t2 (i + 1) hrest
        exact htail.same q hq
      · obtain ⟨t2, hok, h2⟩ := hstep.ok h
        obtain ⟨s'', htail⟩ := ih hstep.live t2 (i + 1) hrest
        obtain ⟨t', hok', h'⟩ := htail.ok h2
        have hset : s'' = s' := Option.some.inj (htail.live.symm.trans hs')
        rw [hset] at h'
        refine ⟨t', loop_cons_eq_ok.mpr ⟨r2.withUTXOs t2, ?_, hok'⟩, h'⟩
        rw [if_pos hst]
        exact hok
    · rw [if_neg hst] at hone
      cases hone
      obtain ⟨s', htail⟩ := ih hs t (i + 1) hrest
      have hskip : ∀ q, loop (fun _ tx r => if tx.isStake then replayOneTx C r tx height else .ok r)
          i (tx :: txs) (r.withUTXOs t) = .ok q ↔
          loop (fun _ tx r => if tx.isStake then replayOneTx C r tx height else .ok r)
          (i + 1) txs (r.withUTXOs t) = .ok q := by
        intro q
        rw [loop_cons_eq_ok, if_neg hst]
        simp
      refine ⟨s', htail.live, htail.recent, fun q hq => htail.same q ((hskip q).mp hq),
        fun h => ?_⟩
      obtain ⟨t', hok, h'⟩ := htail.ok h
      exact ⟨t', (hskip _).mpr hok, h'⟩

end

end Aperod
