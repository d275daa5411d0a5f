import Aperod.Core.Staking

/-!
# What the stake interpreters check

One spec lemma for each check and each step of `Core.Staking`, with the wording of the errors left
behind.  A deposit of any of the three layouts passes the same tests (`DepositChecked`), and after
them every interpreter does the same to the registry.
-/

namespace Aperod

open Go

variable {C : Externals}
variable {checkSpent : Bool} {u : Unit} {t : DepositTexts} {p : StakeExtraV2}

/-! ### Payloads -/

section

variable {extra : Bytes}

theorem decodeStakeExtra_of_layout (h : stakeLayout extra = .v1) :
    decodeStakeExtra extra = .ok (stakeFields extra) := by
  unfold stakeLayout at h
  split_ifs at h with h1
  simp [decodeStakeExtra, failIf, h1]

theorem decodeStakeExtraV2_of_layout (h : stakeLayout extra = .v2) :
    decodeStakeExtraV2 extra = .ok (burnFields extra) := by
  unfold stakeLayout at h
  split_ifs at h with _ _ h2
  simp [decodeStakeExtraV2, failIf, h2]

theorem decodeStakeExtraV3_of_layout (h : stakeLayout extra = .v3) :
    decodeStakeExtraV3 extra = .ok { burnFields extra with oneTimeSig := slice extra 173 237 } := by
  unfold stakeLayout at h
  split_ifs at h with _ _ _ h3
  simp [decodeStakeExtraV3, failIf, h3]

theorem decodeStakeExtraV4_toV2 {p : StakeExtraV4} (h : decodeStakeExtraV4 extra = .ok p) :
    p.toStakeExtraV2 = burnFields extra := by
  obtain ⟨-, -, h⟩ := unbind h
  cases h
  rfl

end

namespace ValidatorRegistry

variable {r : ValidatorRegistry} {height : Nat}

/-! ### Checks -/

theorem checkDepositHead_eq_ok :
    r.checkDepositHead C t height p = .ok u ↔ r.keyImageActive height = false ∧
      p.action = .deposit ∧
      r.verifyValidatorSignature C p.pub height (stakeSignMsgV2 C p) p.sig = true := by
  simp only [checkDepositHead, bind_eq_ok, failIf_eq_ok, not_not, Bool.not_eq_true, Bool.not_eq_false,
    exists_and_left, exists_const]

theorem checkCollateral_eq_ok {stealthOnly : Bool}
    {u : UTXO} :
    r.checkCollateral C t stealthOnly p = .ok u ↔
      (∃ s, r.utxos = some s ∧ s.get p.burnKey = some u) ∧ ¬ (stealthOnly ∧ u.txPubKey = 0) ∧
        C.commit p.amount p.burnBlind = .ok u.amountCommit := by
  unfold checkCollateral
  rcases r.utxos with _ | s
  · simp
  · dsimp only
    rcases hget : s.get p.burnKey with _ | v
    · simp [hget]
    · simp only [bind_eq_ok, failIf_eq_ok, wrap_eq_ok, Option.some.injEq, exists_eq_left', hget]
      constructor
      · rintro ⟨_, hst, c, hc, _, hne, heq⟩
        cases heq
        rw [not_not.mp hne] at hc
        exact ⟨rfl, hst, hc⟩
      · rintro ⟨rfl, hst, hc⟩
        exact ⟨(), hst, _, hc, (), fun h => h rfl, rfl⟩

theorem checkCollateralUnspent_eq_ok {s : UTXOSet} {ki : KeyImage} :
    checkCollateralUnspent C s ki checkSpent = .ok u ↔
      (checkSpent = true → s.hasSpentKeyImage C ki = .ok false) := by
  unfold checkCollateralUnspent
  rcases checkSpent with _ | _
  · simp
  · simp only [if_true, bind_eq_ok, wrap_eq_ok, failIf_eq_ok, Bool.not_eq_true, forall_const]
    constructor
    · rintro ⟨spent, h, rfl⟩
      exact h
    · exact fun h => ⟨false, h, rfl⟩

theorem validateStakeDepositV4_eq_ok {p : StakeExtraV4} {u : UTXO} :
    r.validateStakeDepositV4 C height p checkSpent = .ok u ↔ r.keyImageActive height = true ∧
      p.action = .deposit ∧
      r.verifyValidatorSignature C p.pub height (stakeSignMsgV2 C p.toStakeExtraV2) p.sig = true ∧
      ∃ s, r.utxos = some s ∧ s.get p.burnKey = some u ∧
        C.commit p.amount p.burnBlind = .ok u.amountCommit ∧
        C.verifyKeyImageProof u.oneTimePub p.keyImage
          (stakeKeyImageProofContext p.toStakeExtraV2) p.proof = .ok () ∧
        (checkSpent = true → s.hasSpentKeyImage C p.keyImage = .ok false) := by
  unfold validateStakeDepositV4
  simp only [bind_eq_ok, failIf_eq_ok, not_not, Bool.not_eq_false, exists_and_left, exists_const]
  refine and_congr_right fun _ => and_congr_right fun _ => and_congr_right fun _ => ?_
  rcases r.utxos with _ | s
  · simp
  · dsimp only
    rcases hget : s.get p.burnKey with _ | v
    · simp [hget]
    · simp only [bind_eq_ok, failIf_eq_ok, wrap_eq_ok, checkCollateralUnspent_eq_ok,
        Option.some.injEq, exists_eq_left', hget, not_not]
      constructor
      · rintro ⟨c, hc, _, rfl, _, hproof, _, hspent, heq⟩
        cases heq
        exact ⟨rfl, hc, hproof, hspent⟩
      · rintro ⟨rfl, hc, hproof, hspent⟩
        exact ⟨_, hc, (), rfl, (), hproof, (), hspent, rfl⟩

end ValidatorRegistry

/-! ### Deposits -/

/-- The layouts that carry a deposit. -/
def StakeLayout.isDeposit : StakeLayout → Bool
  | .v2 | .v3 | .v4 => true
  | _ => false

/-- What each deposit layout asks of the collateral `u` beyond its commitment. -/
inductive CollateralProof (C : Externals) (r : ValidatorRegistry) (height : Nat) (extra : Bytes)
    (u : UTXO) : Prop
  | v2 : stakeLayout extra = .v2 → r.keyImageActive height = false → u.txPubKey ≠ 0 →
      CollateralProof C r height extra u
  | v3 : stakeLayout extra = .v3 → r.keyImageActive height = false →
      ValidatorPubKey.verify C (Bytes32.bytes u.oneTimePub)
        (stakeOwnershipSignMsg C (burnFields extra).burnTxHash (burnFields extra).burnOutIdx)
        (slice extra 173 237) = true →
      CollateralProof C r height extra u
  | v4 (p : StakeExtraV4) : stakeLayout extra = .v4 → r.keyImageActive height = true →
      decodeStakeExtraV4 extra = .ok p →
      C.verifyKeyImageProof u.oneTimePub p.keyImage
        (stakeKeyImageProofContext p.toStakeExtraV2) p.proof = .ok () →
      CollateralProof C r height extra u

/-- The tests a deposit with collateral `u` has to pass on every path. -/
structure DepositChecked (C : Externals) (r : ValidatorRegistry) (height : Nat) (extra : Bytes)
    (u : UTXO) : Prop where
  action : (burnFields extra).action = .deposit
  signature : r.verifyValidatorSignature C (burnFields extra).pub height
    (stakeSignMsgV2 C (burnFields extra)) (burnFields extra).sig = true
  commit : C.commit (burnFields extra).amount (burnFields extra).burnBlind = .ok u.amountCommit
  proof : CollateralProof C r height extra u

namespace ValidatorRegistry

variable {r r' : ValidatorRegistry} {height : Nat} {tx : Transaction}

theorem applyOneTx_deposit (hst : tx.isStake = true)
    (hlay : (stakeLayout tx.extra).isDeposit = true) :
    r.applyOneTx C tx height = .ok r' ↔
      ∃ u, (∃ s, r.utxos = some s ∧ s.get (burnFields tx.extra).burnKey = some u) ∧
        DepositChecked C r height tx.extra u ∧
        r.burnAndDeposit C (burnFields tx.extra) height = .ok r' := by
  have hv : tx.version = .stake := of_decide_eq_true hst
  unfold applyOneTx
  simp only [bind_eq_ok, failIf_eq_ok, hv, ne_eq, not_true_eq_false, not_false_eq_true,
    true_and, exists_const]
  rcases hl : stakeLayout tx.extra with _ | _ | _ | _ | _ | _
  all_goals rw [hl] at hlay
  all_goals first | exact absurd hlay (by decide) | skip
  · -- v2
    simp only [applyV2, checkV2, bind_assoc, ok_bind,
      decodeStakeExtraV2_of_layout hl, bind_eq_ok,
      checkDepositHead_eq_ok, checkCollateral_eq_ok]
    constructor
    · rintro ⟨-, ⟨hk, ha, hs⟩, u, ⟨hu, hz, hc⟩, h⟩
      exact ⟨u, hu, ⟨ha, hs, hc, .v2 hl hk fun h0 => hz ⟨trivial, h0⟩⟩, h⟩
    · rintro ⟨u, hu, ⟨ha, hs, hc, hp⟩, h⟩
      obtain ⟨-, hk, hz⟩ | ⟨hl', -, -⟩ | ⟨_, hl', -, -, -⟩ := hp
      · exact ⟨(), ⟨hk, ha, hs⟩, u, ⟨hu, fun h0 => hz h0.2, hc⟩, h⟩
      all_goals rw [hl] at hl'; exact absurd hl' (by decide)
  · -- v3
    simp only [applyV3, checkV3, bind_assoc, ok_bind,
      decodeStakeExtraV3_of_layout hl, bind_eq_ok,
      checkDepositHead_eq_ok, checkCollateral_eq_ok, checkOwnership, failIf_eq_ok, not_not]
    constructor
    · rintro ⟨-, ⟨hk, ha, hs⟩, u, ⟨hu, -, hc⟩, -, ho, h⟩
      exact ⟨u, hu, ⟨ha, hs, hc, .v3 hl hk ho⟩, h⟩
    · rintro ⟨u, hu, ⟨ha, hs, hc, hp⟩, h⟩
      obtain ⟨hl', -, -⟩ | ⟨-, hk, ho⟩ | ⟨_, hl', -, -, -⟩ := hp
      · rw [hl] at hl'; exact absurd hl' (by decide)
      · exact ⟨(), ⟨hk, ha, hs⟩, u, ⟨hu, by simp, hc⟩, (), ho, h⟩
      · rw [hl] at hl'; exact absurd hl' (by decide)
  · -- v4
    simp only [applyV4, checkV4, bind_assoc, ok_bind, bind_eq_ok, validateStakeDepositV4_eq_ok]
    constructor
    · rintro ⟨p, hdec, u, ⟨hk, ha, hs, s, hr, hu, hc, hp, -⟩, h⟩
      have hp2 := decodeStakeExtraV4_toV2 hdec
      rw [hp2] at ha hs hu hc h
      exact ⟨u, ⟨s, hr, hu⟩, ⟨ha, hs, hc, .v4 p hl hk hdec hp⟩, h⟩
    · rintro ⟨u, ⟨s, hr, hu⟩, ⟨ha, hs, hc, hp⟩, h⟩
      obtain ⟨hl', -, -⟩ | ⟨hl', -, -⟩ | ⟨p, -, hk, hdec, hp⟩ := hp
      · rw [hl] at hl'; exact absurd hl' (by decide)
      · rw [hl] at hl'; exact absurd hl' (by decide)
      · have hp2 := decodeStakeExtraV4_toV2 hdec
        rw [← hp2] at ha hs hu hc h
        exact ⟨p, hdec, u, ⟨hk, ha, hs, s, hr, hu, hc, hp, by simp⟩, h⟩

end ValidatorRegistry

/-! ### Entries -/

theorem effectiveMin_pos (r : ValidatorRegistry) : 0 < r.effectiveMin := by
  unfold ValidatorRegistry.effectiveMin
  split_ifs with h
  · decide
  · omega

namespace ValidatorRegistry

variable {r r' : ValidatorRegistry} {height amount : Nat} {pub : ValidatorPubKey}

theorem topUp_eq_ok {e e' : ValidatorEntry} :
    topUp C e amount = .ok e' ↔ e.stakeNAPR ≤ maxUint64 - amount ∧
      e.stakeGeneration.toNat ≠ maxUint64 ∧
      { e with stakeNAPR := e.stakeNAPR + amount, stakeGeneration := e.stakeGeneration + 1 } =
        e' := by
  simp only [topUp, bind_eq_ok, failIf_eq_ok, not_lt, gt_iff_lt, exists_and_left, exists_const,
    Except.ok.injEq, ne_eq]

theorem applyDeposit_eq_ok :
    r.applyDeposit C pub amount height = .ok r' ↔
      (r.effectiveMin ≤ amount ∧ amount ≤ maxStakeNAPR) ∧
      ∃ e, depositEntry C pub amount height (r.validators.get pub) = .ok e ∧
        { r with validators := demoteSeeded (r.validators.set pub e) } = r' := by
  simp only [applyDeposit, bind_eq_ok, failIf_eq_ok, not_lt, gt_iff_lt, exists_and_left,
    exists_const, Except.ok.injEq, and_assoc]

theorem applyWithdraw_eq_ok :
    r.applyWithdraw pub height = .ok r' ↔
      ∃ e, r.validators.get pub = some e ∧ e.status.closed = false ∧
        { r with
          validators := r.validators.set pub
            { e with
              status := .unbonding, unbondEndBlock := (height + unbondingBlocks) % 2 ^ 64 } } =
          r' := by
  unfold applyWithdraw
  rcases r.validators.get pub with _ | e
  · simp
  · simp only [bind_eq_ok, failIf_eq_ok, Bool.not_eq_true, exists_and_left, exists_const,
      Except.ok.injEq, Option.some.injEq, exists_eq_left']

theorem applyPartialWithdraw_eq_ok :
    r.applyPartialWithdraw C pub amount height = .ok r' ↔
      ∃ e, r.validators.get pub = some e ∧ e.status.closed = false ∧ amount ≠ 0 ∧
        amount + r.effectiveMin ≤ e.stakeNAPR ∧
        { r with
          validators := r.validators.set pub
            { e with
              stakeNAPR := e.stakeNAPR - amount
              unbondingQueue := e.unbondingQueue ++
                [⟨amount, (height + partialUnbondingBlocks) % 2 ^ 64⟩] } } = r' := by
  have hmin := effectiveMin_pos r
  unfold applyPartialWithdraw
  rcases r.validators.get pub with _ | e
  · simp
  · simp only [bind_eq_ok, failIf_eq_ok, Bool.not_eq_true, exists_and_left, exists_const,
      Except.ok.injEq, Option.some.injEq, exists_eq_left', ge_iff_le, not_le, not_lt, ne_eq]
    refine and_congr_right fun _ => and_congr_right fun _ => ?_
    constructor
    · rintro ⟨hlt, hrem, h⟩
      exact ⟨by omega, h⟩
    · rintro ⟨hle, h⟩
      exact ⟨by omega, by omega, h⟩

theorem burnAndDeposit_eq_ok :
    r.burnAndDeposit C p height = .ok r' ↔
      ∃ s s', r.utxos = some s ∧ s.markStaked p.burnKey = .ok s' ∧
        { r with utxos := some s' }.applyDeposit C p.pub p.amount height = .ok r' := by
  simp only [burnAndDeposit, bind_eq_ok, deref_eq_ok, wrap_eq_ok, exists_and_left]

end ValidatorRegistry

theorem UTXOSet.markStaked_eq_ok {s s' : UTXOSet} {k : UTXOKey} :
    s.markStaked k = .ok s' ↔ s.isStaked k = false ∧
      ∃ u, s.get k = some u ∧
        { s with
          byPubKey := s.byPubKey.del u.oneTimePub
          utxos := s.utxos.del k
          stakedUTXOs := s.stakedUTXOs.set k u } = s' := by
  unfold UTXOSet.markStaked UTXOSet.isStaked UTXOSet.get
  simp only [bind_eq_ok, failIf_eq_ok, Bool.not_eq_true, exists_and_left, exists_const]
  refine and_congr_right fun _ => ?_
  rcases s.utxos.get k with _ | u <;> simp

/-! ### What a stake transaction does -/

section

open ValidatorRegistry GoMap

variable {r r' : ValidatorRegistry} {pub : ValidatorPubKey} {e : ValidatorEntry}
  {a : StakeWithdrawalAuthorizationV2} {tx : Transaction} {height amount : Nat}

/-- The entry `e` of `pub` gave way to `e'`, which has its key and no more stake. -/
structure Replaces (r : ValidatorRegistry) (pub : ValidatorPubKey) (e e' : ValidatorEntry)
    (r' : ValidatorRegistry) : Prop where
  get : r.validators.get pub = some e
  set : { r with validators := r.validators.set pub e' } = r'
  pubKey : e'.pubKey = e.pubKey
  stake_le : e'.stakeNAPR ≤ e.stakeNAPR

/-- What a stake transaction did to the registry, on the live path or in a replay. -/
inductive StakeChange (C : Externals) (r : ValidatorRegistry) (tx : Transaction) (height : Nat)
    (r' : ValidatorRegistry) : Prop
  | withdraw {pub : ValidatorPubKey} {e e' : ValidatorEntry} : stakeLayout tx.extra = .v1 →
      (stakeFields tx.extra).action ≠ .deposit → Replaces r pub e e' r' →
      e'.stakeAuthNonce = e.stakeAuthNonce → StakeChange C r tx height r'
  | authorize {a : StakeWithdrawalAuthorizationV2} {e e' : ValidatorEntry} :
      stakeLayout tx.extra = .withdrawalV2 → decodeStakeWithdrawalExtraV2 tx.extra = .ok a →
      Replaces r a.pubKey e e' r' → a.nonce = e.stakeAuthNonce + 1 → e'.stakeAuthNonce = a.nonce →
      StakeChange C r tx height r'
  /-- Old chains hold v1 deposits; they burn nothing. -/
  | depositV1 : stakeLayout tx.extra = .v1 → (stakeFields tx.extra).action = .deposit →
      r.applyDeposit C (stakeFields tx.extra).pub (stakeFields tx.extra).amount height = .ok r' →
      StakeChange C r tx height r'
  | deposit (s : Option UTXOSet) : (stakeLayout tx.extra).isDeposit = true →
      { r with utxos := s }.applyDeposit C (burnFields tx.extra).pub (burnFields tx.extra).amount
        height = .ok r' → StakeChange C r tx height r'

theorem applyWithdraw_replaces (h : r.applyWithdraw pub height = .ok r') :
    ∃ e e', Replaces r pub e e' r' ∧ e'.stakeAuthNonce = e.stakeAuthNonce := by
  obtain ⟨e, he, -, rfl⟩ := applyWithdraw_eq_ok.mp h
  exact ⟨e, _, ⟨he, rfl, rfl, le_rfl⟩, rfl⟩

theorem applyPartialWithdraw_replaces (h : r.applyPartialWithdraw C pub amount height = .ok r') :
    ∃ e e', Replaces r pub e e' r' ∧ e'.stakeAuthNonce = e.stakeAuthNonce := by
  obtain ⟨e, he, -, -, -, rfl⟩ := applyPartialWithdraw_eq_ok.mp h
  exact ⟨e, _, ⟨he, rfl, rfl, Nat.sub_le _ _⟩, rfl⟩

theorem withdrawV2_replaces (h : r.withdrawV2 C a height = .ok r') :
    ∃ e e', Replaces r a.pubKey e e' r' ∧ e'.stakeAuthNonce = e.stakeAuthNonce := by
  unfold withdrawV2 at h
  split at h
  · obtain ⟨_, -, h⟩ := unbind h
    exact applyWithdraw_replaces h
  · exact applyPartialWithdraw_replaces h
  · cases h

/-- The test of the nonce; with it, the next nonce is a 64-bit number. -/
theorem validateWithdrawalV2_nonce (h : r.validateWithdrawalV2 C a height = .ok e) :
    r.validators.get a.pubKey = some e ∧ a.nonce = e.stakeAuthNonce + 1 := by
  simp only [validateWithdrawalV2, bind_eq_ok] at h
  obtain ⟨-, -, -, -, -, -, -, -, h⟩ := h
  split at h
  · cases h
  · rename_i entry hentry
    simp only [bind_eq_ok, failIf_eq_ok, not_or, not_not] at h
    obtain ⟨-, ⟨-, hnonce, -⟩, -, -, -, -, h⟩ := h
    cases h
    exact ⟨(Option.filter_eq_some_iff.mp hentry).1, hnonce⟩

theorem StakeChange.of_authorization (hl : stakeLayout tx.extra = .withdrawalV2)
    (ha : decodeStakeWithdrawalExtraV2 tx.extra = .ok a)
    (h : r.applyWithdrawalV2 C a height = .ok r') : StakeChange C r tx height r' := by
  obtain ⟨e, hval, h⟩ := unbind h
  obtain ⟨r1, hw, h⟩ := unbind h
  cases h
  obtain ⟨hget, hnext⟩ := validateWithdrawalV2_nonce hval
  obtain ⟨e0, e1, ⟨hget0, rfl, hpub, hle⟩, -⟩ := withdrawV2_replaces hw
  cases hget.symm.trans hget0
  have hset : { r with
      validators := r.validators.set a.pubKey { e1 with stakeAuthNonce := a.nonce } } =
      { r with validators := r.validators.set a.pubKey e1 }.setNonce a.pubKey a.nonce := by
    simp only [setNonce, get_set_self, GoMap.set_set]
  exact .authorize hl ha ⟨hget, hset, hpub, hle⟩ hnext rfl

theorem applyOneTx_change (hst : tx.isStake = true) (h : r.applyOneTx C tx height = .ok r') :
    StakeChange C r tx height r' := by
  by_cases hlay : (stakeLayout tx.extra).isDeposit = true
  · obtain ⟨_, -, -, h⟩ := (applyOneTx_deposit hst hlay).mp h
    obtain ⟨s, s', -, -, h⟩ := burnAndDeposit_eq_ok.mp h
    exact .deposit _ hlay h
  · obtain ⟨_, -, h⟩ := unbind h
    rcases hl : stakeLayout tx.extra with _ | _ | _ | _ | _ | _
    all_goals rw [hl] at h hlay
    all_goals first | exact absurd rfl hlay | skip
    · -- v1: a withdrawal, since the live path refuses v1 deposits
      simp only [applyV1, bind_eq_ok, decodeStakeExtra_of_layout hl, failIf_eq_ok] at h
      obtain ⟨p, hp, -, hact, -, -, -, -, h⟩ := h
      cases hp
      have hr : ∃ e e', Replaces r (stakeFields tx.extra).pub e e' r' ∧
          e'.stakeAuthNonce = e.stakeAuthNonce := by
        unfold applyWithdrawalV1 at h
        split at h
        · exact applyWithdraw_replaces h
        · exact applyPartialWithdraw_replaces h
        · cases h
      obtain ⟨e, e', hr, hnonce⟩ := hr
      exact .withdraw hl hact hr hnonce
    · obtain ⟨a, ha, h⟩ := unbind h
      exact .of_authorization hl ha h
    · cases h

theorem markBurned_eq (r : ValidatorRegistry) (p : StakeExtraV2) (u : UTXO) :
    ∃ s, r.markBurned p u = { r with utxos := s } := by
  unfold markBurned
  split
  · exact ⟨_, rfl⟩
  · exact ⟨_, rfl⟩

theorem replayOneTx_change (hst : tx.isStake = true) (h : r.replayOneTx C tx height = .ok r') :
    StakeChange C r tx height r' := by
  have hv : tx.version = .stake := of_decide_eq_true hst
  unfold replayOneTx at h
  rw [if_neg (not_not.mpr hv)] at h
  have hdeposit : ∀ u, (stakeLayout tx.extra).isDeposit = true →
      (r.markBurned (burnFields tx.extra) u).applyDeposit C (burnFields tx.extra).pub
        (burnFields tx.extra).amount height = .ok r' → StakeChange C r tx height r' := by
    intro u hlay h
    obtain ⟨s, hs⟩ := markBurned_eq r (burnFields tx.extra) u
    rw [hs] at h
    exact .deposit s hlay h
  rcases hl : stakeLayout tx.extra with _ | _ | _ | _ | _ | _
  all_goals rw [hl] at h hdeposit
  · simp only [replayV1, bind_eq_ok, wrap_eq_ok, decodeStakeExtra_of_layout hl] at h
    obtain ⟨p, hp, -, -, -, -, -, -, h⟩ := h
    cases hp
    unfold replayActionV1 at h
    split at h
    · rename_i hact
      obtain ⟨e, e', hr, hnonce⟩ := applyWithdraw_replaces h
      exact .withdraw hl (by rw [hact]; decide) hr hnonce
    · rename_i hact
      obtain ⟨e, e', hr, hnonce⟩ := applyPartialWithdraw_replaces h
      exact .withdraw hl (by rw [hact]; decide) hr hnonce
    · rename_i hact
      exact .depositV1 hl hact h
    · cases h
  · obtain ⟨a, ha, h⟩ := unbind h
    exact .of_authorization hl (wrap_eq_ok.mp ha) (wrap_eq_ok.mp h)
  · rw [decodeStakeExtraV2_of_layout hl] at h
    obtain ⟨p, hp, h⟩ := unbind h
    cases hp
    obtain ⟨_, -, h⟩ := unbind h
    exact hdeposit _ rfl h
  · rw [decodeStakeExtraV3_of_layout hl] at h
    obtain ⟨p, hp, h⟩ := unbind h
    cases hp
    obtain ⟨_, -, h⟩ := unbind h
    exact hdeposit _ rfl h
  · simp only [replayV4, bind_eq_ok, wrap_eq_ok] at h
    obtain ⟨p, hp, u, -, h⟩ := h
    rw [decodeStakeExtraV4_toV2 hp] at h
    exact hdeposit u rfl h
  · cases h

end

/-- The states the operations of the registry lead to. -/
inductive ValidatorRegistry.Reachable (C : Externals) : ValidatorRegistry → Prop
  | new : Reachable C {}
  | setUTXOSet {r : ValidatorRegistry} (s : Option UTXOSet) :
      Reachable C r → Reachable C { r with utxos := s }
  | updateMinStake {r : ValidatorRegistry} (napro : Nat) :
      Reachable C r → Reachable C (r.updateMinStake napro)
  | initFromGenesis {r : ValidatorRegistry} (pubs : List ValidatorPubKey) (genesisStake : Nat) :
      Reachable C r → Reachable C (r.initFromGenesis pubs genesisStake)
  | seedFromObservedProducers {r : ValidatorRegistry} (pubs : List ValidatorPubKey) :
      Reachable C r → Reachable C (r.seedFromObservedProducers pubs)
  | configureStakeWithdrawalV2 {r r' : ValidatorRegistry} {genesis : Hash32} {activation : Nat} :
      Reachable C r → r.configureStakeWithdrawalV2 genesis activation = .ok r' → Reachable C r'
  | configureStakeKeyImageV4 {r r' : ValidatorRegistry} {activation : Nat} :
      Reachable C r → r.configureStakeKeyImageV4 activation = .ok r' → Reachable C r'
  | configureSignatureAuthority {r r' : ValidatorRegistry} {f : ValidatorAuthorityFork} :
      Reachable C r → r.configureSignatureAuthority f = .ok r' → Reachable C r'
  | restoreFromSnapshot {r r' : ValidatorRegistry} :
      Reachable C r → Reachable C r' → Reachable C (r.restoreFromSnapshot r'.takeSnapshot)
  | applyBlockStakeTxs {r r' : ValidatorRegistry} {txs : List Transaction} {height : Nat} :
      Reachable C r → r.applyBlockStakeTxs C txs height = .ok r' → Reachable C r'
  | replayBlockStakeTxs {r r' : ValidatorRegistry} {txs : List Transaction} {height : Nat} :
      Reachable C r → r.replayBlockStakeTxs C txs height = .ok r' → Reachable C r'
  | updateEpoch {r : ValidatorRegistry} {height : Nat} {o : EpochOrders} :
      Reachable C r → o.Valid r height → Reachable C (r.updateEpoch height o).1

end Aperod
