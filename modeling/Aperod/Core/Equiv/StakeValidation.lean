import Aperod.Core.Equiv.Staking
import Aperod.Core.Transparent
import Mathlib.Data.List.TakeWhile

/-!
# Does the dry run predict the application of stake transactions?

`validateBlockStakeTxs` runs the stake transactions of a block on a shadow of the validators;
`applyBlockStakeTxs` runs them on the registry.  The two agree except for entries that were seeded:
the first real deposit of a block replaces the seeded entry of its validator and makes every other
seeded entry exit, and the shadow does neither.
-/

namespace Aperod

open Go ValidatorRegistry GoMap

variable {C : Externals}
variable {u : UTXO} {extra : Bytes} {pos : String} {op : StakeOp} {se' : ShadowEntry}
  {p : StakeExtraV2} {inputs kis : GoMap KeyImage Nat}

/-! ### Operations -/

/-- What a stake transaction asks of the registry. -/
inductive StakeOp
  | deposit (p : StakeExtraV2)
  | withdraw (pub : ValidatorPubKey)
  | partialWithdraw (pub : ValidatorPubKey) (amount : Nat)
  | authorized (a : StakeWithdrawalAuthorizationV2)

namespace StakeOp

/-- The validator an operation is for. -/
def pub : StakeOp → ValidatorPubKey
  | .deposit p => p.pub
  | .withdraw pub => pub
  | .partialWithdraw pub _ => pub
  | .authorized a => a.pubKey

def depositor : StakeOp → Option ValidatorPubKey
  | .deposit p => some p.pub
  | _ => none

/-- The outpoint a deposit burns. -/
def burn : StakeOp → Option UTXOKey
  | .deposit p => some p.burnKey
  | _ => none

/-- What the operation deposits for `k`. -/
def depositTo (k : ValidatorPubKey) : StakeOp → Nat
  | .deposit p => if p.pub = k then p.amount else 0
  | _ => 0

/-- What the operation withdraws from the stake of `k` by a v1 request. -/
def withdrawFrom (k : ValidatorPubKey) : StakeOp → Nat
  | .partialWithdraw pub amount => if pub = k then amount else 0
  | _ => 0

end StakeOp

/-- The operation of a v1 payload. -/
def StakeExtra.stakeOp (p : StakeExtra) : Option StakeOp :=
  match p.action with
  | .withdraw => some (.withdraw p.pub)
  | .partialWithdraw => some (.partialWithdraw p.pub p.amount)
  | _ => none

/-- The operation of a transaction; none for ordinary transactions and undecodable payloads. -/
def Transaction.stakeOp (tx : Transaction) : Option StakeOp :=
  if tx.isStake then
    match stakeLayout tx.extra with
    | .v1 => (stakeFields tx.extra).stakeOp
    | .withdrawalV2 =>
      match decodeStakeWithdrawalExtraV2 tx.extra with
      | .ok a => some (.authorized a)
      | .error _ => none
    | .v2 | .v3 | .v4 => some (.deposit (burnFields tx.extra))
    | .invalid => none
  else none

/-- The operations of a block, in order. -/
def stakeOps (txs : List Transaction) : List StakeOp := txs.filterMap (·.stakeOp)

/-! ### The operations a seeded entry allows -/

/-- The validator of the first deposit. -/
def firstDepositor (ops : List StakeOp) : Option ValidatorPubKey := ops.findSome? (·.depositor)

/-- What the operations deposit for `k`. -/
def depositedTo (k : ValidatorPubKey) (ops : List StakeOp) : Nat := (ops.map (·.depositTo k)).sum

/-- What v1 requests after the first deposit withdraw from the stake of `k`. -/
def withdrawnSince (k : ValidatorPubKey) (ops : List StakeOp) : Nat :=
  ((ops.dropWhile (·.depositor.isNone)).map (·.withdrawFrom k)).sum

/-- The entry of `k` was seeded and never replaced. -/
def ValidatorRegistry.Seeded (r : ValidatorRegistry) (k : ValidatorPubKey) : Prop :=
  ∃ e, r.validators.get k = some e ∧ e.seeded = true

/-- No deposit of `ops` has made the seeded entry of `k` exit. -/
def Standing (ops : List StakeOp) (k : ValidatorPubKey) : Prop :=
  ∀ first, firstDepositor ops = some first → first = k

/-- The outpoint was never burned. -/
def Unstaked (s : Option UTXOSet) (k : UTXOKey) : Prop := ∀ t, s = some t → t.isStaked k = false

/-- What the state before the block and the operations `pre` before it ask of an operation. -/
def StakeOp.Safe (r : ValidatorRegistry) (pre : List StakeOp) : StakeOp → Prop
  | .deposit p => Unstaked r.utxos p.burnKey ∧ (r.Seeded p.pub → Standing pre p.pub)
  | .withdraw pub => r.Seeded pub → Standing pre pub
  | .partialWithdraw pub amount => r.Seeded pub → Standing pre pub ∧
      (firstDepositor pre = some pub →
        amount + r.effectiveMin + withdrawnSince pub pre ≤ depositedTo pub pre)
  | .authorized _ => True

/-! ### History -/

section

variable {pre : List StakeOp} {k : ValidatorPubKey}

theorem firstDepositor_snoc (pre : List StakeOp) (op : StakeOp) :
    firstDepositor (pre ++ [op]) = (firstDepositor pre).or op.depositor := by
  unfold firstDepositor
  cases h : op.depositor <;> simp [h]

theorem depositedTo_snoc (k : ValidatorPubKey) (pre : List StakeOp) (op : StakeOp) :
    depositedTo k (pre ++ [op]) = depositedTo k pre + op.depositTo k := by
  simp [depositedTo]

theorem firstDepositor_eq_none : firstDepositor pre = none ↔ ∀ op ∈ pre, op.depositor = none := by
  simp [firstDepositor]

theorem withdrawnSince_snoc (h : firstDepositor pre ≠ none) :
    withdrawnSince k (pre ++ [op]) = withdrawnSince k pre + op.withdrawFrom k := by
  unfold withdrawnSince
  rw [List.dropWhile_append]
  split_ifs with hd
  · exfalso
    apply h
    rw [firstDepositor_eq_none]
    intro o ho
    have hall := List.dropWhile_eq_nil_iff.mp (List.isEmpty_iff.mp hd) o ho
    exact Option.isNone_iff_eq_none.mp hall
  · simp

theorem withdrawnSince_first (h : firstDepositor pre = none) :
    withdrawnSince k (pre ++ [.deposit p]) = 0 := by
  have hall : pre.dropWhile (·.depositor.isNone) = [] := by
    rw [List.dropWhile_eq_nil_iff]
    intro o ho
    exact Option.isNone_iff_eq_none.mpr (firstDepositor_eq_none.mp h o ho)
  unfold withdrawnSince
  rw [List.dropWhile_append, hall]
  simp [StakeOp.depositor, StakeOp.withdrawFrom]

theorem depositedTo_first (h : firstDepositor pre = none) : depositedTo k pre = 0 := by
  unfold depositedTo
  rw [List.sum_eq_zero]
  intro n hn
  obtain ⟨o, ho, rfl⟩ := List.mem_map.mp hn
  have hnone := firstDepositor_eq_none.mp h o ho
  cases o with
  | deposit p => cases hnone
  | _ => rfl

end

/-! ### The two interpreters, operation by operation -/

/-- The registry `r` with other validators and another UTXO set: its configuration stays. -/
def ValidatorRegistry.setState (r : ValidatorRegistry) (m : Validators) (s : Option UTXOSet) :
    ValidatorRegistry :=
  { r with validators := m, utxos := s }

/-- The active output a deposit names. -/
def collateral (s : Option UTXOSet) (k : UTXOKey) : Option UTXO := s.bind (·.get k)

/-- What the live path does for an operation whose payload was checked. -/
def ValidatorRegistry.applyOp (C : Externals) (r : ValidatorRegistry) (height : Nat) :
    StakeOp → Result ValidatorRegistry
  | .deposit p => r.burnAndDeposit C p height
  | .withdraw pub => r.applyWithdraw pub height
  | .partialWithdraw pub amount => r.applyPartialWithdraw C pub amount height
  | .authorized a => r.applyWithdrawalV2 C a height

/-- The checks of an authorised withdrawal that do not look at the entry. -/
structure AuthorizationChecked (C : Externals) (r : ValidatorRegistry) (height : Nat)
    (a : StakeWithdrawalAuthorizationV2) : Prop where
  active : r.withdrawalV2Active height = true
  genesis : a.genesis = r.stakeWithdrawalGenesis
  unexpired : height ≤ a.expiryHeight
  window : a.expiryHeight - height ≤ stakeWithdrawalMaxExpiryBlocks
  signature :
    r.verifyValidatorSignature C a.pubKey height (stakeWithdrawalSignMsgV2 C a) a.signature = true

/-- The checks of an authorised withdrawal against the nonce, generation and stake on record. -/
structure AuthorizationFresh (C : Externals) (a : StakeWithdrawalAuthorizationV2)
    (nonce : Nat) (generation : UInt64) (stake : Nat) : Prop where
  bounded : nonce ≠ maxUint64
  next : a.nonce = nonce + 1
  sameGeneration : a.generation = generation.toNat
  reference : a.stakeRef = stakeReferenceV2 C a.genesis a.pubKey generation stake

/-- What the dry run does for an operation. -/
inductive ShadowStep (C : Externals) (r : ValidatorRegistry) (height : Nat) (sh : Shadow) :
    StakeOp → Shadow → Prop
  | deposit {p : StakeExtraV2} {se : ShadowEntry} {i : Nat} {pos : String}
      {kis : GoMap KeyImage Nat} :
      sh.reserved.get p.burnKey = none → collateral r.utxos p.burnKey ≠ none →
      r.effectiveMin ≤ p.amount → p.amount ≤ maxStakeNAPR →
      Shadow.depositEntry pos p.amount (sh.snapshot.get p.pub) = .ok se →
      ShadowStep C r height sh (.deposit p)
        ⟨sh.snapshot.set p.pub se, sh.reserved.set p.burnKey i, kis⟩
  | withdraw {pub : ValidatorPubKey} {se : ShadowEntry} :
      sh.snapshot.get pub = some se → se.status.closed = false →
      ShadowStep C r height sh (.withdraw pub)
        { sh with snapshot := sh.snapshot.set pub { se with status := .unbonding } }
  | partialWithdraw {pub : ValidatorPubKey} {amount : Nat} {se : ShadowEntry} :
      sh.snapshot.get pub = some se → se.status.closed = false → amount ≠ 0 →
      amount + r.effectiveMin ≤ se.stakeNAPR →
      ShadowStep C r height sh (.partialWithdraw pub amount)
        { sh with snapshot := sh.snapshot.set pub { se with stakeNAPR := se.stakeNAPR - amount } }
  | authorized {a : StakeWithdrawalAuthorizationV2} {se se' : ShadowEntry} {pos : String} :
      AuthorizationChecked C r height a → (a.action = .withdraw ∨ a.action = .partialWithdraw) →
      sh.snapshot.get a.pubKey = some se → se.seeded = false →
      AuthorizationFresh C a se.nonce se.generation se.stakeNAPR →
      Shadow.withdrawV2 pos r.effectiveMin a se = .ok se' →
      ShadowStep C r height sh (.authorized a)
        { sh with snapshot := sh.snapshot.set a.pubKey { se' with nonce := a.nonce } }

section

variable {r r' : ValidatorRegistry} {height i : Nat} {sh sh' : Shadow} {tx : Transaction}

theorem shadowStep_of_deposit {sh1 : Shadow}
    (hres : sh.reserved.get p.burnKey = none) (hcol : collateral r.utxos p.burnKey ≠ none)
    (h : sh.deposit C i r.effectiveMin p = .ok sh1) :
    ShadowStep C r height sh (.deposit p) { sh1 with reservedKeyImages := kis } := by
  simp only [Shadow.deposit, bind_eq_ok, failIf_eq_ok, not_lt, gt_iff_lt, exists_and_left,
    exists_const, Except.ok.injEq] at h
  obtain ⟨hmin, hmax, se, hse, rfl⟩ := h
  exact .deposit hres hcol hmin hmax hse

theorem shadowStep_of_withdrawalV1 {p : StakeExtra}
    (h : r.validateWithdrawalV1 C i p sh = .ok sh') :
    ∃ op, p.stakeOp = some op ∧ ShadowStep C r height sh op sh' := by
  unfold validateWithdrawalV1 at h
  split at h
  · rename_i hact
    have hop : p.stakeOp = some (.withdraw p.pub) := by
      unfold StakeExtra.stakeOp
      rw [hact]
    unfold Shadow.withdraw at h
    split at h
    · cases h
    · rename_i se hse
      simp only [bind_eq_ok, failIf_eq_ok, Bool.not_eq_true, exists_and_left, exists_const,
        Except.ok.injEq] at h
      obtain ⟨hopen, rfl⟩ := h
      exact ⟨_, hop, .withdraw hse hopen⟩
  · rename_i hact
    have hop : p.stakeOp = some (.partialWithdraw p.pub p.amount) := by
      unfold StakeExtra.stakeOp
      rw [hact]
    unfold Shadow.partialWithdraw at h
    split at h
    · cases h
    · rename_i se hse
      simp only [bind_eq_ok, failIf_eq_ok, Bool.not_eq_true, exists_and_left, exists_const,
        Except.ok.injEq, ge_iff_le, not_le, not_lt] at h
      obtain ⟨hopen, hne, hlt, hrem, rfl⟩ := h
      exact ⟨_, hop, .partialWithdraw hse hopen hne (by omega)⟩
  · cases h

theorem validateV1_spec (hl : stakeLayout tx.extra = .v1)
    (h : r.validateV1 C height i tx.extra sh = .ok sh') :
    ∃ op, (stakeFields tx.extra).stakeOp = some op ∧ ShadowStep C r height sh op sh' ∧
      ∀ m s, (r.setState m s).applyV1 C tx.extra height = (r.setState m s).applyOp C height op := by
  simp only [validateV1, decodeStakeExtra_of_layout hl, wrap, ok_bind, bind_eq_ok, failIf_eq_ok,
    Bool.not_eq_true, Bool.not_eq_false, exists_and_left, exists_const] at h
  obtain ⟨hdep, hactive, hsig, h⟩ := h
  obtain ⟨op, hop, hstep⟩ : ∃ op, (stakeFields tx.extra).stakeOp = some op ∧
      ShadowStep C r height sh op sh' := shadowStep_of_withdrawalV1 h
  refine ⟨op, hop, hstep, fun m s => ?_⟩
  have hactive' : (r.setState m s).withdrawalV2Active height = false := hactive
  have hsig' : (r.setState m s).verifyValidatorSignature C (stakeFields tx.extra).pub height
      (stakeSignMsg C (stakeFields tx.extra)) (stakeFields tx.extra).sig = true := hsig
  simp only [applyV1, decodeStakeExtra_of_layout hl, ok_bind, failIf, hdep, hactive', hsig',
    not_true_eq_false, Bool.false_eq_true, if_false]
  unfold StakeExtra.stakeOp at hop
  unfold applyWithdrawalV1
  split at hop
  · rename_i hact
    cases hop
    simp only [hact, applyOp]
  · rename_i hact
    cases hop
    simp only [hact, applyOp]
  · cases hop

theorem decodeStakeWithdrawalExtraV2_action {a : StakeWithdrawalAuthorizationV2}
    (h : decodeStakeWithdrawalExtraV2 extra = .ok a) :
    a.action = .withdraw ∨ a.action = .partialWithdraw := by
  simp only [decodeStakeWithdrawalExtraV2, bind_eq_ok, failIf_eq_ok, exists_and_left, exists_const,
    Except.ok.injEq] at h
  obtain ⟨-, hact, rfl⟩ := h
  by_contra hne
  exact hact (not_or.mp hne)

/-- An authorised withdrawal: the dry run made all checks that do not look at the entry. -/
theorem validateWithdrawalTx_spec (h : r.validateWithdrawalTx C height i tx.extra sh = .ok sh') :
    ∃ a, decodeStakeWithdrawalExtraV2 tx.extra = .ok a ∧
      ShadowStep C r height sh (.authorized a) sh' := by
  simp only [validateWithdrawalTx, bind_eq_ok, wrap_eq_ok, failIf_eq_ok, not_or, not_not,
    Bool.not_eq_false, not_lt, gt_iff_lt, ne_eq, exists_and_left, exists_const] at h
  obtain ⟨a, hdec, ⟨hactive, hgen, hexp, hwin, hsig⟩, h⟩ := h
  refine ⟨a, hdec, ?_⟩
  split at h
  · cases h
  · rename_i se hse
    obtain ⟨hget, hfresh⟩ := Option.filter_eq_some_iff.mp hse
    obtain ⟨se', hw, heq⟩ := unbind h
    cases heq
    simp only [Bool.and_eq_true, Bool.not_eq_true', decide_eq_true_eq] at hfresh
    obtain ⟨⟨⟨⟨hseed, hbound⟩, hnext⟩, hgeneration⟩, href⟩ := hfresh
    exact .authorized ⟨hactive, hgen, hexp, hwin, hsig⟩ (decodeStakeWithdrawalExtraV2_action hdec)
      hget hseed ⟨hbound, hnext, hgeneration, href⟩ hw

theorem collateral_eq_some {s : Option UTXOSet} {k : UTXOKey} :
    collateral s k = some u ↔ ∃ t, s = some t ∧ t.get k = some u := by
  cases s <;> simp [collateral]

/-- A deposit of any layout passes the tests of the live path in the dry run. -/
theorem validateDeposit_spec (hlay : (stakeLayout tx.extra).isDeposit = true)
    (h : r.validateOneTx C inputs height i tx sh = .ok sh') :
    ∃ u, collateral r.utxos (burnFields tx.extra).burnKey = some u ∧
      DepositChecked C r height tx.extra u ∧
      ShadowStep C r height sh (.deposit (burnFields tx.extra)) sh' := by
  unfold validateOneTx at h
  rcases hl : stakeLayout tx.extra with _ | _ | _ | _ | _ | _
  all_goals rw [hl] at h hlay
  all_goals first | exact absurd hlay (by decide) | skip
  · -- v2
    simp only [validateV2, decodeStakeExtraV2_of_layout hl, wrap, ok_bind, bind_eq_ok,
      checkDepositHead_eq_ok, checkCollateral_eq_ok, Shadow.checkReserved, failSome_eq_ok,
      exists_and_left, exists_const] at h
    obtain ⟨⟨hk, ha, hs⟩, hres, u, ⟨hu, hz, hc⟩, hdep⟩ := h
    have hcol := collateral_eq_some.mpr hu
    exact ⟨u, hcol, ⟨ha, hs, hc, .v2 hl hk fun h0 => hz ⟨trivial, h0⟩⟩,
      shadowStep_of_deposit hres (by simp [hcol]) hdep⟩
  · -- v3
    simp only [validateV3, decodeStakeExtraV3_of_layout hl, wrap, ok_bind, bind_eq_ok,
      checkDepositHead_eq_ok, checkCollateral_eq_ok, checkOwnership, Shadow.checkReserved,
      failSome_eq_ok, failIf_eq_ok, not_not, exists_and_left, exists_const] at h
    obtain ⟨⟨hk, ha, hs⟩, hres, u, ⟨hu, -, hc⟩, ho, hdep⟩ := h
    have hcol := collateral_eq_some.mpr hu
    exact ⟨u, hcol, ⟨ha, hs, hc, .v3 hl hk ho⟩, shadowStep_of_deposit hres (by simp [hcol]) hdep⟩
  · -- v4
    simp only [validateV4, bind_eq_ok, wrap_eq_ok, validateStakeDepositV4_eq_ok,
      Shadow.checkReserved, failSome_eq_ok, exists_and_left, exists_const] at h
    obtain ⟨p, hdec, u, ⟨hk, ha, hs, s, hr, hu, hc, hp, -⟩, hres, _, -, -, -, sh1, hdep, heq⟩ := h
    cases heq
    have hp2 := decodeStakeExtraV4_toV2 hdec
    rw [hp2] at ha hs hu hc hres hdep
    have hcol := collateral_eq_some.mpr ⟨s, hr, hu⟩
    exact ⟨u, hcol, ⟨ha, hs, hc, .v4 p hl hk hdec hp⟩,
      shadowStep_of_deposit hres (by simp [hcol]) hdep⟩

theorem DepositChecked.setState (h : DepositChecked C r height extra u)
    (m : Validators) (s : Option UTXOSet) : DepositChecked C (r.setState m s) height extra u := by
  obtain ⟨ha, hsig, hc, hp⟩ := h
  refine ⟨ha, hsig, hc, ?_⟩
  obtain ⟨hl, hk, hz⟩ | ⟨hl, hk, ho⟩ | ⟨p, hl, hk, hdec, hp⟩ := hp
  · exact .v2 hl hk hz
  · exact .v3 hl hk ho
  · exact .v4 p hl hk hdec hp

theorem stakeOp_of_deposit (hst : tx.isStake = true)
    (hlay : (stakeLayout tx.extra).isDeposit = true) :
    tx.stakeOp = some (.deposit (burnFields tx.extra)) := by
  unfold Transaction.stakeOp
  rw [if_pos hst]
  revert hlay
  cases stakeLayout tx.extra <;> simp [StakeLayout.isDeposit]

/-- **One transaction**: the dry run takes a shadow step for its operation, and in every state that
still has the collateral the live path does nothing but the operation. -/
theorem validateOneTx_spec (hst : tx.isStake = true)
    (h : r.validateOneTx C inputs height i tx sh = .ok sh') :
    ∃ op, tx.stakeOp = some op ∧ ShadowStep C r height sh op sh' ∧
      ∀ m s r', (∀ k, op.burn = some k → collateral s k = collateral r.utxos k) →
        ((r.setState m s).applyOneTx C tx height = .ok r' ↔
          (r.setState m s).applyOp C height op = .ok r') := by
  have hv : tx.version = .stake := of_decide_eq_true hst
  by_cases hlay : (stakeLayout tx.extra).isDeposit = true
  · obtain ⟨u, hcol, hchk, hstep⟩ := validateDeposit_spec hlay h
    refine ⟨.deposit (burnFields tx.extra), stakeOp_of_deposit hst hlay, hstep,
      fun m s r' hs => ?_⟩
    rw [applyOneTx_deposit hst hlay]
    have hsame : collateral s (burnFields tx.extra).burnKey = some u := (hs _ rfl).trans hcol
    constructor
    · rintro ⟨-, -, -, hok⟩
      exact hok
    · exact fun hok => ⟨u, collateral_eq_some.mp hsame, hchk.setState m s, hok⟩
  · unfold validateOneTx at h
    unfold Transaction.stakeOp applyOneTx
    simp only [hst, if_true, hv, ne_eq, not_true_eq_false, failIf, if_false, ok_bind]
    rcases hl : stakeLayout tx.extra with _ | _ | _ | _ | _ | _
    all_goals rw [hl] at h hlay
    all_goals first | exact absurd rfl hlay | skip
    · -- v1
      obtain ⟨op, hop, hstep, happ⟩ := validateV1_spec hl h
      exact ⟨op, hop, hstep, fun m s r' _ => by rw [happ]⟩
    · -- authorised withdrawal
      obtain ⟨a, hdec, hstep⟩ := validateWithdrawalTx_spec h
      refine ⟨.authorized a, by rw [hdec], hstep, fun m s r' _ => ?_⟩
      simp only [hdec, ok_bind, applyOp]
    · cases h

end

/-! ### The shadow of one validator -/

/-- The shadow `a` of validator `k` and its entry `b` after the operations `pre` of the block. -/
inductive EntrySim (r : ValidatorRegistry) (pre : List StakeOp) (k : ValidatorPubKey)
    (a : Option ShadowEntry) (b : Option ValidatorEntry) : Prop
  /-- Never seeded: in lockstep. -/
  | real : ¬ r.Seeded k → a = b.map (·.shadow) → (∀ e, b = some e → e.seeded = false) →
      EntrySim r pre k a b
  /-- Seeded, before the first deposit: in lockstep. -/
  | waiting (e : ValidatorEntry) : r.Seeded k → firstDepositor pre = none →
      a = some e.shadow → b = some e → e.seeded = true → EntrySim r pre k a b
  /-- Replaced by the first deposit: the entry has the deposits only, the shadow also the seed. -/
  | replaced (se : ShadowEntry) (e : ValidatorEntry) : r.Seeded k → firstDepositor pre = some k →
      a = some se → b = some e → se.seeded = true → e.seeded = false →
      e.status.closed = se.status.closed → e.stakeGeneration = se.generation →
      e.stakeNAPR ≤ se.stakeNAPR → e.stakeNAPR + withdrawnSince k pre = depositedTo k pre →
      EntrySim r pre k a b
  /-- Made to exit by the first deposit, which was another validator's. -/
  | demoted (first : ValidatorPubKey) (se : ShadowEntry) (e : ValidatorEntry) : r.Seeded k →
      firstDepositor pre = some first → first ≠ k → a = some se → b = some e → se.seeded = true →
      e.seeded = false → e.status = .exited → EntrySim r pre k a b

namespace EntrySim

variable {r : ValidatorRegistry} {pre : List StakeOp} {k : ValidatorPubKey}
  {a : Option ShadowEntry} {b : Option ValidatorEntry} {se : ShadowEntry} {e : ValidatorEntry}

theorem entry (h : EntrySim r pre k (some se) b) : ∃ e, b = some e := by
  rcases h with ⟨_, hab, _⟩ | ⟨e, _, _, _, hb, _⟩ | ⟨_, e, _, _, _, hb, _⟩ |
    ⟨_, _, e, _, _, _, _, hb, _⟩
  · obtain ⟨e, hb, -⟩ := Option.map_eq_some_iff.mp hab.symm
    exact ⟨e, hb⟩
  all_goals exact ⟨e, hb⟩

/-- Where the dry run found the validator open, the entry is open unless it was made to exit. -/
theorem open_iff (h : EntrySim r pre k (some se) (some e)) (hopen : se.status.closed = false) :
    e.status.closed = false ↔ (r.Seeded k → Standing pre k) := by
  rcases h with ⟨hns, hab, _⟩ | ⟨e, _, hfirst, ha, hb, _⟩ |
    ⟨_, e, _, hfirst, ha, hb, _, _, hclosed, _⟩ |
    ⟨first, _, e, hs, hfirst, hne, ha, hb, _, _, hexit⟩
  · cases Option.some.inj hab
    exact ⟨fun _ hs => absurd hs hns, fun _ => hopen⟩
  · cases ha
    cases hb
    refine ⟨fun _ _ first hf => ?_, fun _ => hopen⟩
    rw [hfirst] at hf
    cases hf
  · cases ha
    cases hb
    refine ⟨fun _ _ first hf => ?_, fun _ => hclosed.trans hopen⟩
    rw [hfirst] at hf
    cases hf
    rfl
  · cases hb
    refine ⟨fun h => ?_, fun hst => absurd (hst hs first hfirst) hne⟩
    rw [hexit] at h
    cases h

theorem frame (h : EntrySim r pre k a b) (hd : op.depositor = none)
    (hk : op.pub ≠ k) : EntrySim r (pre ++ [op]) k a b := by
  have hfirst : firstDepositor (pre ++ [op]) = firstDepositor pre := by
    rw [firstDepositor_snoc, hd, Option.or_none]
  rcases h with ⟨hns, hab, hb⟩ | ⟨e, hs, hf, ha, hb, he⟩ |
    ⟨se, e, hs, hf, ha, hb, hse, he, hclosed, hgen, hle, hsum⟩ |
    ⟨first, se, e, hs, hf, hne, ha, hb, hse, he, hexit⟩
  · exact .real hns hab hb
  · exact .waiting e hs (hfirst.trans hf) ha hb he
  · refine .replaced se e hs (hfirst.trans hf) ha hb hse he hclosed hgen hle ?_
    have hw : op.withdrawFrom k = 0 := by
      cases op with
      | partialWithdraw pub amount => exact if_neg hk
      | _ => rfl
    have hdep : op.depositTo k = 0 := by
      cases op with
      | deposit p => cases hd
      | _ => rfl
    rw [withdrawnSince_snoc (by simp [hf]), depositedTo_snoc, hw, hdep]
    exact hsum
  · exact .demoted first se e hs (hfirst.trans hf) hne ha hb hse he hexit

/-- A change that keeps lockstep where there is lockstep, and makes the same step on a replaced
entry and its shadow. -/
theorem update (h : EntrySim r pre k (some se) (some e)) (hopen : e.status.closed = false)
    (hd : op.depositor = none) {e' : ValidatorEntry}
    (hseed : e'.seeded = e.seeded) (hsync : se = e.shadow → se' = e'.shadow)
    (hclosed : e'.status.closed = se'.status.closed) (hseed' : se'.seeded = se.seeded)
    (hgen : e.stakeGeneration = se.generation → e'.stakeGeneration = se'.generation)
    (hle : e.stakeNAPR ≤ se.stakeNAPR → e'.stakeNAPR ≤ se'.stakeNAPR)
    (hsum : e.seeded = false → e'.stakeNAPR + op.withdrawFrom k = e.stakeNAPR) :
    EntrySim r (pre ++ [op]) k (some se') (some e') := by
  have hfirst : firstDepositor (pre ++ [op]) = firstDepositor pre := by
    rw [firstDepositor_snoc, hd, Option.or_none]
  rcases h with ⟨hns, hab, hb⟩ | ⟨e0, hs, hf, ha, hb, he⟩ |
    ⟨se0, e0, hs, hf, ha, hb, hse, he, -, hg, hl, hsum'⟩ |
    ⟨first, se0, e0, hs, hf, hne, ha, hb, hse, he, hexit⟩
  · refine .real hns ?_ fun e1 he1 => ?_
    · exact congrArg some (hsync (Option.some.inj hab))
    · cases he1
      rw [hseed]
      exact hb e rfl
  · cases hb
    exact .waiting e' hs (hfirst.trans hf) (congrArg some (hsync (Option.some.inj ha))) rfl
      (hseed.trans he)
  · cases ha
    cases hb
    refine .replaced se' e' hs (hfirst.trans hf) rfl rfl (hseed'.trans hse) (hseed.trans he) hclosed
      (hgen hg) (hle hl) ?_
    have hdep : op.depositTo k = 0 := by
      cases op with
      | deposit p => cases hd
      | _ => rfl
    rw [withdrawnSince_snoc (by simp [hf]), depositedTo_snoc]
    have := hsum he
    omega
  · cases hb
    rw [hexit] at hopen
    cases hopen

theorem withdraw (h : EntrySim r pre k (some se) (some e)) (hopen : e.status.closed = false)
    (endBlock : Nat) :
    EntrySim r (pre ++ [.withdraw k]) k (some { se with status := .unbonding })
      (some { e with status := .unbonding, unbondEndBlock := endBlock }) :=
  h.update hopen rfl rfl (fun h => by rw [h]; rfl) rfl rfl id id fun _ => rfl

variable {amount : Nat}

theorem partialWithdraw (h : EntrySim r pre k (some se) (some e)) (hopen : e.status.closed = false)
    (hse : se.status.closed = false) (hamount : amount ≤ e.stakeNAPR) (queue : List UnbondingEntry)
    :
    EntrySim r (pre ++ [.partialWithdraw k amount]) k
      (some { se with stakeNAPR := se.stakeNAPR - amount })
      (some { e with stakeNAPR := e.stakeNAPR - amount, unbondingQueue := queue }) := by
  refine h.update hopen rfl rfl (fun h => by rw [h]; rfl) (hopen.trans hse.symm) rfl id ?_ ?_
  · exact fun hle => Nat.sub_le_sub_right hle amount
  · intro _
    simp only [StakeOp.withdrawFrom, if_true]
    omega

theorem of_not_seeded (h : EntrySim r pre k (some se) b) (hse : se.seeded = false) :
    ¬ r.Seeded k ∧ ∃ e, b = some e ∧ e.shadow = se ∧ e.seeded = false := by
  rcases h with ⟨hns, hab, hb⟩ | ⟨e, _, _, ha, _, he⟩ | ⟨se0, _, _, _, ha, _, hse0, _⟩ |
    ⟨_, se0, _, _, _, _, ha, _, hse0, _⟩
  · obtain ⟨e, rfl, hsh⟩ := Option.map_eq_some_iff.mp hab.symm
    exact ⟨hns, e, rfl, hsh, hb e rfl⟩
  · cases ha
    exact absurd (he.symm.trans hse) (by decide)
  all_goals cases ha; exact absurd (hse0.symm.trans hse) (by decide)

/-- Another validator's deposit: a seeded entry that waits exits now. -/
theorem frame_deposit (h : EntrySim r pre k a b) (hk : p.pub ≠ k) :
    EntrySim r (pre ++ [.deposit p]) k a
      (b.map fun e => if e.seeded then { e with status := .exited, seeded := false } else e) := by
  have hfirst : firstDepositor (pre ++ [.deposit p]) = (firstDepositor pre).or (some p.pub) :=
    firstDepositor_snoc pre _
  rcases h with ⟨hns, hab, hb⟩ | ⟨e, hs, hf, ha, hb, he⟩ |
    ⟨se, e, hs, hf, ha, hb, hse, he, hclosed, hgen, hle, hsum⟩ |
    ⟨first, se, e, hs, hf, hne, ha, hb, hse, he, hexit⟩
  · have hsame : (b.map fun e => if e.seeded then { e with status := .exited, seeded := false }
        else e) = b := by
      cases b with
      | none => rfl
      | some e => simp [hb e rfl]
    rw [hsame]
    exact .real hns hab hb
  · rw [hb, Option.map_some, if_pos he]
    refine .demoted p.pub e.shadow _ hs ?_ hk ha rfl he rfl rfl
    rw [hfirst, hf, Option.none_or]
  · rw [hb, Option.map_some, he, if_neg (by decide)]
    refine .replaced se e hs ?_ ha rfl hse he hclosed hgen hle ?_
    · rw [hfirst, hf, Option.some_or]
    · have hdep : (StakeOp.deposit p).depositTo k = 0 := if_neg hk
      rw [withdrawnSince_snoc (by simp [hf]), depositedTo_snoc, hdep]
      exact hsum
  · rw [hb, Option.map_some, he, if_neg (by decide)]
    refine .demoted first se e hs ?_ hne ha rfl hse he hexit
    rw [hfirst, hf, Option.some_or]

theorem shadow_depositEntry_eq_ok :
    Shadow.depositEntry pos amount (some se) = .ok se' ↔ se.status.closed = false ∧
      se.stakeNAPR ≤ maxUint64 - amount ∧ se.generation.toNat ≠ maxUint64 ∧
      { se with stakeNAPR := se.stakeNAPR + amount, generation := se.generation + 1 } = se' := by
  simp only [Shadow.depositEntry, bind_eq_ok, failIf_eq_ok, Bool.not_eq_true, not_lt, gt_iff_lt,
    exists_and_left, exists_const, Except.ok.injEq, ne_eq]

theorem generation_succ_ne_zero {g : UInt64} (h : g.toNat ≠ maxUint64) : g + 1 ≠ 0 := by
  intro h0
  have hlt := g.toNat_lt
  have hsum := congrArg UInt64.toNat h0
  rw [UInt64.toNat_add] at hsum
  have hone : (1 : UInt64).toNat = 1 := rfl
  have hzero : (0 : UInt64).toNat = 0 := rfl
  unfold maxUint64 at h
  omega

theorem depositEntry_real {height : Nat} (hopen : e.status.closed = false)
    (hseed : e.seeded = false) :
    depositEntry C k amount height (some e) = topUp C e amount := by
  simp [depositEntry, hopen, hseed]

/-- A deposit the dry run accepted goes through unless the entry was made to exit. -/
theorem deposit (h : EntrySim r pre k a b) (hk : p.pub = k)
    (hse : Shadow.depositEntry pos p.amount a = .ok se) (height : Nat) :
    ((r.Seeded k → Standing pre k) →
      ∃ e, depositEntry C k p.amount height b = .ok e ∧ e.seeded = false ∧
        EntrySim r (pre ++ [.deposit p]) k (some se) (some e)) ∧
    (¬ (r.Seeded k → Standing pre k) → ∀ e, depositEntry C k p.amount height b ≠ .ok e) := by
  have hfirst : firstDepositor (pre ++ [.deposit p]) = (firstDepositor pre).or (some p.pub) :=
    firstDepositor_snoc pre _
  have hdep : (StakeOp.deposit p).depositTo k = p.amount := if_pos hk
  rcases h with ⟨hns, hab, hb⟩ | ⟨e, hs, hf, ha, hb, he⟩ |
    ⟨se0, e, hs, hf, ha, hb, hseed, he, hclosed, hgen, hle, hsum⟩ |
    ⟨first, se0, e, hs, hf, hne, ha, hb, hseed, he, hexit⟩
  · -- never seeded: a new entry, or a top-up on both sides
    refine ⟨fun _ => ?_, absurd (fun hs => absurd hs hns)⟩
    cases b with
    | none =>
      cases hab
      cases hse
      exact ⟨_, rfl, rfl, .real hns rfl fun e he => by cases he; rfl⟩
    | some e =>
      cases hab
      obtain ⟨hopen, hover, hexh, rfl⟩ := shadow_depositEntry_eq_ok.mp hse
      refine ⟨{ e with
        stakeNAPR := e.stakeNAPR + p.amount, stakeGeneration := e.stakeGeneration + 1 },
        ?_, ?_, .real hns rfl fun e he => ?_⟩
      · rw [depositEntry_real hopen (hb e rfl)]
        exact topUp_eq_ok.mpr ⟨hover, hexh, rfl⟩
      · exact hb e rfl
      · cases he
        exact hb e rfl
  · -- the first deposit of the block replaces the seeded entry
    subst ha hb
    obtain ⟨hopen, hover, hexh, rfl⟩ := shadow_depositEntry_eq_ok.mp hse
    have hopen' : e.status.closed = false := hopen
    refine ⟨fun _ => ⟨replaceSeeded e p.amount height, ?_, rfl, ?_⟩, absurd (fun _ first hf' => ?_)⟩
    · simp only [depositEntry, hopen', he, Bool.false_eq_true, if_false, if_true]
    · refine .replaced _ _ hs ?_ rfl rfl he rfl ?_ ?_ ?_ ?_
      · rw [hfirst, hf, Option.none_or, hk]
      · exact hopen.symm
      · exact if_neg (generation_succ_ne_zero hexh)
      · exact Nat.le_add_left _ _
      · rw [withdrawnSince_first hf, depositedTo_snoc, depositedTo_first hf, hdep]
        exact (Nat.zero_add _).symm
    · rw [hf] at hf'
      cases hf'
  · -- already replaced: a top-up on both sides
    subst ha hb
    obtain ⟨hopen, hover, hexh, rfl⟩ := shadow_depositEntry_eq_ok.mp hse
    refine ⟨fun _ => ⟨{ e with
      stakeNAPR := e.stakeNAPR + p.amount, stakeGeneration := e.stakeGeneration + 1 },
      ?_, ?_, ?_⟩, absurd (fun _ first hf' => ?_)⟩
    · rw [depositEntry_real (hclosed.trans hopen) he]
      exact topUp_eq_ok.mpr ⟨hle.trans hover, by rw [hgen]; exact hexh, rfl⟩
    · exact he
    · refine .replaced _ _ hs ?_ rfl rfl hseed he hclosed ?_ ?_ ?_
      · rw [hfirst, hf, Option.some_or]
      · exact congrArg (· + 1) hgen
      · exact Nat.add_le_add_right hle _
      · have hw : (StakeOp.deposit p).withdrawFrom k = 0 := rfl
        rw [withdrawnSince_snoc (by simp [hf]), depositedTo_snoc]
        show e.stakeNAPR + p.amount + (withdrawnSince k pre + 0) = _
        omega
    · rw [hf] at hf'
      exact (Option.some.inj hf').symm
  · -- made to exit
    refine ⟨fun hst => absurd (hst hs first hf) hne, fun _ e' he' => ?_⟩
    rw [hb] at he'
    simp [depositEntry, hexit, ValidatorStatus.closed] at he'

/-- The stake on the shadow covers a withdrawal; the stake of a replaced entry has to as well. -/
theorem covers_iff (h : EntrySim r pre k (some se) (some e)) (hopen : e.status.closed = false)
    {need : Nat} (hneed : need ≤ se.stakeNAPR) :
    need ≤ e.stakeNAPR ↔ (r.Seeded k → firstDepositor pre = some k →
      need + withdrawnSince k pre ≤ depositedTo k pre) := by
  rcases h with ⟨hns, hab, _⟩ | ⟨e0, _, hf, ha, hb, _⟩ |
    ⟨se0, e0, hs, hf, ha, hb, _, _, _, _, _, hsum⟩ |
    ⟨_, _, e0, _, _, _, _, hb, _, _, hexit⟩
  · cases hab
    exact ⟨fun _ hs => absurd hs hns, fun _ => hneed⟩
  · cases ha
    cases hb
    refine ⟨fun _ _ hf' => ?_, fun _ => hneed⟩
    rw [hf] at hf'
    cases hf'
  · cases hb
    constructor
    · intro hle _ _
      omega
    · intro hcov
      have := hcov hs hf
      omega
  · cases hb
    rw [hexit] at hopen
    cases hopen

end EntrySim

/-! ### The whole state -/

/-- The shadow `sh` and the registry `r1` after the operations `pre`, from the registry `r`. -/
structure Lockstep (r : ValidatorRegistry) (pre : List StakeOp) (sh : Shadow)
    (r1 : ValidatorRegistry) : Prop where
  config : r1 = r.setState r1.validators r1.utxos
  entries : ∀ k, EntrySim r pre k (sh.snapshot.get k) (r1.validators.get k)
  collateral : ∀ k, sh.reserved.get k = none → collateral r1.utxos k = collateral r.utxos k
  unstaked : ∀ k, sh.reserved.get k = none → (Unstaked r1.utxos k ↔ Unstaked r.utxos k)

namespace Lockstep

variable {r r1 r2 : ValidatorRegistry} {pre : List StakeOp} {sh sh' : Shadow} {height : Nat}

theorem effectiveMin_eq (h : Lockstep r pre sh r1) : r1.effectiveMin = r.effectiveMin := by
  rw [h.config]
  rfl

variable {se : ShadowEntry} {e : ValidatorEntry} {a : StakeWithdrawalAuthorizationV2}

/-- An operation that changes one entry and burns nothing. -/
theorem set (h : Lockstep r pre sh r1) (hd : op.depositor = none) {m : Validators}
    (hself : m.get op.pub = some e) (hother : ∀ k, k ≠ op.pub → m.get k = r1.validators.get k)
    (hsim : EntrySim r (pre ++ [op]) op.pub (some se) (some e)) :
    Lockstep r (pre ++ [op]) { sh with snapshot := sh.snapshot.set op.pub se }
      { r1 with validators := m } := by
  refine ⟨?_, fun k => ?_, h.collateral, h.unstaked⟩
  · conv_lhs => rw [h.config]
    rfl
  · by_cases hk : k = op.pub
    · subst hk
      rw [get_set_self]
      rw [hself]
      exact hsim
    · rw [get_set_ne hk]
      rw [hother k hk]
      exact (h.entries k).frame hd (Ne.symm hk)

theorem withdraw_step {pub : ValidatorPubKey} (h : Lockstep r pre sh r1)
    (hget : sh.snapshot.get pub = some se) (hopen : se.status.closed = false) :
    ((∃ r2, r1.applyWithdraw pub height = .ok r2) ↔ StakeOp.Safe r pre (.withdraw pub)) ∧
      ∀ r2, r1.applyWithdraw pub height = .ok r2 →
        Lockstep r (pre ++ [.withdraw pub])
          { sh with snapshot := sh.snapshot.set pub { se with status := .unbonding } } r2 := by
  have hsim := h.entries pub
  rw [hget] at hsim
  obtain ⟨e, he⟩ := hsim.entry
  rw [he] at hsim
  have hiff := hsim.open_iff hopen
  constructor
  · simp only [applyWithdraw_eq_ok, he, Option.some.injEq, exists_eq_left']
    constructor
    · rintro ⟨_, hcl, -⟩
      exact hiff.mp hcl
    · intro hsafe
      exact ⟨_, hiff.mpr hsafe, rfl⟩
  · intro r2 hr2
    obtain ⟨e', he', hcl, rfl⟩ := applyWithdraw_eq_ok.mp hr2
    rw [he] at he'
    cases he'
    exact h.set rfl (get_set_self _ _ _)
      (fun k hk => get_set_ne hk) (hsim.withdraw hcl _)

theorem partialWithdraw_step {pub : ValidatorPubKey} {amount : Nat} (h : Lockstep r pre sh r1)
    (hget : sh.snapshot.get pub = some se) (hopen : se.status.closed = false) (hne : amount ≠ 0)
    (hcover : amount + r.effectiveMin ≤ se.stakeNAPR) :
    ((∃ r2, r1.applyPartialWithdraw C pub amount height = .ok r2) ↔
      StakeOp.Safe r pre (.partialWithdraw pub amount)) ∧
      ∀ r2, r1.applyPartialWithdraw C pub amount height = .ok r2 →
        Lockstep r (pre ++ [.partialWithdraw pub amount])
          { sh with snapshot := sh.snapshot.set pub { se with stakeNAPR := se.stakeNAPR - amount } }
          r2 := by
  have hsim := h.entries pub
  rw [hget] at hsim
  obtain ⟨e, he⟩ := hsim.entry
  rw [he] at hsim
  have hiff := hsim.open_iff hopen
  constructor
  · simp only [applyPartialWithdraw_eq_ok, he, Option.some.injEq, exists_eq_left',
      h.effectiveMin_eq]
    constructor
    · rintro ⟨_, hcl, -, hle, -⟩
      intro hs
      exact ⟨hiff.mp hcl hs, (hsim.covers_iff hcl hcover).mp hle hs⟩
    · intro hsafe
      have hcl := hiff.mpr fun hs => (hsafe hs).1
      exact ⟨_, hcl, hne, (hsim.covers_iff hcl hcover).mpr fun hs => (hsafe hs).2, rfl⟩
  · intro r2 hr2
    obtain ⟨e', he', hcl, -, hle, rfl⟩ := applyPartialWithdraw_eq_ok.mp hr2
    rw [he] at he'
    cases he'
    exact h.set rfl (get_set_self _ _ _) (fun k hk => get_set_ne hk)
      (hsim.partialWithdraw hcl hopen (by omega) _)

theorem applyWithdrawalV2_ok (hchk : AuthorizationChecked C r height a)
    (hget : r.validators.get a.pubKey = some e) (hseed : e.seeded = false)
    (hfresh : AuthorizationFresh C a e.stakeAuthNonce e.stakeGeneration e.stakeNAPR) :
    r.applyWithdrawalV2 C a height =
      (r.withdrawV2 C a height >>= fun r' => .ok (r'.setNonce a.pubKey a.nonce)) := by
  have hfilter : (r.validators.get a.pubKey).filter (!·.seeded) = some e := by
    rw [hget]
    simp [Option.filter, hseed]
  obtain ⟨hactive, hgen, hexp, hwin, hsig⟩ := hchk
  obtain ⟨hbound, hnext, hgeneration, href⟩ := hfresh
  have hval : r.validateWithdrawalV2 C a height = .ok e := by
    unfold validateWithdrawalV2
    rw [hfilter]
    simp only [bind_eq_ok, failIf_eq_ok, not_or, not_not, ne_eq, exists_and_left, exists_const]
    refine ⟨?_, hgen, not_lt.mpr hexp, not_lt.mpr hwin, ⟨hbound, hnext, hgeneration⟩, href, hsig,
      trivial⟩
    rw [hactive]
    decide
  unfold applyWithdrawalV2
  rw [hval]
  rfl

theorem withdrawV2_ok (C : Externals) (height : Nat)
    (hget : r.validators.get a.pubKey = some e)
    (hact : a.action = .withdraw ∨ a.action = .partialWithdraw)
    (hw : Shadow.withdrawV2 pos r.effectiveMin a e.shadow = .ok se') :
    ∃ e', r.withdrawV2 C a height = .ok { r with validators := r.validators.set a.pubKey e' } ∧
      e'.shadow = se' ∧ e'.seeded = e.seeded := by
  unfold Shadow.withdrawV2 at hw
  unfold withdrawV2
  rcases hact with hact | hact
  · simp only [hact, bind_eq_ok, failIf_eq_ok, not_or, not_not, ne_eq, Bool.not_eq_true,
      exists_and_left, exists_const, Except.ok.injEq] at hw
    obtain ⟨⟨hzero, hopen⟩, rfl⟩ := hw
    simp only [hact, hzero, ne_eq, not_true_eq_false, failIf, if_false, ok_bind]
    exact ⟨_, applyWithdraw_eq_ok.mpr ⟨e, hget, hopen, rfl⟩, rfl, rfl⟩
  · simp only [hact, bind_eq_ok, failIf_eq_ok, not_or, ge_iff_le, not_le, not_lt,
      Bool.not_eq_true, exists_and_left, exists_const, Except.ok.injEq] at hw
    obtain ⟨⟨hne, hlt, hopen⟩, hrem, rfl⟩ := hw
    simp only [hact]
    have hle : a.amount + r.effectiveMin ≤ e.stakeNAPR := by
      have : a.amount < e.stakeNAPR := hlt
      have : r.effectiveMin ≤ e.stakeNAPR - a.amount := hrem
      omega
    exact ⟨_, applyPartialWithdraw_eq_ok.mpr ⟨e, hget, hopen, hne, hle, rfl⟩, rfl, rfl⟩

theorem authorized_step (h : Lockstep r pre sh r1)
    (hchk : AuthorizationChecked C r height a)
    (hact : a.action = .withdraw ∨ a.action = .partialWithdraw)
    (hget : sh.snapshot.get a.pubKey = some se) (hseed : se.seeded = false)
    (hfresh : AuthorizationFresh C a se.nonce se.generation se.stakeNAPR)
    (hw : Shadow.withdrawV2 pos r.effectiveMin a se = .ok se') :
    ((∃ r2, r1.applyWithdrawalV2 C a height = .ok r2) ↔ StakeOp.Safe r pre (.authorized a)) ∧
      ∀ r2, r1.applyWithdrawalV2 C a height = .ok r2 →
        Lockstep r (pre ++ [.authorized a])
          { sh with snapshot := sh.snapshot.set a.pubKey { se' with nonce := a.nonce } } r2 := by
  have hsim := h.entries a.pubKey
  rw [hget] at hsim
  obtain ⟨hns, e, he, rfl, hes⟩ := hsim.of_not_seeded hseed
  have hchk1 : AuthorizationChecked C r1 height a := by
    rw [h.config]
    exact { hchk with }
  rw [← h.effectiveMin_eq] at hw
  obtain ⟨e', hok, rfl, hes'⟩ := withdrawV2_ok C height he hact hw
  have happ : r1.applyWithdrawalV2 C a height =
      .ok { r1 with
        validators := (r1.validators.set a.pubKey e').set a.pubKey
          { e' with stakeAuthNonce := a.nonce } } := by
    rw [applyWithdrawalV2_ok hchk1 he hes hfresh, hok, ok_bind]
    simp only [setNonce, get_set_self]
  rw [happ]
  refine ⟨⟨fun _ => trivial, fun _ => ⟨_, rfl⟩⟩, fun r2 hr2 => ?_⟩
  cases hr2
  refine h.set rfl (get_set_self _ _ _) (fun k hk => ?_) ?_
  · have hk' : k ≠ a.pubKey := hk
    rw [get_set_ne hk', get_set_ne hk']
  · refine .real hns rfl fun e1 he1 => ?_
    cases he1
    exact hes'.trans hes

theorem deposit_step {i : Nat}
    (h : Lockstep r pre sh r1) (hres : sh.reserved.get p.burnKey = none)
    (hcol : Aperod.collateral r.utxos p.burnKey ≠ none) (hmin : r.effectiveMin ≤ p.amount)
    (hmax : p.amount ≤ maxStakeNAPR)
    (hse : Shadow.depositEntry pos p.amount (sh.snapshot.get p.pub) = .ok se) :
    ((∃ r2, r1.burnAndDeposit C p height = .ok r2) ↔ StakeOp.Safe r pre (.deposit p)) ∧
      ∀ r2, r1.burnAndDeposit C p height = .ok r2 →
        Lockstep r (pre ++ [.deposit p])
          ⟨sh.snapshot.set p.pub se, sh.reserved.set p.burnKey i, kis⟩ r2 := by
  obtain ⟨hgo, hstop⟩ := (h.entries p.pub).deposit rfl hse height
  rw [← h.collateral _ hres] at hcol
  obtain ⟨u, hu⟩ := Option.ne_none_iff_exists'.mp hcol
  obtain ⟨s, hs, hsu⟩ := collateral_eq_some.mp hu
  have hunst : Unstaked r.utxos p.burnKey ↔ s.isStaked p.burnKey = false := by
    rw [← h.unstaked _ hres, hs]
    simp [Unstaked]
  constructor
  · simp only [burnAndDeposit_eq_ok, applyDeposit_eq_ok, UTXOSet.markStaked_eq_ok]
    constructor
    · rintro ⟨r2, s1, s', hs1, ⟨hfree, -⟩, -, e, he, -⟩
      rw [hs] at hs1
      cases hs1
      refine ⟨hunst.mpr hfree, ?_⟩
      by_contra hnot
      exact hstop hnot e he
    · rintro ⟨hfree, hst⟩
      obtain ⟨e, he, -, -⟩ := hgo hst
      refine ⟨_, s, _, hs, ⟨hunst.mp hfree, u, hsu, rfl⟩, ⟨?_, hmax⟩, e, he, rfl⟩
      show r1.effectiveMin ≤ p.amount
      rw [h.effectiveMin_eq]
      exact hmin
  · intro r2 hr2
    obtain ⟨s1, s', hs1, hmark, hdep⟩ := burnAndDeposit_eq_ok.mp hr2
    rw [hs] at hs1
    cases hs1
    obtain ⟨hfree, u', hu', rfl⟩ := UTXOSet.markStaked_eq_ok.mp hmark
    obtain ⟨-, e, he, rfl⟩ := applyDeposit_eq_ok.mp hdep
    have hst : r.Seeded p.pub → Standing pre p.pub := by
      by_contra hnot
      exact hstop hnot e he
    obtain ⟨e', he', hes, hsim⟩ := hgo hst
    cases he.symm.trans he'
    refine ⟨?_, fun k => ?_, fun k hk => ?_, fun k hk => ?_⟩
    · conv_lhs => rw [h.config]
      rfl
    · show EntrySim r (pre ++ [.deposit p]) k ((sh.snapshot.set p.pub se).get k)
        ((demoteSeeded (r1.validators.set p.pub e)).get k)
      unfold demoteSeeded
      rw [get_map]
      by_cases hk : k = p.pub
      · subst hk
        rw [get_set_self, get_set_self, Option.map_some, hes]
        exact hsim
      · rw [get_set_ne hk, get_set_ne hk]
        exact (h.entries k).frame_deposit (Ne.symm hk)
    · have hne : k ≠ p.burnKey := by
        rintro rfl
        simp [get_set_self] at hk
      rw [get_set_ne hne] at hk
      rw [← h.collateral k hk, hs]
      exact get_del_ne hne
    · have hne : k ≠ p.burnKey := by
        rintro rfl
        simp [get_set_self] at hk
      rw [get_set_ne hne] at hk
      rw [← h.unstaked k hk, hs]
      simp [Unstaked, UTXOSet.isStaked, has, get_set_ne hne]

/-- **One operation**: after a step of the dry run the live path succeeds exactly if the operation is
safe, and stays in lockstep. -/
theorem step (h : Lockstep r pre sh r1) (hstep : ShadowStep C r height sh op sh') :
    ((∃ r2, r1.applyOp C height op = .ok r2) ↔ op.Safe r pre) ∧
      ∀ r2, r1.applyOp C height op = .ok r2 → Lockstep r (pre ++ [op]) sh' r2 := by
  cases hstep with
  | deposit hres hcol hmin hmax hse => exact h.deposit_step hres hcol hmin hmax hse
  | withdraw hget hopen => exact h.withdraw_step hget hopen
  | partialWithdraw hget hopen hne hcover => exact h.partialWithdraw_step hget hopen hne hcover
  | authorized hchk hact hget hseed hfresh hw =>
    exact h.authorized_step hchk hact hget hseed hfresh hw

theorem init (r : ValidatorRegistry) : Lockstep r [] r.shadow r := by
  refine ⟨rfl, fun k => ?_, fun _ _ => rfl, fun _ _ => Iff.rfl⟩
  show EntrySim r [] k ((r.validators.map (·.shadow)).get k) (r.validators.get k)
  rw [get_map]
  by_cases hs : r.Seeded k
  · obtain ⟨e, he, hseed⟩ := hs
    rw [he]
    exact .waiting e ⟨e, he, hseed⟩ rfl rfl rfl hseed
  · refine .real hs rfl fun e he => ?_
    by_contra hseed
    exact hs ⟨e, he, by simpa using hseed⟩

end Lockstep

/-! ### The block -/

/-- Every operation of the block is one the seeded entries and the burned outputs allow. -/
def StakeOpsSafe (r : ValidatorRegistry) (txs : List Transaction) : Prop :=
  ∀ pre tx post op, txs = pre ++ tx :: post → tx.stakeOp = some op → op.Safe r (stakeOps pre)

/-- After a successful dry run, the application of the block's stake transactions succeeds exactly
if the block is safe for the seeded entries of the registry before it. -/
theorem applyBlockStakeTxs_ok_iff (r : ValidatorRegistry) (txs : List Transaction) (height : Nat)
    (h : r.validateBlockStakeTxs C txs height = .ok ()) :
    (∃ r', r.applyBlockStakeTxs C txs height = .ok r') ↔ StakeOpsSafe r txs := by
  obtain ⟨sh, hloop, -⟩ := unbind h
  have hiff := loop_lockstep (g := fun _ tx r => if tx.isStake then applyOneTx C r tx height
      else .ok r) (j := 0) (fun pre sh r1 => Lockstep r (stakeOps pre) sh r1)
    (fun pre tx => ∀ op, tx.stakeOp = some op → op.Safe r (stakeOps pre)) ?_ hloop
    (Lockstep.init r)
  · rw [applyBlockStakeTxs, hiff]
    constructor
    · intro hall pre tx post op heq
      exact hall pre tx post heq op
    · intro hall pre tx post heq op
      exact hall pre tx post op heq
  · intro pre i j tx sh sh' r1 hsim hf
    by_cases hst : tx.isStake = true
    · rw [if_pos hst] at hf
      obtain ⟨op, hop, hstep, happ⟩ := validateOneTx_spec hst hf
      obtain ⟨hsafe, hkeep⟩ := hsim.step hstep
      have hsame : ∀ r2, r1.applyOneTx C tx height = .ok r2 ↔
          r1.applyOp C height op = .ok r2 := by
        intro r2
        rw [hsim.config]
        refine happ _ _ r2 fun k hk => ?_
        cases hstep with
        | deposit hres =>
          cases hk
          exact hsim.collateral _ hres
        | _ => cases hk
      have hops : stakeOps (pre ++ [tx]) = stakeOps pre ++ [op] := by
        simp [stakeOps, hop]
      simp only [hst, if_true, hsame, hsafe, hop, Option.some.injEq, forall_eq', hops]
      exact ⟨trivial, hkeep⟩
    · have hnone : tx.stakeOp = none := if_neg hst
      have hops : stakeOps (pre ++ [tx]) = stakeOps pre := by
        simp [stakeOps, hnone]
      simp only [hst, Bool.false_eq_true, if_false, Except.ok.injEq, exists_eq', hnone, reduceCtorEq,
        false_imp_iff, implies_true, hops, true_and] at hf ⊢
      rintro r2 rfl
      rw [← hf]
      exact hsim

/-! ### A seeded validator that withdraws after a deposit -/

/-- A registry that was seeded with the producers 1 and 2, with the collateral in its UTXO set. -/
def seededRegistry : ValidatorRegistry :=
  ({ utxos := some { utxos := (∅ : GoMap UTXOKey UTXO).set ⟨1, 0⟩ sampleCollateral } } :
    ValidatorRegistry).seedFromObservedProducers [sampleValidator 1, sampleValidator 2]

set_option maxRecDepth 4000

/-- The withdrawal of a seeded validator before the deposit is safe. -/
theorem applyBlockStakeTxs_ok_withdrawal_first :
    seededRegistry.validateBlockStakeTxs transparent [sampleWithdrawal 1, sampleDeposit 3] 1 =
        .ok () ∧
      ((∃ r', seededRegistry.applyBlockStakeTxs transparent
          [sampleWithdrawal 1, sampleDeposit 3] 1 = .ok r') ↔
        StakeOpsSafe seededRegistry [sampleWithdrawal 1, sampleDeposit 3]) :=
  ⟨rfl, applyBlockStakeTxs_ok_iff seededRegistry [sampleWithdrawal 1, sampleDeposit 3] 1 rfl⟩

/-- A block with a deposit of validator 3 and then a withdrawal of the seeded validator 1: the dry
run accepts it, the application fails. -/
theorem seeded_withdrawal_not_predicted :
    ∃ (r : ValidatorRegistry) (txs : List Transaction) (height : Nat), r.Reachable transparent ∧
      r.validateBlockStakeTxs transparent txs height = .ok () ∧
      ¬ ∃ r', r.applyBlockStakeTxs transparent txs height = .ok r' := by
  refine ⟨seededRegistry, [sampleDeposit 3, sampleWithdrawal 1], 1,
    .seedFromObservedProducers _ (.setUTXOSet _ .new), rfl, ?_⟩
  rintro ⟨r', hr'⟩
  have hbad : (seededRegistry.applyBlockStakeTxs transparent
    [sampleDeposit 3, sampleWithdrawal 1] 1).isOk = false := rfl
  rw [hr'] at hbad
  cases hbad

end Aperod
