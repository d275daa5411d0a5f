import Aperod.Core.Registry

/-!
# Stake transactions

The three interpreters `staking.go` has for the stake transactions of a block:

* `applyBlockStakeTxs`: the live path, which changes the registry and burns the collateral;
* `validateBlockStakeTxs`: the dry run on a shadow copy of the validators, made before the block is
  applied;
* `replayBlockStakeTxs`: the startup path, which trusts that collateral was checked when the block
  was accepted.

All three switch on the length of the payload (`StakeLayout`).  Their checks of a deposit are the
same up to the wording, which is a record (`DepositTexts`).
-/

namespace Aperod

open Go

variable (C : Externals)

/-! ### Signed messages -/

def stakeSignMsg (p : StakeExtra) : Hash32 :=
  C.hashBytes (ascii "aperod/stake/v1" ++ [p.action.toByte] ++ p.pub ++ beBytes 8 p.amount)

def stakeSignMsgV2 (p : StakeExtraV2) : Hash32 :=
  C.hashBytes (ascii "aperod/stake/v2" ++ [p.action.toByte] ++ p.pub ++ beBytes 8 p.amount ++
    p.burnTxHash.bytes ++ beBytes 4 p.burnOutIdx.toNat)

def stakeOwnershipSignMsg (burnTxHash : Hash32) (burnOutIdx : UInt32) : Hash32 :=
  C.hashBytes (ascii "aperod/stake/ownership/v1" ++ burnTxHash.bytes ++
    beBytes 4 burnOutIdx.toNat)

def stakeKeyImageProofContext (p : StakeExtraV2) : Bytes :=
  [p.action.toByte] ++ p.pub ++ beBytes 8 p.amount ++ p.burnTxHash.bytes ++
    beBytes 4 p.burnOutIdx.toNat ++ p.burnBlind.bytes

def stakeReferenceV2 (genesis : Hash32) (pub : ValidatorPubKey) (generation : UInt64)
    (stake : Nat) : Hash32 :=
  C.hashBytes (ascii "aperod/stake-withdrawal/reference/v2" ++ genesis.bytes ++ pub ++
    beBytes 8 generation.toNat ++ beBytes 8 stake)

def stakeWithdrawalSignMsgV2 (a : StakeWithdrawalAuthorizationV2) : Hash32 :=
  C.hashBytes (ascii "aperod/stake-withdrawal/authorization/v2" ++ [a.action.toByte] ++ a.pubKey ++
    beBytes 8 a.amount ++ a.genesis.bytes ++ beBytes 8 a.nonce ++ beBytes 8 a.generation ++
    beBytes 8 a.expiryHeight ++ a.stakeRef.bytes)

/-! ### Checks of a deposit -/

/-- The outpoint a deposit burns. -/
def StakeExtraV2.burnKey (p : StakeExtraV2) : UTXOKey := ⟨p.burnTxHash, p.burnOutIdx⟩

/-- `%x:%d` of the outpoint. -/
def StakeExtraV2.burnText (p : StakeExtraV2) : String := s!"{hex8 p.burnTxHash}:{p.burnOutIdx}"

/-- The wording of the checks of a v2 or v3 deposit on one path. -/
structure DepositTexts where
  disabled : String
  wrongAction : Nat → String
  badSignature : String → String
  unwired : String := ""
  notFound : String → String := fun _ => ""
  needsOwnership : String := ""
  commitFailed : String := ""
  mismatch : String → String := fun _ => ""
  notOwned : String := ""

/-- The payload layouts, told apart by length. -/
inductive StakeLayout
  | v1
  | withdrawalV2
  | v2
  | v3
  | v4
  | invalid
  deriving DecidableEq

/-- `switch len(tx.Extra)`. -/
def stakeLayout (extra : Bytes) : StakeLayout :=
  if extra.length = stakePayloadSize then .v1
  else if extra.length = stakeWithdrawalPayloadSizeV2 then .withdrawalV2
  else if extra.length = stakePayloadSizeV2 then .v2
  else if extra.length = stakePayloadSizeV3 then .v3
  else if extra.length = stakePayloadSizeV4 then .v4
  else .invalid

namespace ValidatorRegistry

variable (r : ValidatorRegistry)

/-- The key-image rule is in force. -/
def keyImageActive (height : Nat) : Bool :=
  r.stakeKeyImageActivation ≠ 0 && height ≥ r.stakeKeyImageActivation

/-- The authorised-withdrawal rule is in force. -/
def withdrawalV2Active (height : Nat) : Bool :=
  r.stakeWithdrawalActivation ≠ 0 && height ≥ r.stakeWithdrawalActivation

/-- The checks of a v2 or v3 deposit that do not look at the collateral. -/
def checkDepositHead (t : DepositTexts) (height : Nat) (p : StakeExtraV2) : Result Unit := do
  failIf (r.keyImageActive height) t.disabled
  failIf (p.action ≠ .deposit) (t.wrongAction p.action.toByte.toNat)
  failIf (¬ r.verifyValidatorSignature C p.pub height (stakeSignMsgV2 C p) p.sig)
    (t.badSignature p.pub.id)

/-- The collateral of a v2 or v3 deposit: an active output that opens to the amount.  Layout v2
(`stealthOnly`) refuses outputs whose blinding factor is public. -/
def checkCollateral (t : DepositTexts) (stealthOnly : Bool) (p : StakeExtraV2) : Result UTXO :=
  match r.utxos with
  | none => fail t.unwired
  | some s =>
    match s.get p.burnKey with
    | none => fail (t.notFound p.burnText)
    | some u => do
      failIf (stealthOnly ∧ u.txPubKey = 0) t.needsOwnership
      let expectedCommit ← wrap t.commitFailed (C.commit p.amount p.burnBlind)
      failIf (expectedCommit ≠ u.amountCommit) (t.mismatch p.burnText)
      .ok u

/-- The one-time-key ownership proof of layout v3. -/
def checkOwnership (t : DepositTexts) (p : StakeExtraV3) (u : UTXO) : Result Unit :=
  failIf (¬ ValidatorPubKey.verify C (u.oneTimePub.bytes)
      (stakeOwnershipSignMsg C p.burnTxHash p.burnOutIdx) p.oneTimeSig) t.notOwned

/-- Unless `checkSpent` is off, the key image must not be spent. -/
def checkCollateralUnspent (s : UTXOSet) (keyImage : KeyImage) (checkSpent : Bool) : Result Unit :=
  if checkSpent then do
    let spent ← wrap "check collateral key-image spentness" (s.hasSpentKeyImage C keyImage)
    failIf spent s!"stake collateral key image {hex8 keyImage} was already spent"
  else .ok ()

def validateStakeDepositV4 (height : Nat) (p : StakeExtraV4) (checkSpent : Bool) : Result UTXO := do
  failIf (r.keyImageActive height = false)
    s!"stake key-image proof v4 is not active at height {height}"
  failIf (p.action ≠ .deposit)
    s!"v4 payload is only valid for StakeDeposit, got action={p.action.toByte.toNat}"
  failIf (¬ r.verifyValidatorSignature C p.pub height (stakeSignMsgV2 C p.toStakeExtraV2) p.sig)
    s!"invalid v4 stake signature from {p.pub.id}"
  match r.utxos with
  | none => fail "UTXO set not wired; cannot verify v4 stake collateral"
  | some s =>
    match s.get p.burnKey with
    | none => fail s!"burn UTXO {p.burnText} not found in active set"
    | some u =>
      let expectedCommit ← wrap "burn commitment computation failed" (C.commit p.amount p.burnBlind)
      failIf (expectedCommit ≠ u.amountCommit) s!"burn UTXO {p.burnText} AmountCommit mismatch"
      wrap "stake collateral key-image proof invalid"
        (C.verifyKeyImageProof u.oneTimePub p.keyImage
          (stakeKeyImageProofContext p.toStakeExtraV2) p.proof)
      checkCollateralUnspent C s p.keyImage checkSpent
      .ok u

/-! ### Authorised withdrawals -/

def validateWithdrawalV2 (a : StakeWithdrawalAuthorizationV2) (height : Nat) :
    Result ValidatorEntry := do
  failIf (r.withdrawalV2Active height = false)
    "stake withdrawal v2: transaction before attested activation"
  failIf (a.genesis ≠ r.stakeWithdrawalGenesis) "stake withdrawal v2: wrong chain genesis"
  failIf (a.expiryHeight < height)
    s!"stake withdrawal v2: authorization expired at height {a.expiryHeight}"
  failIf (a.expiryHeight - height > stakeWithdrawalMaxExpiryBlocks)
    s!"stake withdrawal v2: expiry exceeds {stakeWithdrawalMaxExpiryBlocks}-block authorization window"
  match (r.validators.get a.pubKey).filter (!·.seeded) with
  | none => fail "stake withdrawal v2: validator is not authentically registered"
  | some entry =>
    failIf (entry.stakeAuthNonce = maxUint64 ∨ a.nonce ≠ entry.stakeAuthNonce + 1 ∨
        a.generation ≠ entry.stakeGeneration.toNat)
      "stake withdrawal v2: stale nonce or collateral generation"
    failIf (a.stakeRef ≠ stakeReferenceV2 C a.genesis a.pubKey entry.stakeGeneration entry.stakeNAPR)
      "stake withdrawal v2: current stake reference mismatch"
    failIf (¬ r.verifyValidatorSignature C a.pubKey height (stakeWithdrawalSignMsgV2 C a) a.signature)
      "stake withdrawal v2: invalid validator signature"
    .ok entry

/-- The change an authorised withdrawal makes before the nonce is recorded. -/
def withdrawV2 (a : StakeWithdrawalAuthorizationV2) (height : Nat) : Result ValidatorRegistry :=
  match a.action with
  | .withdraw => do
    failIf (a.amount ≠ 0) "stake withdrawal v2: full exit amount must be zero"
    r.applyWithdraw a.pubKey height
  | .partialWithdraw => r.applyPartialWithdraw C a.pubKey a.amount height
  | _ => fail "stake withdrawal v2: invalid action"

/-- `entry.StakeAuthNonce = nonce`. -/
def setNonce (pub : ValidatorPubKey) (nonce : Nat) : ValidatorRegistry :=
  match r.validators.get pub with
  | some e => { r with validators := r.validators.set pub { e with stakeAuthNonce := nonce } }
  | none => r

def applyWithdrawalV2 (a : StakeWithdrawalAuthorizationV2) (height : Nat) :
    Result ValidatorRegistry := do
  let _ ← r.validateWithdrawalV2 C a height
  let r' ← r.withdrawV2 C a height
  .ok (r'.setNonce a.pubKey a.nonce)

/-! ### The live path -/

/-- The texts of `applyOneTxLocked` for layout `v`. -/
def applyTexts (v c1 : String) : DepositTexts where
  disabled := s!"{v} stake deposits disabled after key-image proof activation"
  wrongAction a := s!"{v} payload only valid for StakeDeposit, got action={a}"
  badSignature id := s!"invalid {v} stake signature from {id}"
  unwired := "UTXO set not wired (C-1 check)"
  notFound burn := s!"burn UTXO {burn} not found in active set{c1}"
  needsOwnership := "transparent/mint outputs require v3 payload with ownership proof (F-049)"
  commitFailed := "commitment computation failed"
  mismatch burn := s!"burn UTXO {burn} AmountCommit mismatch (C-1)"
  notOwned := "UTXO ownership proof failed (F-049): one-time-key sig does not verify"

/-- `MarkStaked` and `applyDeposit`, the end of every deposit. -/
def burnAndDeposit (p : StakeExtraV2) (height : Nat) : Result ValidatorRegistry := do
  let s ← deref r.utxos
  let s' ← wrap "MarkStaked" (s.markStaked p.burnKey)
  { r with utxos := some s' }.applyDeposit C p.pub p.amount height

/-- A v1 withdrawal whose signature was verified; `unknown` names the caller's error. -/
def applyWithdrawalV1 (p : StakeExtra) (height : Nat) (unknown : String) :
    Result ValidatorRegistry :=
  match p.action with
  | .withdraw => r.applyWithdraw p.pub height
  | .partialWithdraw => r.applyPartialWithdraw C p.pub p.amount height
  | _ => fail unknown

def applyV1 (extra : Bytes) (height : Nat) : Result ValidatorRegistry := do
  let p ← decodeStakeExtra extra
  failIf (p.action = .deposit) "StakeDeposit requires v2 payload (C-1 fix)"
  failIf (r.withdrawalV2Active height)
    "legacy stake withdrawal disabled after attested v2 activation"
  failIf (¬ r.verifyValidatorSignature C p.pub height (stakeSignMsg C p) p.sig)
    s!"invalid stake signature from {p.pub.id}"
  r.applyWithdrawalV1 C p height s!"unknown stake action {p.action.toByte.toNat}"

/-- What `applyOneTxLocked` checks of a v2 deposit before it burns the output. -/
def checkV2 (extra : Bytes) (height : Nat) : Result StakeExtraV2 := do
  let p ← decodeStakeExtraV2 extra
  r.checkDepositHead C (applyTexts "v2" "") height p
  let _ ← r.checkCollateral C (applyTexts "v2" "") true p
  .ok p

/-- What it checks of a v3 deposit. -/
def checkV3 (extra : Bytes) (height : Nat) : Result StakeExtraV2 := do
  let p ← decodeStakeExtraV3 extra
  r.checkDepositHead C (applyTexts "v3" " (C-1)") height p.toStakeExtraV2
  let u ← r.checkCollateral C (applyTexts "v3" " (C-1)") false p.toStakeExtraV2
  checkOwnership C (applyTexts "v3" " (C-1)") p u
  .ok p.toStakeExtraV2

/-- What it checks of a v4 deposit; spentness was checked before the block was applied. -/
def checkV4 (extra : Bytes) (height : Nat) : Result StakeExtraV2 := do
  let p ← decodeStakeExtraV4 extra
  let _ ← r.validateStakeDepositV4 C height p false
  .ok p.toStakeExtraV2

def applyV2 (extra : Bytes) (height : Nat) : Result ValidatorRegistry := do
  let p ← r.checkV2 C extra height
  r.burnAndDeposit C p height

def applyV3 (extra : Bytes) (height : Nat) : Result ValidatorRegistry := do
  let p ← r.checkV3 C extra height
  r.burnAndDeposit C p height

def applyV4 (extra : Bytes) (height : Nat) : Result ValidatorRegistry := do
  let p ← r.checkV4 C extra height
  r.burnAndDeposit C p height

def applyOneTx (tx : Transaction) (height : Nat) : Result ValidatorRegistry := do
  failIf (tx.version ≠ .stake) s!"not a stake tx (version={tx.version.toByte.toNat})"
  match stakeLayout tx.extra with
  | .v1 => r.applyV1 C tx.extra height
  | .withdrawalV2 =>
    let a ← decodeStakeWithdrawalExtraV2 tx.extra
    r.applyWithdrawalV2 C a height
  | .v2 => r.applyV2 C tx.extra height
  | .v3 => r.applyV3 C tx.extra height
  | .v4 => r.applyV4 C tx.extra height
  | .invalid => fail s!"invalid stake extra length {tx.extra.length}"

/-- The output `applyOneTxLocked` tries to burn, when its checks get that far. -/
def burnAttempt (tx : Transaction) (height : Nat) : Option UTXOKey :=
  let checked := match stakeLayout tx.extra with
    | .v2 => r.checkV2 C tx.extra height
    | .v3 => r.checkV3 C tx.extra height
    | .v4 => r.checkV4 C tx.extra height
    | _ => fail "not a deposit"
  checked.toOption.map (·.burnKey)

/-- What a failed `applyOneTxLocked` leaves: an output that was burned for a deposit the registry
refuses is unmarked again. -/
def afterFailure (tx : Transaction) (height : Nat) : ValidatorRegistry :=
  match r.utxos, r.burnAttempt C tx height with
  | some s, some k =>
    match s.markStaked k with
    | .ok s' => { r with utxos := some (s'.unmarkStaked k) }
    | .error _ => r
  | _, _ => r

/-- `ApplyBlockStakeTxs`, when it succeeds. -/
def applyBlockStakeTxs (txs : List Transaction) (height : Nat) : Result ValidatorRegistry :=
  loop (fun _ tx r => if tx.isStake then applyOneTx C r tx height else .ok r) 0 txs r

end ValidatorRegistry

/-- The output a deposit burns. -/
def Transaction.stakeBurnKey (tx : Transaction) : Option UTXOKey :=
  if tx.isStake then
    match stakeLayout tx.extra with
    | .v2 => (decodeStakeExtraV2 tx.extra).toOption.map (·.burnKey)
    | .v3 => (decodeStakeExtraV3 tx.extra).toOption.map (·.burnKey)
    | .v4 => (decodeStakeExtraV4 tx.extra).toOption.map (·.burnKey)
    | _ => none
  else none

/-- The registry when the first stake transaction has failed, and the outputs burned before it. -/
def stakedBeforeFailure (height : Nat) :
    ValidatorRegistry → List Transaction → ValidatorRegistry × List UTXOKey
  | r, [] => (r, [])
  | r, tx :: rest =>
    match (if tx.isStake then r.applyOneTx C tx height else .ok r) with
    | .ok r' =>
      let (last, keys) := stakedBeforeFailure height r' rest
      (last, tx.stakeBurnKey.toList ++ keys)
    | .error _ => (r.afterFailure C tx height, [])

/-- `ApplyBlockStakeTxs` with the registry it leaves and the rollback function it returns.  After a
failure it restores the validators and unmarks the outputs burned before; the rollback function does
the same later. -/
def ValidatorRegistry.applyBlockStakeTxsWithRollback (r : ValidatorRegistry)
    (txs : List Transaction) (height : Nat) :
    ValidatorRegistry × Result (ValidatorRegistry → ValidatorRegistry) :=
  let (last, stakedKeys) := stakedBeforeFailure C height r txs
  let restore (q : ValidatorRegistry) : ValidatorRegistry :=
    { q with
      validators := r.validators
      utxos := q.utxos.map fun s => stakedKeys.foldl UTXOSet.unmarkStaked s }
  match r.applyBlockStakeTxs C txs height with
  | .ok _ => (last, .ok restore)
  | .error err => (restore last, .error err)

/-! ### The dry run -/

/-- `shadowEntry`: the fields of an entry the dry run follows. -/
structure ShadowEntry where
  stakeNAPR : Nat
  status : ValidatorStatus
  generation : UInt64 := 0
  nonce : Nat := 0
  seeded : Bool := false
  deriving DecidableEq

def ValidatorEntry.shadow (e : ValidatorEntry) : ShadowEntry where
  stakeNAPR := e.stakeNAPR
  status := e.status
  generation := e.stakeGeneration
  nonce := e.stakeAuthNonce
  seeded := e.seeded

/-- The local maps of `ValidateBlockStakeTxs`; a reservation remembers the transaction that made
it. -/
structure Shadow where
  snapshot : GoMap ValidatorPubKey ShadowEntry
  reserved : GoMap UTXOKey Nat := ∅
  reservedKeyImages : GoMap KeyImage Nat := ∅

/-- The canonical key images of the inputs of the block's ordinary transactions. -/
def blockInputKeyImages (txs : List Transaction) : GoMap KeyImage Nat :=
  txs.zipIdx.foldl (fun m (tx, txIdx) =>
    if tx.isStake then m
    else tx.inputs.foldl (fun m inp =>
      match C.canonicalKeyImage inp.keyImage with
      | .ok canonical => m.set canonical txIdx
      | .error _ => m) m) ∅

namespace Shadow

variable (sh : Shadow)

/-- A deposit on the shadow of the entry that stands under the key. -/
def depositEntry (pos : String) (amount : Nat) : Option ShadowEntry → Result ShadowEntry
  | none => .ok { stakeNAPR := amount, status := .pending, generation := 1 }
  | some se => do
    failIf se.status.closed s!"{pos}: validator is unbonding/exited; cannot stake"
    failIf (se.stakeNAPR > maxUint64 - amount) s!"{pos}: stake top-up overflow"
    failIf (se.generation.toNat = maxUint64) s!"{pos}: collateral generation exhausted"
    .ok { se with stakeNAPR := se.stakeNAPR + amount, generation := se.generation + 1 }

/-- The stateful end of every deposit. -/
def deposit (i minimum : Nat) (p : StakeExtraV2) : Result Shadow := do
  let pos := s!"stake tx[{i}]"
  failIf (p.amount < minimum)
    s!"{pos}: deposit {C.formatAPRO p.amount} APRO < minimum {C.formatAPRO minimum} APRO"
  failIf (p.amount > maxStakeNAPR)
    s!"{pos}: deposit {C.formatAPRO p.amount} APRO exceeds cap {C.formatAPRO maxStakeNAPR} APRO"
  let se ← depositEntry pos p.amount (sh.snapshot.get p.pub)
  .ok { sh with
    reserved := sh.reserved.set p.burnKey i
    snapshot := sh.snapshot.set p.pub se }

/-- The burned output must not be claimed by an earlier transaction of the block. -/
def checkReserved (i : Nat) (p : StakeExtraV2) : Result Unit :=
  failSome (sh.reserved.get p.burnKey) fun firstIdx =>
    s!"stake tx[{i}]: burn UTXO {p.burnText} already claimed by tx[{firstIdx}] in this block"

/-- A full v1 withdrawal. -/
def withdraw (pos : String) (pub : ValidatorPubKey) : Result Shadow :=
  match sh.snapshot.get pub with
  | none => fail s!"{pos}: validator {pub.id} not registered"
  | some se => do
    failIf se.status.closed s!"{pos}: validator already unbonding/exited"
    .ok { sh with snapshot := sh.snapshot.set pub { se with status := .unbonding } }

/-- A partial v1 withdrawal. -/
def partialWithdraw (pos : String) (minimum : Nat) (pub : ValidatorPubKey) (amount : Nat) :
    Result Shadow :=
  match sh.snapshot.get pub with
  | none => fail s!"{pos}: validator {pub.id} not registered"
  | some se => do
    failIf se.status.closed s!"{pos}: validator is unbonding/exited; cannot partial withdraw"
    failIf (amount = 0) s!"{pos}: partial withdraw amount must be > 0"
    failIf (amount ≥ se.stakeNAPR)
      s!"{pos}: withdrawal amount {amount} >= current stake {se.stakeNAPR}"
    let remaining := se.stakeNAPR - amount
    failIf (remaining < minimum)
      s!"{pos}: remaining stake {C.formatAPRO remaining} APRO < minimum {C.formatAPRO minimum} APRO"
    .ok { sh with snapshot := sh.snapshot.set pub { se with stakeNAPR := remaining } }

/-- An authorised withdrawal on the shadow entry `se`. -/
def withdrawV2 (pos : String) (minimum : Nat) (a : StakeWithdrawalAuthorizationV2)
    (se : ShadowEntry) : Result ShadowEntry :=
  match a.action with
  | .withdraw => do
    failIf (a.amount ≠ 0 ∨ se.status.closed)
      s!"{pos}: invalid full v2 withdrawal state or amount"
    .ok { se with status := .unbonding }
  | .partialWithdraw => do
    failIf (a.amount = 0 ∨ a.amount ≥ se.stakeNAPR ∨ se.status.closed)
      s!"{pos}: invalid partial v2 withdrawal"
    failIf (se.stakeNAPR - a.amount < minimum)
      s!"{pos}: partial v2 withdrawal leaves stake below minimum"
    .ok { se with stakeNAPR := se.stakeNAPR - a.amount }
  | _ => .ok se

end Shadow

namespace ValidatorRegistry

variable (r : ValidatorRegistry)

/-- The texts of `ValidateBlockStakeTxs` for layout `v` at position `pos`. -/
def validateTexts (pos v : String) : DepositTexts where
  disabled := s!"{pos}: {v} deposits disabled after key-image proof activation"
  wrongAction a := s!"{pos}: {v} payload only valid for StakeDeposit, got action={a}"
  badSignature id := s!"{pos}: invalid {v} signature from {id}"
  unwired := s!"{pos}: UTXO set not wired (C-1 check)"
  notFound burn := s!"{pos}: burn UTXO {burn} not found in active set (C-1 check)"
  needsOwnership :=
    s!"{pos}: transparent/mint outputs require v3 payload (237 bytes) with one-time-key ownership proof (F-049)"
  commitFailed := s!"{pos}: commitment computation failed"
  mismatch burn := s!"{pos}: burn UTXO {burn} AmountCommit mismatch (C-1 check)"
  notOwned :=
    s!"{pos}: UTXO ownership proof failed (F-049): one-time-key sig does not verify against UTXO OneTimePub"

/-- The dry run of a v1 withdrawal whose signature was verified. -/
def validateWithdrawalV1 (i : Nat) (p : StakeExtra) (sh : Shadow) : Result Shadow :=
  match p.action with
  | .withdraw => sh.withdraw s!"stake tx[{i}]" p.pub
  | .partialWithdraw => sh.partialWithdraw C s!"stake tx[{i}]" r.effectiveMin p.pub p.amount
  | _ => fail s!"stake tx[{i}]: unknown action {p.action.toByte.toNat}"

def validateV1 (height i : Nat) (extra : Bytes) (sh : Shadow) : Result Shadow := do
  let p ← wrap s!"stake tx[{i}]: decode" (decodeStakeExtra extra)
  failIf (p.action = .deposit)
    s!"stake tx[{i}]: StakeDeposit requires v2 payload with UTXO proof (C-1 fix)"
  failIf (r.withdrawalV2Active height)
    s!"stake tx[{i}]: legacy withdrawal disabled after attested v2 activation"
  failIf (¬ r.verifyValidatorSignature C p.pub height (stakeSignMsg C p) p.sig)
    s!"stake tx[{i}]: invalid signature from {p.pub.id}"
  r.validateWithdrawalV1 C i p sh

/-- The dry run of an authorised withdrawal. -/
def validateWithdrawalTx (height i : Nat) (extra : Bytes) (sh : Shadow) : Result Shadow := do
  let a ← wrap s!"stake tx[{i}]" (decodeStakeWithdrawalExtraV2 extra)
  failIf (r.withdrawalV2Active height = false ∨ a.genesis ≠ r.stakeWithdrawalGenesis ∨
      a.expiryHeight < height ∨ a.expiryHeight - height > stakeWithdrawalMaxExpiryBlocks ∨
      ¬ r.verifyValidatorSignature C a.pubKey height (stakeWithdrawalSignMsgV2 C a) a.signature)
    s!"stake tx[{i}]: invalid, expired, cross-chain, or pre-activation v2 withdrawal"
  match (sh.snapshot.get a.pubKey).filter fun se =>
      !se.seeded && se.nonce ≠ maxUint64 && a.nonce = se.nonce + 1 &&
      a.generation = se.generation.toNat && a.stakeRef =
        stakeReferenceV2 C a.genesis a.pubKey se.generation se.stakeNAPR with
  | none => fail s!"stake tx[{i}]: stale validator nonce, generation, or stake reference"
  | some se =>
    let se' ← Shadow.withdrawV2 s!"stake tx[{i}]" r.effectiveMin a se
    .ok { sh with snapshot := sh.snapshot.set a.pubKey { se' with nonce := a.nonce } }

def validateV2 (height i : Nat) (extra : Bytes) (sh : Shadow) : Result Shadow := do
  let t := validateTexts s!"stake tx[{i}]" "v2"
  let p ← wrap s!"stake tx[{i}]: decode v2" (decodeStakeExtraV2 extra)
  r.checkDepositHead C t height p
  sh.checkReserved i p
  let _ ← r.checkCollateral C t true p
  sh.deposit C i r.effectiveMin p

def validateV3 (height i : Nat) (extra : Bytes) (sh : Shadow) : Result Shadow := do
  let t := validateTexts s!"stake tx[{i}]" "v3"
  let p ← wrap s!"stake tx[{i}]: decode v3" (decodeStakeExtraV3 extra)
  r.checkDepositHead C t height p.toStakeExtraV2
  sh.checkReserved i p.toStakeExtraV2
  let u ← r.checkCollateral C t false p.toStakeExtraV2
  checkOwnership C t p u
  sh.deposit C i r.effectiveMin p.toStakeExtraV2

/-- The dry run of layout v4, with the key images `inputs` of the block's ordinary inputs. -/
def validateV4 (inputs : GoMap KeyImage Nat) (height i : Nat) (extra : Bytes) (sh : Shadow) :
    Result Shadow := do
  let p ← wrap s!"stake tx[{i}]: decode v4" (decodeStakeExtraV4 extra)
  let _ ← wrap s!"stake tx[{i}]" (r.validateStakeDepositV4 C height p true)
  sh.checkReserved i p.toStakeExtraV2
  let canonical ← wrap s!"stake tx[{i}]: invalid v4 key image" (C.canonicalKeyImage p.keyImage)
  failSome (inputs.get canonical) fun inputIdx =>
    s!"stake tx[{i}]: collateral key image is also spent by tx[{inputIdx}] in this block"
  failSome (sh.reservedKeyImages.get canonical) fun firstIdx =>
    s!"stake tx[{i}]: collateral key image already reserved by stake tx[{firstIdx}]"
  let sh' ← sh.deposit C i r.effectiveMin p.toStakeExtraV2
  .ok { sh' with reservedKeyImages := sh'.reservedKeyImages.set canonical i }

/-- One iteration of `ValidateBlockStakeTxs`. -/
def validateOneTx (inputs : GoMap KeyImage Nat) (height i : Nat) (tx : Transaction) (sh : Shadow) :
    Result Shadow :=
  match stakeLayout tx.extra with
  | .v1 => r.validateV1 C height i tx.extra sh
  | .withdrawalV2 => r.validateWithdrawalTx C height i tx.extra sh
  | .v2 => r.validateV2 C height i tx.extra sh
  | .v3 => r.validateV3 C height i tx.extra sh
  | .v4 => r.validateV4 C inputs height i tx.extra sh
  | .invalid => fail s!"stake tx[{i}]: invalid extra length {tx.extra.length}"

/-- The shadow the dry run starts from. -/
def shadow : Shadow where
  snapshot := r.validators.map (·.shadow)

def validateBlockStakeTxs (txs : List Transaction) (height : Nat) : Result Unit := do
  let _ ← loop (fun i tx sh =>
    if tx.isStake then r.validateOneTx C (blockInputKeyImages C txs) height i tx sh else .ok sh)
    0 txs r.shadow

/-! ### Startup replay -/

/-- The texts of `replayOneTxLocked` for layout `v`. -/
def replayTexts (v : String) (height : Nat) : DepositTexts where
  disabled := s!"replay: {v} stake deposit after key-image proof activation at height {height}"
  wrongAction a := s!"replay: {v} payload with non-deposit action={a} at height {height}"
  badSignature id := s!"replay: invalid {v} stake sig from {id} at height {height}"

/-- `MarkStakedKnown` on the registry's set, if it has one. -/
def markBurned (p : StakeExtraV2) (u : UTXO) : ValidatorRegistry :=
  match r.utxos with
  | some s => { r with utxos := some (s.markStakedKnown p.burnKey u) }
  | none => r

/-- The descriptor of a burned output that is rebuilt from the payload. -/
def burnedUTXO (p : StakeExtraV2) : UTXO where
  txHash := p.burnTxHash
  outputIndex := p.burnOutIdx
  oneTimePub := 0
  amountCommit :=
    match C.commit p.amount p.burnBlind with
    | .ok c => c
    | .error _ => 0
  blockHeight := 0

/-- The replay of a v1 payload whose signature was verified; old chains hold v1 deposits. -/
def replayActionV1 (p : StakeExtra) (height : Nat) : Result ValidatorRegistry :=
  match p.action with
  | .withdraw => r.applyWithdraw p.pub height
  | .partialWithdraw => r.applyPartialWithdraw C p.pub p.amount height
  | .deposit => r.applyDeposit C p.pub p.amount height
  | .unknown b _ => fail s!"replay: unknown stake action {b.toNat} at height {height}"

def replayV1 (extra : Bytes) (height : Nat) : Result ValidatorRegistry := do
  let p ← wrap "replay" (decodeStakeExtra extra)
  failIf (p.action = .deposit ∧ r.keyImageActive height)
    s!"replay: v1 stake deposit after key-image proof activation at height {height}"
  failIf (r.withdrawalV2Active height ∧ (p.action = .withdraw ∨ p.action = .partialWithdraw))
    s!"replay: legacy withdrawal after attested v2 activation at height {height}"
  failIf (¬ r.verifyValidatorSignature C p.pub height (stakeSignMsg C p) p.sig)
    s!"replay: invalid stake sig from {p.pub.id} at height {height}"
  r.replayActionV1 C p height

/-- `replayOneTxLocked` for layouts v2 and v3: the collateral is not looked up. -/
def replayDeposit (v : String) (p : StakeExtraV2) (height : Nat) : Result ValidatorRegistry := do
  r.checkDepositHead C (replayTexts v height) height p
  (r.markBurned p (burnedUTXO C p)).applyDeposit C p.pub p.amount height

def replayV4 (extra : Bytes) (height : Nat) : Result ValidatorRegistry := do
  let p ← wrap "replay" (decodeStakeExtraV4 extra)
  let u ← wrap "replay" (r.validateStakeDepositV4 C height p false)
  (r.markBurned p.toStakeExtraV2 u).applyDeposit C p.pub p.amount height

def replayOneTx (tx : Transaction) (height : Nat) : Result ValidatorRegistry :=
  if tx.version ≠ .stake then .ok r
  else match stakeLayout tx.extra with
    | .v1 => r.replayV1 C tx.extra height
    | .withdrawalV2 => do
      let a ← wrap "replay" (decodeStakeWithdrawalExtraV2 tx.extra)
      wrap "replay" (r.applyWithdrawalV2 C a height)
    | .v2 => do
      let p ← wrap "replay" (decodeStakeExtraV2 tx.extra)
      r.replayDeposit C "v2" p height
    | .v3 => do
      let p ← wrap "replay" (decodeStakeExtraV3 tx.extra)
      r.replayDeposit C "v3" p.toStakeExtraV2 height
    | .v4 => r.replayV4 C tx.extra height
    | .invalid => fail s!"replay: invalid stake extra length {tx.extra.length} at height {height}"

def replayBlockStakeTxs (txs : List Transaction) (height : Nat) : Result ValidatorRegistry :=
  loop (fun _ tx r => if tx.isStake then replayOneTx C r tx height else .ok r) 0 txs r

end ValidatorRegistry

end Aperod
