import Aperod.Core.Transaction

/-!
# Structural validation

`Transaction.Validate` with the validators of the special transaction kinds, and the height-gated
format rule `ValidateTxVersionAtHeight`.  What `encoding/json` does to the two payloads that travel
as canonical JSON is a parameter (`Codec`): the code accepts a payload only when marshalling the
decoded value gives the same bytes, so no law about the codec is needed.
-/

namespace Aperod

open Go

structure LPoDPositionAction where
  action : UInt8
  genesis : Hash32
  positionID : Hash32
  vault : Point32
  nonce : UInt64
  beneficiary : Address
  owner : Point32
  sourceTx : Hash32
  sourceIndex : UInt32
  sourcePub : Point32
  amount : UInt64
  blind : BlindFactor
  withdrawAmount : UInt64
  deriving DecidableEq

structure LPoDPayoutAuthorization where
  leader : Address
  digest : Hash32
  deriving DecidableEq

/-- `json.Marshal` and `json.Unmarshal` at one type. -/
structure Codec (α : Type) where
  marshal : α → Bytes
  unmarshal : Bytes → Result α

/-- Everything outside the modelled packages that transaction validation calls. -/
structure Externals extends Primitives where
  positionCodec : Codec LPoDPositionAction
  payoutCodec : Codec LPoDPayoutAuthorization
  /-- The JSON hashed by `LPoDPositionID`. -/
  positionIDBytes : Hash32 → Hash32 → UInt32 → Bytes
  /-- `utf8.ValidString`. -/
  utf8Valid : Bytes → Bool
  /-- `%.4f` of an amount in nAPRO, printed in whole APRO. -/
  formatAPRO : Nat → String

instance : Coe Externals Primitives := ⟨Externals.toPrimitives⟩

def lpodDeposit : UInt8 := 1
def lpodWithdraw : UInt8 := 2

/-- The bytes of a string constant of the source. -/
def ascii (s : String) : Bytes := s.toList.map fun c => UInt8.ofNat c.toNat

variable (C : Externals)

/-! ### AVM payloads -/

def avmMaxCodeSize : Nat := 2 ^ 20
def avmMaxCalldataSize : Nat := 64 * 2 ^ 10
def avmMaxEntrySize : Nat := 64
def avmMaxAccessListKeys : Nat := 64
def avmMaxStateKeySize : Nat := 64
def avmMinGasLimit : UInt64 := 100
def avmMaxGasLimit : UInt64 := 10000000

def deriveAVMContractID (signer : Bytes32) (nonce : UInt64) (code : Bytes) : Hash32 :=
  C.hashBytes (ascii "APRO/AVM/CONTRACT/V1" ++ signer.bytes ++ leBytes 8 nonce.toNat ++
    Bytes32.bytes (C.hashBytes code))

def AVMPayload.signingHash (p : AVMPayload) : Hash32 :=
  C.hashBytes (ascii "APRO/AVM/SIGN/V1" ++ p.canonicalBytes false)

/-- The access-list loop; `previous` is the key of the entry before. -/
def checkAccessList : Nat → Option Bytes → List AVMAccess → Result Unit
  | _, _, [] => .ok ()
  | i, previous, a :: rest => do
    failIf (a.key.length = 0 ∨ a.key.length > avmMaxStateKeySize)
      s!"avm access key {i} must be 1..{avmMaxStateKeySize} bytes"
    failIf (∃ q ∈ previous, ¬ q < a.key) "avm access list must be strictly sorted and unique"
    checkAccessList (i + 1) (some a.key) rest

/-- The action branch of `AVMPayload.Validate`. -/
def AVMPayload.validateAction (p : AVMPayload) : Result Unit :=
  match p.action with
  | .deployContract => do
    failIf (p.code.length = 0 ∨ p.code.length > avmMaxCodeSize)
      s!"avm deploy code must be 1..{avmMaxCodeSize} bytes"
    failIf (p.contractID ≠ deriveAVMContractID C p.signer p.nonce p.code)
      "avm deploy contract id does not match signer, nonce and code"
  | .executeContract => do
    failIf (p.code.length ≠ 0) "avm execute payload must not include code"
    failIf (p.contractID = 0) "avm execute contract id is required"
  | .unknown b _ => fail s!"unknown avm action {b.toNat}"

def AVMPayload.validate : Option AVMPayload → Result Unit
  | none => fail "avm payload is required"
  | some p => do
    p.validateAction C
    failIf (p.entry.length = 0 ∨ p.entry.length > avmMaxEntrySize ∨ ¬ C.utf8Valid p.entry)
      s!"avm entry must be valid UTF-8 and 1..{avmMaxEntrySize} bytes"
    failIf (p.calldata.length > avmMaxCalldataSize)
      s!"avm calldata is {p.calldata.length} bytes, max {avmMaxCalldataSize}"
    failIf (p.gasLimit < avmMinGasLimit ∨ p.gasLimit > avmMaxGasLimit)
      s!"avm gas limit {p.gasLimit} outside {avmMinGasLimit}..{avmMaxGasLimit}"
    failIf (p.signer = 0) "avm signer is required"
    failIf (p.accessList.length > avmMaxAccessListKeys)
      s!"avm access list has {p.accessList.length} entries, max {avmMaxAccessListKeys}"
    checkAccessList 0 none p.accessList
    failIf (¬ C.ed25519Verify (p.signer.bytes) (Bytes32.bytes (p.signingHash C))
      (arrayBytes (w := 64) p.signature)) "avm payload signature is invalid"

/-! ### Protocol transactions -/

def lpodPrefix : Bytes := ascii "APRO-LPOD-CHECKPOINT" ++ [1]

/-- The fields every protocol transaction must leave empty besides inputs, outputs and `Extra`. -/
def Transaction.noProofs (tx : Transaction) : Bool :=
  tx.fee = 0 && tx.feeCommit = 0 && tx.rangeProofs.isEmpty && tx.clsagSignatures.isEmpty &&
    tx.avm = none

def Transaction.validateLPoD (tx : Transaction) : Result Unit :=
  failIf (tx.inputs.length ≠ 0 ∨ tx.outputs.length ≠ 0 ∨ ¬ tx.noProofs ∨
      tx.signatures.length ≠ 0 ∨ tx.extra.length ≠ lpodPrefix.length + 32 ∨
      tx.extra.take lpodPrefix.length ≠ lpodPrefix)
    "lpod: malformed checkpoint transaction"

def Transaction.lpodCheckpointDigest (tx : Transaction) : Result Hash32 := do
  failIf (¬ tx.isLPoD) "lpod: not a checkpoint"
  tx.validateLPoD
  .ok (bytesArray 32 (tx.extra.drop lpodPrefix.length))

def lpodCheckpointTx (digest : Hash32) : Transaction :=
  { version := .lpod, extra := lpodPrefix ++ digest.bytes }

/-- A transaction that mints outside the rules of an LPoD block. -/
def Transaction.isExtraMint (tx : Transaction) : Bool :=
  (tx.isCoinbase && !tx.isStake) || tx.isGuardianFund || tx.isLPoD || tx.isLPoDPayout

def lpodPositionID (genesis source : Hash32) (index : UInt32) : Hash32 :=
  C.hashBytes (ascii "aperod/lpod/position-id/v1" ++ C.positionIDBytes genesis source index)

def LPoDPositionAction.message (a : LPoDPositionAction) : Hash32 :=
  C.hashBytes (ascii "aperod/lpod/position/v1" ++ C.positionCodec.marshal a)

/-- `LPoDOwnershipRing`: the key itself in front of hash-to-curve points nobody holds a key for. -/
def lpodOwnershipRing (pub : Point32) : List Point32 :=
  pub :: (List.range (ringSize - 1)).map fun i =>
    C.hashToCurvePoint (ascii "aperod/lpod/direct-proof-decoy/v1" ++ pub.bytes ++
      [UInt8.ofNat (i + 1)])

/-- `ok, err := MLSAGVerifyV4(…); if err != nil || !ok { return msg }`. -/
def requireProof (r : Result Bool) (msg : String) : Result Unit :=
  match r with
  | .ok true => .ok ()
  | .error .panic => .error .panic
  | _ => fail msg

/-- The beneficiary address must decode to the owner's spend key. -/
def checkBeneficiary (a : LPoDPositionAction) : Result Unit :=
  match C.decodeAddress a.beneficiary with
  | .ok (_, spend, _) =>
    failIf (spend ≠ a.owner) "lpod: beneficiary does not belong to signing owner"
  | .error _ => fail "lpod: beneficiary does not belong to signing owner"

/-- The source proof of a deposit: exactly one input, which is the opening the second signature
proves for `SourcePub`. -/
def checkDepositSource (tx : Transaction) (a : LPoDPositionAction) : Result Unit := do
  failIf (a.nonce ≠ 0 ∨ a.withdrawAmount ≠ 0 ∨ tx.inputs.length ≠ 1) "lpod: invalid deposit"
  let sourceSig ← index tx.signatures 1
  match sourceSig with
  | none => fail "lpod: invalid deposit"
  | some sig =>
    let commit ← C.commit a.amount.toNat a.blind
    let expected : RingInput :=
      { ring := lpodOwnershipRing C a.sourcePub, amountCommit := commit, keyImage := sig.keyImage }
    let inp ← index tx.inputs 0
    failIf (expected ≠ inp) "lpod: input differs from ownership opening"
    requireProof (C.mlsagVerifyV4 (a.message C) expected.ring commit 0 (some sig))
      "lpod: source ownership/key-image/opening proof rejected"

def Transaction.lpodPositionAction (tx : Transaction) : Result LPoDPositionAction := do
  failIf (¬ tx.isLPoDPosition ∨ tx.extra.length > 4096 ∨ tx.extra.length = 0)
    "lpod: invalid position payload"
  let a ← C.positionCodec.unmarshal tx.extra
  failIf (C.positionCodec.marshal a ≠ tx.extra) "lpod: noncanonical position encoding"
  failIf (a.genesis = 0 ∨ a.positionID ≠ lpodPositionID C a.genesis a.sourceTx a.sourceIndex ∨
      (a.action ≠ lpodDeposit ∧ a.action ≠ lpodWithdraw) ∨ a.amount = 0)
    "lpod: invalid action or position identity"
  checkBeneficiary C a
  failIf (tx.outputs.length ≠ 0 ∨ ¬ tx.noProofs)
    "lpod: positions cannot mint or contain unaccounted fields"
  failIf (tx.signatures.length ≠ if a.action = lpodDeposit then 2 else 1)
    "lpod: missing ownership proof"
  let ownerSig ← index tx.signatures 0
  requireProof (C.mlsagVerifyV4 (a.message C) (lpodOwnershipRing C a.owner) a.owner 0 ownerSig)
    "lpod: owner signature rejected"
  if a.action = lpodWithdraw then do
    failIf (tx.inputs.length ≠ 0 ∨ a.nonce = 0) "lpod: invalid withdrawal"
    .ok a
  else do
    checkDepositSource C tx a
    .ok a

def Transaction.lpodPayoutAuthorization (tx : Transaction) : Result LPoDPayoutAuthorization := do
  failIf (¬ tx.isLPoDPayout ∨ tx.inputs.length ≠ 0 ∨ tx.outputs.length > 4097 ∨ ¬ tx.noProofs ∨
    tx.signatures.length ≠ 0 ∨ tx.extra.length > 512) "lpod: malformed payout"
  let a ← C.payoutCodec.unmarshal tx.extra
  failIf (C.payoutCodec.marshal a ≠ tx.extra) "lpod: noncanonical payout authorization"
  let _ ← C.decodeAddress a.leader
  .ok a

structure SaleAuthorization where
  genesis : Hash32
  height : Nat
  parent : Hash32
  order : Hash32
  payment : Hash32
  amount : Nat
  opening : BitVec (8 * 64)
  signature : BitVec (8 * 64)
  deriving DecidableEq

def saleExtraSize : Nat := 280
def salePrefix : Bytes := ascii "APSALE" ++ [1, 0]

def Transaction.saleAuthorization (tx : Transaction) : Result SaleAuthorization := do
  failIf (¬ tx.isSale ∨ tx.extra.length ≠ saleExtraSize ∨ tx.extra.take 8 ≠ salePrefix ∨
    tx.inputs.length ≠ 0 ∨ tx.outputs.length ≠ 1 ∨ ¬ tx.noProofs ∨ tx.signatures.length ≠ 0)
    "sale: noncanonical transaction structure"
  let a : SaleAuthorization :=
    { genesis := bytesArray 32 (slice tx.extra 8 40)
      height := beNat (slice tx.extra 40 48)
      parent := bytesArray 32 (slice tx.extra 48 80)
      order := bytesArray 32 (slice tx.extra 80 112)
      payment := bytesArray 32 (slice tx.extra 112 144)
      amount := beNat (slice tx.extra 144 152)
      opening := bytesArray 64 (slice tx.extra 152 216)
      signature := bytesArray 64 (slice tx.extra 216 280) }
  failIf (a.height = 0 ∨ a.amount = 0 ∨ a.genesis = 0 ∨ a.parent = 0 ∨ a.order = 0 ∨ a.payment = 0)
    "sale: empty authorization field"
  let out ← index tx.outputs 0
  C.validateAuthorizedOutputPoints out.oneTimePub out.txPubKey
  C.verifyValueAuthorization a.amount out.amountCommit a.opening
  .ok a

/-! ### Intentional burns -/

def intentionalBurnPrefix : Bytes := ascii "APRO-BURN" ++ [1]

/-- `parseIntentionalBurnExtra`: the burned amount, or `none` when `Extra` carries no marker. -/
def parseIntentionalBurnExtra (extra : Bytes) : Result (Option Nat) := do
  if extra.length < intentionalBurnPrefix.length ∨
      extra.take intentionalBurnPrefix.length ≠ intentionalBurnPrefix then
    .ok none
  else
    failIf (extra.length ≠ intentionalBurnPrefix.length + 8) "malformed intentional burn marker"
    let amount := leNat (extra.drop intentionalBurnPrefix.length)
    failIf (amount = 0) "intentional burn amount must be positive"
    .ok (some amount)

def Transaction.burnAmount (tx : Transaction) : Option Nat :=
  match parseIntentionalBurnExtra tx.extra with
  | .ok (some amount) => some amount
  | _ => none

/-! ### `Transaction.Validate` -/

def guardianFundExtraSize : Nat := 18 + 1 + 32 + 8

/-- The stake branch of `Validate`: a known layout and action, and no outputs.  Inputs are not
looked at. -/
def Transaction.validateStake (tx : Transaction) : Result Unit := do
  failIf (tx.extra.length ≠ stakePayloadSize ∧ tx.extra.length ≠ stakeWithdrawalPayloadSizeV2 ∧
      tx.extra.length ≠ stakePayloadSizeV2 ∧ tx.extra.length ≠ stakePayloadSizeV3 ∧
      tx.extra.length ≠ stakePayloadSizeV4)
    s!"stake tx: extra must be {stakePayloadSize} bytes (withdraw) or {stakePayloadSizeV2}, {stakePayloadSizeV3}, or {stakePayloadSizeV4} bytes (deposit), got {tx.extra.length}"
  match StakeAction.ofByte (tx.extra.headD 0) with
  | .unknown b _ => fail s!"stake tx: unknown action {b.toNat}"
  | _ => failIf (tx.outputs.length ≠ 0) "stake tx must not contain outputs"

/-- The burn-marker rules of `Validate`. -/
def Transaction.validateBurn (tx : Transaction) (burn : Option Nat) : Result Unit :=
  match burn with
  | none => .ok ()
  | some amount => do
    failIf (tx.version ≠ .commitmentBinding ∧ tx.version ≠ .clsag)
      "intentional burn requires transaction version 4"
    failIf tx.isCoinbase "coinbase must not carry an intentional burn marker"
    failIf (amount = 0) "intentional burn amount must be positive"
    failIf (tx.outputs.length > 1) "intentional burn may contain only a change output"

/-- The per-input checks of `Validate` that only concern v4 spends. -/
def Transaction.validateInputV4 (tx : Transaction) (i : Nat) (inp : RingInput) : Result Unit :=
  if tx.version = .commitmentBinding then do
    failIf (inp.realIndex.toNat ≥ ringSize)
      s!"input {i}: real index {inp.realIndex.toNat} out of range"
    let sig ← index tx.signatures i
    failIf (∃ s ∈ sig, s.blindSS.length ≠ ringSize ∨ s.valueSS.length ≠ ringSize)
      s!"input {i}: v4 signature opening response length mismatch"
  else .ok ()

/-- The per-input checks of `Validate` that only concern CLSAG spends. -/
def Transaction.validateInputCLSAG (tx : Transaction) (i : Nat) (inp : RingInput) : Result Unit :=
  if tx.usesCLSAG then do
    failIf (inp.realIndex ≠ 0) s!"input {i}: v5 must not disclose a real index"
    failIf (inp.ringCommitments.length ≠ ringSize)
      s!"input {i}: ring commitment count {inp.ringCommitments.length} != required {ringSize}"
    let sig ← index tx.clsagSignatures i
    failIf (¬ ∃ s ∈ sig, s.s.length = ringSize) s!"input {i}: v5 CLSAG response length mismatch"
  else .ok ()

/-- The per-input checks of `Validate`. -/
def Transaction.validateInput (tx : Transaction) (i : Nat) (inp : RingInput) : Result Unit := do
  failIf (inp.ring.length ≠ ringSize)
    s!"input {i}: ring size {inp.ring.length} != required {ringSize}"
  failIf (inp.keyImage = 0) s!"input {i}: zero key image"
  tx.validateInputV4 i inp
  tx.validateInputCLSAG i inp

/-- The signature-count rules of `Validate`. -/
def Transaction.validateSignatureCounts (tx : Transaction) : Result Unit :=
  if tx.usesCLSAG then do
    failIf (tx.signatures.length ≠ 0) "tx: v5 must not contain legacy signatures"
    failIf (tx.clsagSignatures.length ≠ tx.inputs.length)
      s!"tx: {tx.clsagSignatures.length} CLSAG signatures for {tx.inputs.length} inputs"
  else do
    failIf (tx.clsagSignatures.length ≠ 0)
      "tx: legacy transaction must not contain CLSAG signatures"
    failIf (tx.signatures.length ≠ tx.inputs.length)
      s!"tx: {tx.signatures.length} signatures for {tx.inputs.length} inputs"

/-- `Validate` from the burn marker on: coinbases and ring transactions. -/
def Transaction.validateTransfer (tx : Transaction) : Result Unit := do
  let burn ← parseIntentionalBurnExtra tx.extra
  tx.validateBurn burn
  failIf (tx.outputs.length = 0 ∧ burn = none) "tx has no outputs"
  failIf (tx.outputs.length > 16) s!"tx has too many outputs: {tx.outputs.length} (max 16)"
  failIf (tx.extra.length > 255) s!"tx extra too large: {tx.extra.length} bytes (max 255)"
  if tx.isCoinbase then
    failIf (tx.version ≠ .base)
      s!"coinbase must use transaction version 1, got {tx.version.toByte.toNat}"
  else
    failIf (tx.inputs.length = 0) "tx has no inputs"
    tx.validateSignatureCounts
    failIf (tx.rangeProofs.length ≠ tx.outputs.length)
      s!"tx: {tx.rangeProofs.length} range proofs for {tx.outputs.length} outputs"
    checkAll tx.validateInput 0 tx.inputs

/-- The AVM part of `Validate`, passed by every version that has no validator of its own. -/
def Transaction.validateAVM (tx : Transaction) : Result Unit := do
  if tx.isAVM then
    failIf (tx.extra.length ≠ 0) "avm transaction must not use Extra"
    wrap "avm transaction" (AVMPayload.validate C tx.avm)
    failIf (tx.inputs.length = 0 ∨ tx.outputs.length = 0)
      "avm transaction requires CLSAG fee inputs and a change output"
  else
    failIf (tx.avm ≠ none) "non-avm transaction must not carry an avm payload"

/-- The guardian branch of `Validate`. -/
def Transaction.validateGuardianFund (tx : Transaction) : Result Unit := do
  failIf (tx.inputs.length ≠ 0 ∨ tx.outputs.length ≠ 1 ∨ tx.fee ≠ 0 ∨ tx.feeCommit ≠ 0 ∨
      tx.rangeProofs.length ≠ 0 ∨ tx.signatures.length ≠ 0 ∨ tx.clsagSignatures.length ≠ 0)
    "guardian fund transaction has non-canonical structure"
  failIf (tx.extra.length ≠ guardianFundExtraSize) "guardian fund transaction has malformed extra"

def Transaction.validate (tx : Transaction) : Result Unit :=
  match tx.version with
  | .unknown b _ =>
    if b = 0 then fail "tx version 0 is invalid" else fail s!"unsupported tx version {b.toNat}"
  | .lpod => tx.validateLPoD
  | .sale => do let _ ← tx.saleAuthorization C
  | .lpodPosition => do let _ ← tx.lpodPositionAction C
  | .lpodPayout => do let _ ← tx.lpodPayoutAuthorization C
  | .guardianFund => do tx.validateAVM C; tx.validateGuardianFund
  | .stake => do tx.validateAVM C; tx.validateStake
  | _ => do tx.validateAVM C; tx.validateTransfer

/-- `ValidateTxVersionAtHeight(tx, height, ringCTV4, clsag, avm)`. -/
def validateTxVersionAtHeight (tx : Transaction) (height v4Height clsagHeight avmHeight : Nat) :
    Result Unit :=
  if tx.isLPoD then tx.validateLPoD
  else if tx.isLPoDPosition || tx.isLPoDPayout then tx.validate C
  else if tx.isStake then .ok ()
  else if tx.isGuardianFund then .ok ()
  else if tx.isCoinbase then
    failIf (tx.version ≠ .base)
      s!"coinbase must use transaction version 1, got {tx.version.toByte.toNat}"
  else if tx.isAVM then do
    failIf (avmHeight = 0 ∨ height < avmHeight)
      s!"AVM transaction version {tx.version.toByte.toNat} is not active"
    failIf (clsagHeight = 0 ∨ height < clsagHeight) s!"AVM requires active CLSAG at height {height}"
  else do
    failIf (tx.version = .clsag ∧ (clsagHeight = 0 ∨ height < clsagHeight))
      s!"transaction version {tx.version.toByte.toNat} is not active"
    failIf (tx.version = .commitmentBinding ∧ v4Height > 0 ∧ height < v4Height)
      s!"transaction version {tx.version.toByte.toNat} is not active until height {v4Height}"
    failIf (clsagHeight > 0 ∧ height ≥ clsagHeight ∧ ¬ tx.usesCLSAG)
      s!"RingCT v5 is required at height {height}"
    failIf ((v4Height = 0 ∨ height ≥ v4Height) ∧ (tx.version = .base ∨ tx.version = .gameAsset))
      s!"legacy RingCT transaction version {tx.version.toByte.toNat} is disabled at height {height}; use commitment-binding version 4"

end Aperod
