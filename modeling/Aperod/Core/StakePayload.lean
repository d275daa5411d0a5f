import Aperod.Crypto.Primitives

/-!
# Stake payloads

The layouts a stake transaction may carry in `Extra`:

* v1 (105 bytes): `action(1) pub(32) amount(8) sig(64)`, withdrawals;
* v2 (173 bytes): v1 and `burnTxHash(32) burnOutIdx(4) burnBlind(32)`, deposits;
* v3 (237 bytes): v2 and `oneTimeSig(64)`;
* v4 (301 bytes): v2 and `keyImage(32) proof(3 × 32)`;
* withdrawal v2 (193 bytes): `action pub amount genesis nonce generation expiry stakeRef sig`.

The four deposit layouts share their first fields, so there is one reader `stakeFields` for the
common head and one `burnFields` for the collateral reference.
-/

namespace Aperod

open Go

/-- `StakeAction`: the operation a stake transaction asks for. -/
inductive StakeAction
  | deposit
  | withdraw
  | partialWithdraw
  /-- A byte that names no action. -/
  | unknown (b : UInt8) (h : b = 0 ∨ 3 < b)
  deriving DecidableEq

namespace StakeAction

theorem unknown_byte {b : UInt8} (h1 : b ≠ 1) (h2 : b ≠ 2) (h3 : b ≠ 3) : b = 0 ∨ 3 < b := by
  simp only [ne_eq, ← UInt8.toNat_inj, UInt8.lt_iff_toNat_lt, UInt8.toNat_ofNat] at *
  omega

/-- `StakeAction(b)`. -/
def ofByte (b : UInt8) : StakeAction :=
  if h1 : b = 1 then .deposit
  else if h2 : b = 2 then .withdraw
  else if h3 : b = 3 then .partialWithdraw
  else .unknown b (unknown_byte h1 h2 h3)

/-- `byte(action)`. -/
def toByte : StakeAction → UInt8
  | .deposit => 1
  | .withdraw => 2
  | .partialWithdraw => 3
  | .unknown b _ => b

end StakeAction

def stakePayloadSize : Nat := 105
def stakePayloadSizeV2 : Nat := 173
def stakePayloadSizeV3 : Nat := 237
def stakePayloadSizeV4 : Nat := 301
def stakeWithdrawalPayloadSizeV2 : Nat := 193

/-- The fields every deposit and v1 withdrawal payload starts with. -/
structure StakeExtra where
  action : StakeAction
  pub : ValidatorPubKey
  amount : Nat
  sig : Bytes
  deriving DecidableEq

/-- A deposit with its collateral output. -/
structure StakeExtraV2 extends StakeExtra where
  burnTxHash : Hash32
  burnOutIdx : UInt32
  burnBlind : BlindFactor
  deriving DecidableEq

/-- A deposit with a one-time-key ownership signature. -/
structure StakeExtraV3 extends StakeExtraV2 where
  oneTimeSig : Bytes
  deriving DecidableEq

/-- A deposit with a key image and its proof. -/
structure StakeExtraV4 extends StakeExtraV2 where
  keyImage : KeyImage
  proof : KeyImageDLEQProof
  deriving DecidableEq

structure StakeWithdrawalAuthorizationV2 where
  action : StakeAction
  pubKey : ValidatorPubKey
  amount : Nat
  genesis : Hash32
  nonce : Nat
  generation : Nat
  expiryHeight : Nat
  stakeRef : Hash32
  signature : Bytes
  deriving DecidableEq

/-! ### Decoding -/

/-- The head `action(1) pub(32) amount(8) sig(64)`. -/
def stakeFields (extra : Bytes) : StakeExtra where
  action := .ofByte (extra.headD 0)
  pub := slice extra 1 33
  amount := beNat (slice extra 33 41)
  sig := slice extra 41 105

/-- The head followed by `burnTxHash(32) burnOutIdx(4) burnBlind(32)`. -/
def burnFields (extra : Bytes) : StakeExtraV2 where
  toStakeExtra := stakeFields extra
  burnTxHash := bytesArray 32 (slice extra 105 137)
  burnOutIdx := UInt32.ofNat (beNat (slice extra 137 141))
  burnBlind := bytesArray 32 (slice extra 141 173)

def decodeStakeExtra (extra : Bytes) : Result StakeExtra := do
  failIf (extra.length ≠ stakePayloadSize)
    s!"stake extra: expected {stakePayloadSize} bytes, got {extra.length}"
  .ok (stakeFields extra)

def decodeStakeExtraV2 (extra : Bytes) : Result StakeExtraV2 := do
  failIf (extra.length ≠ stakePayloadSizeV2)
    s!"stake extra v2: expected {stakePayloadSizeV2} bytes, got {extra.length}"
  .ok (burnFields extra)

def decodeStakeExtraV3 (extra : Bytes) : Result StakeExtraV3 := do
  failIf (extra.length ≠ stakePayloadSizeV3)
    s!"stake extra v3: expected {stakePayloadSizeV3} bytes, got {extra.length}"
  .ok { burnFields extra with oneTimeSig := slice extra 173 237 }

def decodeStakeExtraV4 (extra : Bytes) : Result StakeExtraV4 := do
  failIf (extra.length ≠ stakePayloadSizeV4)
    s!"stake extra v4: expected {stakePayloadSizeV4} bytes, got {extra.length}"
  .ok { burnFields extra with
        keyImage := bytesArray 32 (slice extra 173 205)
        proof := ⟨bytesArray 32 (slice extra 205 237), bytesArray 32 (slice extra 237 269),
          bytesArray 32 (slice extra 269 301)⟩ }

def decodeStakeWithdrawalExtraV2 (extra : Bytes) : Result StakeWithdrawalAuthorizationV2 := do
  failIf (extra.length ≠ stakeWithdrawalPayloadSizeV2)
    s!"stake withdrawal v2: expected {stakeWithdrawalPayloadSizeV2} bytes, got {extra.length}"
  let a : StakeWithdrawalAuthorizationV2 :=
    { action := .ofByte (extra.headD 0)
      pubKey := slice extra 1 33
      amount := beNat (slice extra 33 41)
      genesis := bytesArray 32 (slice extra 41 73)
      nonce := beNat (slice extra 73 81)
      generation := beNat (slice extra 81 89)
      expiryHeight := beNat (slice extra 89 97)
      stakeRef := bytesArray 32 (slice extra 97 129)
      signature := slice extra 129 193 }
  failIf (a.action ≠ .withdraw ∧ a.action ≠ .partialWithdraw)
    s!"stake withdrawal v2: invalid action {a.action.toByte.toNat}"
  .ok a

@[simp] theorem Bytes32.bytes_length (a : Bytes32) : (Bytes32.bytes a).length = 32 :=
  arrayBytes_length a

end Aperod
