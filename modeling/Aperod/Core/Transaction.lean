import Aperod.Core.StakePayload

/-!
# Transactions

The transaction record of package `core`, its kinds, its hash and its size.  Every kind is told
apart by the version alone, except that a transaction with no inputs of a version without a rule
of its own counts as a coinbase.
-/

namespace Aperod

open Go

/-- `TxVersion`: the wire format of a transaction. -/
inductive TxVersion
  | base
  | gameAsset
  | stake
  | commitmentBinding
  | clsag
  | avm
  | guardianFund
  | lpod
  | lpodPosition
  | lpodPayout
  | sale
  /-- A byte that names no version. -/
  | unknown (b : UInt8) (h : b = 0 ∨ 11 < b)
  deriving DecidableEq

/-- `byte(tx.Version)`. -/
def TxVersion.toByte : TxVersion → UInt8
  | .base => 1
  | .gameAsset => 2
  | .stake => 3
  | .commitmentBinding => 4
  | .clsag => 5
  | .avm => 6
  | .guardianFund => 7
  | .lpod => 8
  | .lpodPosition => 9
  | .lpodPayout => 10
  | .sale => 11
  | .unknown b _ => b

/-- `RingInput`: one spent output, hidden in a ring. -/
structure RingInput where
  keyImage : KeyImage
  ring : List Point32
  amountCommit : Commitment
  ringCommitments : List Commitment := []
  pseudoOut : Commitment := 0
  realIndex : UInt8 := 0
  deriving DecidableEq

structure Output where
  oneTimePub : Point32
  txPubKey : Point32 := 0
  amountCommit : Commitment
  encAmount : BitVec (8 * 8) := 0
  deriving DecidableEq

inductive AVMAction
  | deployContract
  | executeContract
  /-- A byte that names no action. -/
  | unknown (b : UInt8) (h : b = 0 ∨ 2 < b)
  deriving DecidableEq

/-- `byte(p.Action)`. -/
def AVMAction.toByte : AVMAction → UInt8
  | .deployContract => 1
  | .executeContract => 2
  | .unknown b _ => b

structure AVMAccess where
  key : Bytes
  write : Bool
  deriving DecidableEq

structure AVMPayload where
  action : AVMAction
  contractID : Hash32
  code : Bytes
  entry : Bytes
  calldata : Bytes
  gasLimit : UInt64
  nonce : UInt64
  signer : Bytes32
  signature : BitVec (8 * 64)
  accessList : List AVMAccess
  deriving DecidableEq

structure Transaction where
  version : TxVersion
  inputs : List RingInput := []
  outputs : List Output := []
  fee : UInt64 := 0
  feeCommit : Commitment := 0
  rangeProofs : List (Option RangeProof) := []
  signatures : List (Option MLSAGSignature) := []
  clsagSignatures : List (Option CLSAGSignature) := []
  extra : Bytes := []
  avm : Option AVMPayload := none
  deriving DecidableEq

namespace Transaction

variable (tx : Transaction)

/-! ### Kinds -/

def isStake : Bool := tx.version = .stake
def isAVM : Bool := tx.version = .avm
def isGuardianFund : Bool := tx.version = .guardianFund
def isLPoD : Bool := tx.version = .lpod
def isLPoDPosition : Bool := tx.version = .lpodPosition
def isLPoDPayout : Bool := tx.version = .lpodPayout
def isSale : Bool := tx.version = .sale

/-- `IsCoinbase`: no inputs, and none of the kinds that may have none. -/
def isCoinbase : Bool :=
  tx.inputs.isEmpty && !tx.isGuardianFund && !tx.isLPoD && !tx.isLPoDPosition &&
    !tx.isLPoDPayout && !tx.isSale

def usesCLSAG : Bool := tx.version = .clsag || tx.version = .avm

def keyImages : List KeyImage := tx.inputs.map (·.keyImage)

end Transaction

/-! ### Hash -/

/-- `writeAVMBytes`: a 4-byte length and the bytes. -/
def writeAVMBytes (value : Bytes) : Bytes := leBytes 4 value.length ++ value

def AVMPayload.canonicalBytes (p : AVMPayload) (includeSignature : Bool) : Bytes :=
  [p.action.toByte] ++ p.contractID.bytes ++ writeAVMBytes p.code ++
    writeAVMBytes p.entry ++ writeAVMBytes p.calldata ++ leBytes 8 p.gasLimit.toNat ++
    leBytes 8 p.nonce.toNat ++ p.signer.bytes ++ leBytes 2 p.accessList.length ++
    p.accessList.flatMap (fun a => writeAVMBytes a.key ++ [if a.write then 1 else 0]) ++
    (if includeSignature then arrayBytes (w := 64) p.signature else [])

namespace Transaction

/-- What one input adds to the hashed bytes of `tx`. -/
def inputHashBytes (tx : Transaction) (inp : RingInput) : Bytes :=
  inp.keyImage.bytes ++ inp.amountCommit.bytes ++
    inp.ring.flatMap Bytes32.bytes ++
    (if tx.version = .commitmentBinding then [inp.realIndex] else []) ++
    (if tx.usesCLSAG then
      (inp.ring.zipIdx.flatMap fun (rm, i) => rm.bytes ++
        (match inp.ringCommitments[i]? with
          | some c => c.bytes
          | none => [])) ++ inp.pseudoOut.bytes
    else [])

/-- What one output adds to the hashed bytes. -/
def outputHashBytes (out : Output) : Bytes :=
  out.oneTimePub.bytes ++ out.amountCommit.bytes ++
    out.txPubKey.bytes ++ arrayBytes (w := 8) out.encAmount

/-- The bytes `Hash` hashes. -/
def hashedBytes (tx : Transaction) : Bytes :=
  [tx.version.toByte] ++ leBytes 8 tx.fee.toNat ++ tx.feeCommit.bytes ++ tx.extra ++
    (match tx.avm with
      | some p => p.canonicalBytes true
      | none => []) ++
    tx.inputs.flatMap tx.inputHashBytes ++ tx.outputs.flatMap outputHashBytes

def hash (C : Primitives) (tx : Transaction) : Hash32 := C.hashBytes tx.hashedBytes

/-- `Size`: an approximate byte size for fee estimation. -/
def size (tx : Transaction) : Nat :=
  let header := 1 + 8 + 32
  let inputs := tx.inputs.length * (32 + ringSize * 32 + 32) +
    (if tx.version = .commitmentBinding then tx.inputs.length else 0)
  let outputs := tx.outputs.length * (32 + 32 + 32 + 8)
  let sigBytes := 32 + ringSize * 32 + 32 +
    (if tx.version = .commitmentBinding then 2 * ringSize * 32 + 64 else 0)
  let proofs :=
    if tx.usesCLSAG then tx.inputs.length * (ringSize * 32 + 32 + 608)
    else tx.signatures.length * sigBytes
  let avm := match tx.avm with
    | some p => (p.canonicalBytes true).length
    | none => 0
  header + inputs + outputs + proofs + avm + tx.rangeProofs.length * 675 + tx.extra.length

end Transaction

def initialBaseFeePerByte : Nat := 200

def minBaseFeePerByte : Nat := 50

/-- `^uint64(0)`. -/
def maxUint64 : Nat := 2 ^ 64 - 1

/-- `MinFeeAt`: size times base fee, saturating. -/
def Transaction.minFeeAt (tx : Transaction) (baseFeePerByte : Nat) : Nat :=
  let baseFee := if baseFeePerByte = 0 then initialBaseFeePerByte else baseFeePerByte
  if tx.size ≠ 0 ∧ baseFee > maxUint64 / tx.size then maxUint64 else tx.size * baseFee

end Aperod
