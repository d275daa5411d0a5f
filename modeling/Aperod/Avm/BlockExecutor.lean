import Aperod.Avm.Engine
import Aperod.Core.Block

/-!
# Contracts in a block

`avm/block_executor.go`.  `PrepareBlock` executes the contract transactions of a block on an overlay
over the canonical store: it checks the nonce of the signer, deploys or loads the code, executes it,
and stages the next nonce, the code and a receipt.  The base is only read; the staged writes are
returned.  A failure returns with whatever the overlay had so far, so the model returns the store in
both cases.
-/

namespace Aperod.Avm

open Go

variable {S : Type}

/-! ### Keys -/

/-- `codePrefix`, `noncePrefix` and `receiptPrefix`. -/
inductive Metadata
  | code
  | nonce
  | receipt
  deriving DecidableEq

def Metadata.letter : Metadata → UInt8
  | .code => 0x63
  | .nonce => 0x6e
  | .receipt => 0x72

/-- `0xff avm/c/` and so on. -/
def Metadata.bytes (kind : Metadata) : Bytes := [0xff, 0x61, 0x76, 0x6d, 0x2f, kind.letter, 0x2f]

/-- The key of an entry besides contract state. -/
def metadataKey (kind : Metadata) (id : Bytes32) : Bytes := kind.bytes ++ id.bytes

def contractCodeKey (contractID : Hash32) : Bytes := metadataKey .code contractID
def signerNonceKey (signer : Bytes32) : Bytes := metadataKey .nonce signer
def receiptKey (txHash : Hash32) : Bytes := metadataKey .receipt txHash

/-! ### Values -/

def encodeNonce (nonce : UInt64) : Bytes := leBytes 8 nonce.toNat

def loadNonce [Store S] (store : S) (signer : Bytes32) : Result UInt64 := do
  let value ← Store.get store (signerNonceKey signer)
  match value with
  | none => .ok 0
  | some value => do
    failIf (value.length ≠ 8) s!"stored nonce has {value.length} bytes, want 8"
    .ok (UInt64.ofNat (leNat value))

structure Receipt where
  txHash : Hash32
  contractID : Hash32
  gasUsed : UInt64
  returnData : Bytes
  stateWrites : Nat
  deriving DecidableEq

def encodeReceipt (r : Receipt) : Bytes :=
  r.txHash.bytes ++ r.contractID.bytes ++ leBytes 8 r.gasUsed.toNat ++
    leBytes 8 r.stateWrites ++ leBytes 4 r.returnData.length ++ r.returnData

/-- `PreparedBlock`, as far as contracts go. -/
structure PreparedBlock where
  height : Nat
  blockHash : Hash32
  receipts : List Receipt
  writes : List Write
  writeSetCommitment : Hash32
  deriving DecidableEq

/-- One write in the commitment. -/
def Write.hashedBytes (w : Write) : Bytes :=
  leBytes 4 w.key.length ++ w.key ++ leBytes 4 (w.value.getD []).length ++ w.value.getD []

def hashWrites (C : Primitives) (writes : List Write) : Hash32 :=
  C.hashBytes (ascii "APRO/AVM/STATE-COMMITMENT/V1" ++ writes.flatMap Write.hashedBytes)

/-! ### One transaction -/

variable (C : Externals) (W : Wasm) [Store S]

/-- The code to execute; `pos` is where the transaction stands. -/
def payloadCode (pos : String) (overlay : OverlayStore S) (p : AVMPayload) : Result Bytes :=
  match p.action with
  | .deployContract => do
    let code ← wrap s!"{pos} contract lookup" (Store.get overlay (contractCodeKey p.contractID))
    failIf code.isSome s!"{pos} contract already exists"
    .ok p.code
  | .executeContract => do
    let code ← wrap s!"{pos} load code" (Store.get overlay (contractCodeKey p.contractID))
    match code with
    | none => fail s!"{pos} contract not found"
    | some code => .ok code
  | .unknown _ _ => fail s!"{pos} unknown action"

/-- What the executor asks of the engine. -/
def requestOf (p : AVMPayload) (code : Bytes) : ExecutionRequest where
  contractID := p.contractID
  code
  entry := p.entry
  input := p.calldata
  gasLimit := p.gasLimit
  accessList := p.accessList.map fun a => (a.key, a.write)

/-- The receipt of an executed transaction. -/
def receiptOf (tx : Transaction) (p : AVMPayload) (result : ExecutionResult) : Receipt where
  txHash := tx.hash C
  contractID := p.contractID
  gasUsed := result.gasUsed
  returnData := result.returnData
  stateWrites := result.stateWrites

def metadataWrites (p : AVMPayload) (receipt : Receipt) : List Write :=
  [⟨signerNonceKey p.signer, some (encodeNonce (p.nonce + 1))⟩] ++
    (if p.action = .deployContract then [⟨contractCodeKey p.contractID, some p.code⟩] else []) ++
    [⟨receiptKey receipt.txHash, some (encodeReceipt receipt)⟩]

/-- The checks before the execution; the code to execute. -/
def checkPayload (pos : String) (overlay : OverlayStore S) (payload : Option AVMPayload) :
    Result (AVMPayload × Bytes) := do
  wrap s!"{pos} payload" (AVMPayload.validate C payload)
  let p ← deref payload
  let expectedNonce ← wrap s!"{pos} nonce read" (loadNonce overlay p.signer)
  failIf (p.nonce ≠ expectedNonce) s!"{pos} nonce {p.nonce}, expected {expectedNonce}"
  let code ← payloadCode pos overlay p
  .ok (p, code)

/-- One transaction of `PrepareBlock`, with the error and the overlay at a failure. -/
def prepareTx (height i : Nat) (tx : Transaction) (overlay : OverlayStore S) :
    Except (OverlayStore S × Fault) (OverlayStore S × Receipt) := do
  let pos := s!"avm: block {height} tx[{i}]"
  let (p, code) ← orLeave overlay (checkPayload C pos overlay tx.avm)
  let (result, overlay) ←
    orLeave overlay (wrap s!"{pos} execution" (execute W overlay (requestOf p code)))
  let receipt := receiptOf C tx p result
  let overlay ←
    orLeave overlay (wrap s!"{pos} stage metadata" (Store.apply overlay (metadataWrites p receipt)))
  .ok (overlay, receipt)

/-- The loop of `PrepareBlock`. -/
def prepareTxs (height : Nat) : Nat → List Transaction → OverlayStore S × List Receipt →
    Except (OverlayStore S × Fault) (OverlayStore S × List Receipt)
  | _, [], s => .ok s
  | i, tx :: txs, s =>
    if ¬ tx.isAVM then prepareTxs height (i + 1) txs s
    else do
      let (overlay, receipt) ← prepareTx C W height i tx s.1
      prepareTxs height (i + 1) txs (overlay, s.2 ++ [receipt])

/-- `PrepareBlock`, with the store of the executor afterwards. -/
def prepareBlock (store : S) (b : Block) : Except (S × Fault) (S × PreparedBlock) :=
  match prepareTxs C W b.header.height 0 b.txs ({ base := store }, []) with
  | .error (overlay, err) => .error (overlay.base, err)
  | .ok (overlay, receipts) =>
    .ok (overlay.base, {
      height := b.header.height
      blockHash := b.hash C
      receipts
      writes := overlay.ordered
      writeSetCommitment := hashWrites C overlay.ordered })

end Aperod.Avm
