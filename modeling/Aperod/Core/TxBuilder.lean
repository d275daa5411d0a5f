import Aperod.Core.Wallet
import Aperod.Core.Mempool

/-!
# The transaction builders

`Build` of `core/tx_builder.go` and `BuildMulti` of `core/tx_builder_multi.go`.  Both go through the
same stages: owned outputs are selected largest first until they cover the amount and an estimated
fee (`fund`, `fundMulti`); payment and change outputs are made, the last of them with the blind that
balances the others (`buildOutputs`, `buildMultiOutputs`); every selected output is hidden in a ring
(`ringInput`); the transaction is put together and signed (`complete`).

Amounts are `UInt64`, so every sum wraps as it does in the source.  What a call draws at random is an
argument (`Entropy`), and the draws do not fail.  The decoys a UTXO set samples are those of a
function `DecoySampler`: any function, as the samples are random.
-/

namespace Aperod

open Go

/-- `OwnedUTXO`: an output of the wallet with the secrets that open and spend it. -/
structure OwnedUTXO extends UTXO where
  hsScalar : Scalar32
  amount : UInt64
  blind : BlindFactor
  deriving DecidableEq

structure DecoyUTXO where
  oneTimePub : Point32
  amountCommit : Commitment
  deriving DecidableEq

/-- `sampleChainDecoys(count, exclude, clsag)` of a UTXO set. -/
abbrev DecoySampler := Nat → List Point32 → Bool → Result (List DecoyUTXO)

/-- `TxBuilder`; `NewTxBuilder` replaces a fee rate of zero. -/
structure TxBuilder where
  spendPriv : Scalar32
  ownedUTXOs : List OwnedUTXO
  feePerByte : UInt64
  utxoSet : Option DecoySampler := none
  decoys : List DecoyUTXO := []
  txVersion : TxVersion := .commitmentBinding
  avmPayload : Option AVMPayload := none
  paymentRecipientProof : Bool := false
  feePerByte_ne_zero : feePerByte ≠ 0

/-- What one call of a builder draws at random. -/
structure Entropy where
  /-- The ephemeral scalar of the `i`-th output. -/
  ephemeral : Nat → Scalar
  /-- The position of the real member in the ring of the `i`-th input. -/
  ringPosition : Nat → Fin ringSize
  /-- The generated key for slot `j` of the ring of the `i`-th input. -/
  fakeKey : Nat → Nat → Point32
  /-- `NewBlindFactor` for the `i`-th pseudo output. -/
  pseudoBlind : Nat → Scalar
  /-- Read by the `i`-th range proof. -/
  proof : Nat → Bytes
  /-- Read by the `i`-th signature. -/
  signature : Nat → Bytes

/-- The fee is public: its blind is zero. -/
def feeBlind : BlindFactor := 0

def intentionalBurnExtra (amount : UInt64) : Bytes := intentionalBurnPrefix ++ leBytes 8 amount.toNat

/-! ### Sizes and fees -/

def txOverheadBytes : Nat := 41
def txBytesPerInput : Nat := 2241
def txBytesPerOutput : Nat := 779

def txVersionUsesCLSAG (version : TxVersion) : Bool := version = .clsag || version = .avm

def txEstimatedSize (version : TxVersion) (nInputs nOutputs : Nat) : Nat :=
  let inputBytes := if txVersionUsesCLSAG version then 576 + ringSize * 32 + 32 + 608
    else txBytesPerInput
  txOverheadBytes + nInputs * inputBytes + nOutputs * txBytesPerOutput

/-- `txEstimateFeeVersion`; the product wraps. -/
def txEstimateFeeVersion (version : TxVersion) (nInputs nOutputs : Nat) (feePerByte : UInt64) :
    UInt64 :=
  UInt64.ofNat (txEstimatedSize version nInputs nOutputs) * (if feePerByte = 0 then 1 else feePerByte)

/-! ### Selection -/

/-- The comparison of the sort: larger amounts first. -/
def largerAmount (a b : OwnedUTXO) : Bool := a.amount > b.amount

/-- Keep the first output of every one-time key; `seen` are the keys so far. -/
def dedupByPub (seen : List Point32) : List OwnedUTXO → List OwnedUTXO
  | [] => []
  | u :: us =>
    if u.oneTimePub ∈ seen then dedupByPub seen us
    else u :: dedupByPub (u.oneTimePub :: seen) us

def maxInputs : Nat := 8

/-- The greedy loop: take outputs until `needed` is reached or `maxInputs` are taken.  `count` and
`totalIn` are the number taken so far and their sum. -/
def selectInputs (needed : UInt64) : Nat → UInt64 → List OwnedUTXO → List OwnedUTXO × UInt64
  | _, totalIn, [] => ([], totalIn)
  | count, totalIn, u :: us =>
    if totalIn ≥ needed then ([], totalIn)
    else if count + 1 ≥ maxInputs then ([u], totalIn + u.amount)
    else
      let (selected, total) := selectInputs needed (count + 1) (totalIn + u.amount) us
      (u :: selected, total)

/-- The selected inputs, the change that remains and the fee. -/
structure Funding where
  selected : List OwnedUTXO
  changeAmount : UInt64
  fee : UInt64
  deriving DecidableEq

namespace TxBuilder

variable (b : TxBuilder)

/-- The owned outputs in the order of selection. -/
def available : List OwnedUTXO := dedupByPub [] (sortSlice largerAmount b.ownedUTXOs)

/-- The guarded fee estimate of `Build`. -/
def estimateFee (nInputs nOutputs extraBytes : Nat) (gasFee : UInt64) : Result UInt64 := do
  let size := txEstimatedSize b.txVersion nInputs nOutputs + extraBytes
  failIf (size > (maxUint64 - gasFee.toNat) / b.feePerByte.toNat)
    "transaction fee estimate overflows uint64"
  .ok (UInt64.ofNat size * b.feePerByte + gasFee)

/-- The guarded sum of `Build`. -/
def addFee (amount fee : UInt64) : Result UInt64 := do
  failIf (amount.toNat > maxUint64 - fee.toNat) "amount plus fee overflows uint64"
  .ok (amount + fee)

/-- The selection of `Build`: once with the fee of one input, then the fee of the inputs selected. -/
def fund (amount : UInt64) (nOutputs extraBytes : Nat) (gasFee : UInt64) : Result Funding := do
  let initialFee ← b.estimateFee 1 nOutputs extraBytes gasFee
  let initiallyNeeded ← addFee amount initialFee
  let (selected, totalIn) := selectInputs initiallyNeeded 0 0 b.available
  let fee ← b.estimateFee selected.length nOutputs extraBytes gasFee
  let needed ← addFee amount fee
  failIf (totalIn < needed)
    s!"insufficient funds: have {totalIn}, need {needed} (amount {amount} + fee {fee})"
  .ok ⟨selected, totalIn - amount - fee, fee⟩

/-- The selection of `BuildMulti`, where nothing guards the products and sums. -/
def fundMulti (totalAmount : UInt64) (nOutputs : Nat) : Result Funding := do
  let initialFee := txEstimateFeeVersion b.txVersion 1 nOutputs b.feePerByte
  let (selected, totalIn) := selectInputs (totalAmount + initialFee) 0 0 b.available
  let fee := txEstimateFeeVersion b.txVersion selected.length nOutputs b.feePerByte
  let needed := totalAmount + fee
  failIf (totalIn < needed)
    s!"insufficient funds: have {totalIn} nAPRO, need {needed} (amount {totalAmount} + fee {fee})"
  .ok ⟨selected, totalIn - totalAmount - fee, fee⟩

end TxBuilder

/-! ### Outputs -/

variable {C : Externals} (K : Curve C)

/-- An output with its opening. -/
structure OutEntry where
  output : Output
  blind : BlindFactor
  amount : UInt64
  ephemeralSecret : Scalar32 := 0
  deriving DecidableEq

/-- Decode an address and derive a one-time key for it. -/
def stealthTo (r : Scalar) (addr : Address) : Result StealthOutput := do
  let (_, spendPub, viewPub) ← wrap "decode address" (C.decodeAddress addr)
  wrap "stealth output" (createStealthOutputWithScalar K spendPub viewPub r)

def StealthOutput.pay (C : Primitives) (so : StealthOutput) (amount : UInt64) (blind : BlindFactor) :
    Result Output := do
  let commit ← C.commit amount.toNat blind
  .ok { oneTimePub := so.oneTimePub
        txPubKey := so.txPubKey
        amountCommit := commit
        encAmount := encryptAmount C amount so.hsScalar }

def txBuildOutputWithBlind (r : Scalar) (addr : Address) (amount : UInt64) (blind : BlindFactor) :
    Result Output := do
  let so ← stealthTo K r addr
  so.pay C amount blind

/-- `txBuildOutputWithEphemeral`: without a given blind, the deterministic one. -/
def txBuildOutputWithEphemeral (r : Scalar) (addr : Address) (amount : UInt64)
    (blind : Option BlindFactor) : Result (Output × BlindFactor × Scalar32) := do
  let so ← stealthTo K r addr
  let payBlind := blind.getD (deterministicPaymentBlind K so.hsScalar amount)
  let out ← so.pay C amount payBlind
  .ok (out, payBlind, Scalar.bytes r)

/-- `txBuildOutput`: with the deterministic blind. -/
def txBuildOutput (r : Scalar) (addr : Address) (amount : UInt64) :
    Result (Output × BlindFactor) := do
  let so ← stealthTo K r addr
  let blind := deterministicPaymentBlind K so.hsScalar amount
  let out ← so.pay C amount blind
  .ok (out, blind)

/-- The change output, with the blind that balances the others. -/
def changeEntry (r : Scalar) (changeAddr : Address) (changeAmount : UInt64)
    (inBlinds outBlinds : List BlindFactor) : Result OutEntry := do
  let changeBlind ← wrap "change blind sum" (blindSum inBlinds outBlinds)
  let out ← wrap "build change output" (txBuildOutputWithBlind K r changeAddr changeAmount changeBlind)
  .ok { output := out, blind := changeBlind, amount := changeAmount }

def buildOutputs (rnd : Entropy) (isBurn : Bool) (amount : UInt64) (recipient changeAddr : Address)
    (f : Funding) : Result (List OutEntry) :=
  let inBlinds := f.selected.map (·.blind)
  if isBurn ∧ f.changeAmount > 0 then do
    let change ← changeEntry K (rnd.ephemeral 0) changeAddr f.changeAmount inBlinds [feeBlind]
    .ok [change]
  else if f.changeAmount > 0 then do
    let (payOut, payBlind, ephemeral) ← wrap "build payment output"
      (txBuildOutputWithEphemeral K (rnd.ephemeral 0) recipient amount none)
    let change ←
      changeEntry K (rnd.ephemeral 1) changeAddr f.changeAmount inBlinds [payBlind, feeBlind]
    .ok [⟨payOut, payBlind, amount, ephemeral⟩, change]
  else if isBurn = false then do
    let payBlind ← wrap "pay blind sum" (blindSum inBlinds [feeBlind])
    let (payOut, _, ephemeral) ← wrap "build payment output"
      (txBuildOutputWithEphemeral K (rnd.ephemeral 0) recipient amount (some payBlind))
    .ok [⟨payOut, payBlind, amount, ephemeral⟩]
  else .ok []

structure BatchRecipient where
  address : Address
  amountNAPR : UInt64
  deriving DecidableEq

/-- A payment of `BuildMulti` with the deterministic blind. -/
def payEntry (rnd : Entropy) (i : Nat) (r : BatchRecipient) : Result OutEntry := do
  let (payOut, payBlind) ← wrap s!"build payment output[{i}]"
    (txBuildOutput K (rnd.ephemeral i) r.address r.amountNAPR)
  .ok { output := payOut, blind := payBlind, amount := r.amountNAPR }

/-- The outputs of `BuildMulti`: without change the last payment balances. -/
def buildMultiOutputs (rnd : Entropy) (recipients : List BatchRecipient) (changeAddr : Address)
    (f : Funding) : Result (List OutEntry) :=
  let inBlinds := f.selected.map (·.blind)
  if f.changeAmount > 0 then do
    let pays ← mapLoop (payEntry K rnd) 0 recipients
    let change ← changeEntry K (rnd.ephemeral recipients.length) changeAddr f.changeAmount inBlinds
      (feeBlind :: pays.map (·.blind))
    .ok (pays ++ [change])
  else do
    let pays ← mapLoop (payEntry K rnd) 0 recipients.dropLast
    let last ← deref recipients.getLast?
    let lastBlind ← wrap "last pay blind sum" (blindSum inBlinds (feeBlind :: pays.map (·.blind)))
    let lastOut ← wrap "build last payment output" (txBuildOutputWithBlind K
      (rnd.ephemeral (recipients.length - 1)) last.address last.amountNAPR lastBlind)
    .ok (pays ++ [{ output := lastOut, blind := lastBlind, amount := last.amountNAPR }])

/-! ### Rings -/

/-- The slots of a ring: the real key at `realIdx`, decoys in order, generated keys when the decoys
run out.  Returns the ring and the number of generated keys. -/
def fillRing (realIdx : Nat) (fakeKey : Nat → Point32) (realPub : Point32) :
    List Nat → List DecoyUTXO → List Point32 → Result (List Point32 × Nat)
  | [], _, _ => .ok ([], 0)
  | i :: slots, decoys, seen =>
    if i = realIdx then do
      let (ring, fallbacks) ← fillRing realIdx fakeKey realPub slots decoys seen
      .ok (realPub :: ring, fallbacks)
    else
      match decoys with
      | d :: decoys => do
        failIf (d.oneTimePub ∈ seen) "duplicate decoy ring member"
        let (ring, fallbacks) ←
          fillRing realIdx fakeKey realPub slots decoys (d.oneTimePub :: seen)
        .ok (d.oneTimePub :: ring, fallbacks)
      | [] => do
        let (ring, fallbacks) ← fillRing realIdx fakeKey realPub slots [] seen
        .ok (fakeKey i :: ring, fallbacks + 1)

def txBuildRing (realIdx : Fin ringSize) (fakeKey : Nat → Point32) (realPub : Point32)
    (decoys : List DecoyUTXO) : Result (List Point32 × Nat) :=
  fillRing realIdx fakeKey realPub (List.range ringSize) decoys [realPub]

/-- The ring commitments, in the order of the ring. -/
def fillCommitments (realIdx : Nat) (real : Commitment) :
    List Nat → List DecoyUTXO → Result (List Commitment)
  | [], _ => .ok []
  | j :: slots, decoys =>
    if j = realIdx then do
      let commits ← fillCommitments realIdx real slots decoys
      .ok (real :: commits)
    else
      match decoys with
      | d :: decoys => do
        let commits ← fillCommitments realIdx real slots decoys
        .ok (d.amountCommit :: commits)
      | [] => .error .panic

/-- What tells the two builders apart once the outputs are made: which versions take the CLSAG path,
and the wording of errors. -/
structure BuildPath where
  clsag : TxVersion → Bool
  place : String → Nat → String
  privKeyText : String
  clsagText : String

def buildPath : BuildPath :=
  ⟨txVersionUsesCLSAG, fun what i => s!"{what} [{i}]", "derive one-time priv key", "CLSAG transaction"⟩

def buildMultiPath : BuildPath :=
  ⟨fun version => version = .clsag, fun what i => s!"{what}[{i}]", "derive one-time priv", "v5"⟩

/-- A ring input with what is needed to sign it. -/
structure SigningInput where
  source : OwnedUTXO
  input : RingInput
  privKey : Scalar32
  realIdx : Nat
  fallbacks : Nat
  pseudoBlind : BlindFactor := 0
  deriving DecidableEq

/-- The part of the decoys for the ring of the `i`-th input. -/
def ringDecoys (allDecoys : List DecoyUTXO) (i : Nat) : List DecoyUTXO :=
  (allDecoys.drop (i * (ringSize - 1))).take (ringSize - 1)

namespace TxBuilder

variable (b : TxBuilder) (path : BuildPath) (rnd : Entropy)

/-- The decoys for all rings: supplied ones that are not inputs, or a sample of the UTXO set. -/
def chooseDecoys (selected : List OwnedUTXO) : Result (List DecoyUTXO) :=
  let inputPubs := selected.map (·.oneTimePub)
  if b.decoys.length > 0 then .ok (b.decoys.filter fun d => d.oneTimePub ∉ inputPubs)
  else
    match b.utxoSet with
    | some sample => wrap "sample chain decoys"
        (sample (selected.length * (ringSize - 1)) inputPubs (path.clsag b.txVersion))
    | none => .ok []

/-- One ring input.  In the CLSAG path the real position is not written into it. -/
def ringInput (allDecoys : List DecoyUTXO) (i : Nat) (u : OwnedUTXO) : Result SigningInput := do
  let privKey ← wrap (path.place path.privKeyText i) (addScalars u.hsScalar b.spendPriv)
  let decoys := ringDecoys allDecoys i
  failIf (path.clsag b.txVersion ∧ decoys.length ≠ ringSize - 1)
    s!"{path.clsagText} requires {ringSize - 1} real on-chain decoys per input"
  let realIdx := rnd.ringPosition i
  let (ring, fallbacks) ← wrap (path.place "build ring" i)
    (txBuildRing realIdx (rnd.fakeKey i) u.oneTimePub decoys)
  let keyImage ← wrap (path.place "compute key image" i) (computeKeyImage K privKey u.oneTimePub)
  if path.clsag b.txVersion then do
    let commits ← fillCommitments realIdx u.amountCommit (List.range ringSize) decoys
    let input : RingInput := { keyImage, ring, amountCommit := u.amountCommit,
                               ringCommitments := commits, realIndex := 0 }
    .ok { source := u, input, privKey, realIdx, fallbacks }
  else
    let input : RingInput := { keyImage, ring, amountCommit := u.amountCommit,
                               realIndex := UInt8.ofNat realIdx }
    .ok { source := u, input, privKey, realIdx, fallbacks }

end TxBuilder

/-! ### Assembly -/

/-- What is put together: inputs and outputs, the public fee, and the parts `Build` alone sets. -/
structure BuildPlan where
  selected : List OwnedUTXO
  entries : List OutEntry
  fee : UInt64
  feeCommit : Commitment
  avm : Option AVMPayload := none
  extra : Bytes := []

/-- The blinds of the pseudo outputs: random ones, and a last one that balances the outputs. -/
def pseudoBlinds (rnd : Entropy) (n : Nat) (outBlinds : List BlindFactor) :
    Result (List BlindFactor) :=
  if n = 0 then .error .panic
  else do
    let drawn := (List.range (n - 1)).map fun i => Scalar.bytes (rnd.pseudoBlind i)
    let last ← wrap "final pseudo blind" (blindSum outBlinds drawn)
    .ok (drawn ++ [last])

/-- `tx.Inputs[i].PseudoOut`. -/
def setPseudoOut (path : BuildPath) (blinds : List BlindFactor) (i : Nat) (s : SigningInput) :
    Result SigningInput := do
  let blind ← index blinds i
  let pseudoOut ← wrap (path.place "pseudo output" i) (C.commit s.source.amount.toNat blind)
  .ok { s with input := { s.input with pseudoOut }, pseudoBlind := blind }

def signCLSAG (path : BuildPath) (rnd : Entropy) (txHash : Hash32) (i : Nat) (s : SigningInput) :
    Result CLSAGSignature :=
  wrap (path.place "clsag sign" i) (K.clsagSign (rnd.signature i)
    (ringSignMessage C txHash i) s.input.ring s.input.ringCommitments
    s.input.pseudoOut s.realIdx s.privKey s.source.blind s.pseudoBlind)

def signMLSAG (path : BuildPath) (rnd : Entropy) (version : TxVersion) (txHash : Hash32) (i : Nat)
    (s : SigningInput) : Result MLSAGSignature :=
  let msg := ringSignMessage C txHash i
  wrap (path.place "mlsag sign" i)
    (if version = .commitmentBinding then
      K.mlsagSignV4 (rnd.signature i) msg s.input.ring s.realIdx s.privKey s.source.blind
        s.source.amount
    else K.mlsagSign (rnd.signature i) msg s.input.ring s.realIdx s.privKey)

/-- `tx.Inputs[i].KeyImage = sig.KeyImage`. -/
def setKeyImages (inputs : List RingInput) (images : List KeyImage) : List RingInput :=
  List.zipWith (fun inp keyImage => { inp with keyImage }) inputs images

namespace TxBuilder

variable (b : TxBuilder) (path : BuildPath) (rnd : Entropy)

def unsigned (plan : BuildPlan) (ins : List SigningInput) (proofs : List RangeProof) : Transaction :=
  { version := b.txVersion
    inputs := ins.map (·.input)
    outputs := plan.entries.map (·.output)
    fee := plan.fee
    feeCommit := plan.feeCommit
    rangeProofs := proofs.map some
    extra := plan.extra
    avm := plan.avm }

def completeCLSAG (plan : BuildPlan) (ins : List SigningInput) (proofs : List RangeProof) :
    Result Transaction := do
  let blinds ← pseudoBlinds rnd ins.length (feeBlind :: plan.entries.map (·.blind))
  let ins ← mapLoop (setPseudoOut (C := C) path blinds) 0 ins
  let tx := b.unsigned plan ins proofs
  let sigs ← mapLoop (signCLSAG K path rnd (tx.hash C)) 0 ins
  .ok { tx with
    clsagSignatures := sigs.map some
    inputs := setKeyImages tx.inputs (sigs.map (·.keyImage)) }

def completeMLSAG (plan : BuildPlan) (ins : List SigningInput) (proofs : List RangeProof) :
    Result Transaction := do
  let tx := b.unsigned plan ins proofs
  let sigs ← mapLoop (signMLSAG K path rnd b.txVersion (tx.hash C)) 0 ins
  .ok { tx with
    signatures := sigs.map some
    inputs := setKeyImages tx.inputs (sigs.map (·.keyImage)) }

/-- Assembly and signatures. -/
def assemble (plan : BuildPlan) (ins : List SigningInput) (proofs : List RangeProof) :
    Result Transaction :=
  if path.clsag b.txVersion then b.completeCLSAG K path rnd plan ins proofs
  else b.completeMLSAG K path rnd plan ins proofs

/-- Rings, range proofs, assembly and signatures; also the number of generated ring members. -/
def complete (plan : BuildPlan) : Result (Transaction × Nat) := do
  let allDecoys ← b.chooseDecoys path plan.selected
  let ins ← mapLoop (b.ringInput K path rnd allDecoys) 0 plan.selected
  let proofs ← mapLoop (fun i (e : OutEntry) => wrap (path.place "range proof" i)
    (K.proveRange (rnd.proof i) e.amount e.blind)) 0 plan.entries
  let tx ← b.assemble K path rnd plan ins proofs
  .ok (tx, (ins.map (·.fallbacks)).sum)

end TxBuilder

/-! ### Build -/

def validateOwnedUTXOOpening (C : Primitives) (u : OwnedUTXO) : Result Unit := do
  let commitment ← wrap "invalid amount or blind" (C.commit u.amount.toNat u.blind)
  failIf (commitment ≠ u.amountCommit) "amount/blind do not open the selected UTXO commitment"

/-- `BuildResult`; an index of `-1` says that there is no such output. -/
structure BuildResult where
  tx : Transaction
  changeAmount : UInt64
  totalFee : UInt64
  inputCount : Nat
  outputCount : Nat
  changeBlind : BlindFactor
  changeOutIdx : Int
  payBlind : BlindFactor
  payOutIdx : Int
  realDecoyCount : Nat
  fallbackDecoyCount : Nat
  selectedUTXOs : List OwnedUTXO
  /-- The ephemeral scalar of the payment, when it was asked for. -/
  paymentProof : Option Scalar32
  deriving DecidableEq

structure BatchBuildResult where
  tx : Transaction
  totalFee : UInt64
  changeAmount : UInt64
  changeBlind : BlindFactor
  changeOutIdx : Int
  payBlinds : List BlindFactor
  payOutIdxs : List Nat
  payAmounts : List UInt64
  realDecoyCount : Nat
  fallbackDecoyCount : Nat
  deriving DecidableEq

namespace TxBuilder

variable (b : TxBuilder) (rnd : Entropy)

/-- The AVM checks of `Build`. -/
def checkAVM (C : Externals) : Result Unit :=
  if b.txVersion = .avm then
    match b.avmPayload with
    | none => fail "AVM transaction requires WithAVM"
    | some p => wrap "invalid AVM payload" (AVMPayload.validate C (some p))
  else failIf (b.avmPayload ≠ none) "AVM payload requires transaction version 6"

/-- The size of the AVM payload and the fee for its gas. -/
def avmCost : Result (Nat × UInt64) :=
  match b.avmPayload with
  | none => .ok (0, 0)
  | some p => do
    let gasFee ← avmGasFee p.gasLimit.toNat
    .ok ((p.canonicalBytes true).length, UInt64.ofNat gasFee)

/-- The fee the transaction carries: an intentional burn is part of it. -/
def totalFee (isBurn : Bool) (amount fee : UInt64) : Result UInt64 :=
  if isBurn then do
    failIf (fee.toNat > maxUint64 - amount.toNat) "intentional burn fee overflows uint64"
    .ok (fee + amount)
  else .ok fee

def build (amount : UInt64) (recipient changeAddr : Address) : Result BuildResult := do
  failIf (amount = 0) "amount must be > 0"
  wrap "invalid recipient address" (validateAddress C recipient)
  wrap "invalid change address" (validateAddress C changeAddr)
  b.checkAVM C
  let isBurn := isBurnAddress K recipient
  failIf (isBurn ∧ b.txVersion ≠ .commitmentBinding ∧ txVersionUsesCLSAG b.txVersion = false)
    "intentional burn is unavailable before RingCT v4 activation"
  let extra := if isBurn then intentionalBurnExtra amount else []
  let (avmBytes, gasFee) ← b.avmCost
  let f ← b.fund amount (if isBurn then 1 else 2) (extra.length + avmBytes) gasFee
  let fee ← totalFee isBurn amount f.fee
  let feeCommit ← wrap "fee commit" (C.commit fee.toNat feeBlind)
  checkAll (fun i u => wrap (buildPath.place "input opening" i)
    (validateOwnedUTXOOpening C u)) 0 f.selected
  let entries ← buildOutputs K rnd isBurn amount recipient changeAddr f
  let (tx, fallbacks) ← b.complete K buildPath rnd
    { selected := f.selected, entries, fee, feeCommit, avm := b.avmPayload, extra }
  let changeOutIdx : Int := if f.changeAmount > 0 then (if isBurn then 0 else 1) else -1
  .ok { tx
        changeAmount := f.changeAmount
        totalFee := fee
        inputCount := f.selected.length
        outputCount := entries.length
        changeBlind := if f.changeAmount > 0 then (entries.getLast?.map (·.blind)).getD 0 else 0
        changeOutIdx
        payBlind := if isBurn then 0 else (entries.head?.map (·.blind)).getD 0
        payOutIdx := if isBurn then -1 else 0
        realDecoyCount := f.selected.length * (ringSize - 1) - fallbacks
        fallbackDecoyCount := fallbacks
        selectedUTXOs := f.selected
        paymentProof :=
          if b.paymentRecipientProof ∧ isBurn = false then entries.head?.map (·.ephemeralSecret)
          else none }

/-! ### BuildMulti -/

/-- The checks of one recipient; the amounts add up in `totalAmount`. -/
def checkRecipient (i : Nat) (r : BatchRecipient) (totalAmount : UInt64) : Result UInt64 := do
  failIf (r.amountNAPR = 0) s!"recipients[{i}]: amount must be > 0"
  wrap s!"recipients[{i}]: invalid address" (validateAddress C r.address)
  failIf (isBurnAddress K r.address)
    s!"recipients[{i}]: canonical burn address must be sent with Build, not BuildMulti"
  .ok (totalAmount + r.amountNAPR)

def buildMulti (recipients : List BatchRecipient) (changeAddr : Address) :
    Result BatchBuildResult := do
  failIf (recipients.length = 0) "at least one recipient required"
  failIf (recipients.length > 15) "recipients exceeds maximum of 15 per batch (tx output limit)"
  let totalAmount ← loop (checkRecipient K) 0 recipients 0
  wrap "invalid change address" (validateAddress C changeAddr)
  let f ← b.fundMulti totalAmount (recipients.length + 1)
  let feeCommit ← wrap "fee commit" (C.commit f.fee.toNat feeBlind)
  checkAll (fun i u => wrap (buildMultiPath.place "input opening" i)
    (validateOwnedUTXOOpening C u)) 0 f.selected
  let entries ← buildMultiOutputs K rnd recipients changeAddr f
  let (tx, fallbacks) ← b.complete K buildMultiPath rnd
    { selected := f.selected, entries, fee := f.fee, feeCommit }
  .ok { tx
        totalFee := f.fee
        changeAmount := f.changeAmount
        changeBlind := if f.changeAmount > 0 then (entries.getLast?.map (·.blind)).getD 0 else 0
        changeOutIdx := if f.changeAmount > 0 then recipients.length else -1
        payBlinds := (entries.take recipients.length).map (·.blind)
        payOutIdxs := List.range recipients.length
        payAmounts := recipients.map (·.amountNAPR)
        realDecoyCount := f.selected.length * (ringSize - 1) - fallbacks
        fallbackDecoyCount := fallbacks }

end TxBuilder

end Aperod
